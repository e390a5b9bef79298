import Ficant.Runtime.GraphExecution

namespace Ficant

open Lib

/-!
# What a replay says

Every journal that `replayGraphExecution` accepts, read as a run through the phases.

* `Progress.Step` — what one accepted event does, one constructor for each kind (`transition_step`).
* `Consistent` — how the progress of a replay reflects the events so far: the completed nodes are
  the first ones of the order, the starts of the current node have attempts up to the current one,
  and the last checkpoint is the last checkpoint event.
* `consistent_of_replayEvents` — the run lemma, by induction over the journal.
* `replayGraphExecution_exact` — the result of a replay, and of every cut of its journal.
-/

/-- The node a phase is at, and the attempts it has seen of it. -/
def Phase.position : Phase → Option (ℕ × ℕ)
  | .ready index => some (index, 0)
  | .active index attempt => some (index, attempt)
  | .awaitingCheckpoint index attempt _ => some (index, attempt)
  | _ => none

/-! ### One event -/

/-- What an accepted event does to the progress. -/
inductive Progress.Step (order : List Ulid) (p : Progress) (e : RunJournal) : Progress → Prop
  | runCreated (hphase : p.phase = .initial) (htype : e.input.eventType = .runCreated) :
      Progress.Step order p e { p with phase := .created }
  | runStarted (hphase : p.phase = .created) (htype : e.input.eventType = .runStarted) :
      Progress.Step order p e { p with phase := .ready 0 }
  | nodeStarted {index attempt : ℕ} {payload : GraphNodeEvent}
      (hphase : p.phase.position = some (index, attempt))
      (htype : e.input.eventType = .nodeStarted) (hdecode : GraphNodeEvent.decode e = .ok payload)
      (hnode : order[index]? = some payload.nodeId) (hattempt : attempt < payload.attempt) :
      Progress.Step order p e { p with phase := .active index payload.attempt }
  | nodeSucceeded {index attempt : ℕ} {outputHash : ContentHash}
      (hphase : p.phase = .active index attempt) (htype : e.input.eventType = .nodeSucceeded)
      (hnode : index < order.length) :
      Progress.Step order p e { p with phase := .awaitingCheckpoint index attempt outputHash }
  | nodeCheckpointed {index attempt : ℕ} {outputHash : ContentHash} {payload : GraphNodeEvent}
      (hphase : p.phase = .awaitingCheckpoint index attempt outputHash)
      (htype : e.input.eventType = .nodeCheckpointed)
      (hdecode : GraphNodeEvent.decode e = .ok payload)
      (hnode : order[index]? = some payload.nodeId) (hattempt : payload.attempt = attempt)
      (hevidence : payload.evidenceHash = some outputHash) :
      Progress.Step order p e (checkpoint p e payload.nodeId index attempt outputHash)
  | nodeFailed {index attempt : ℕ} (hphase : p.phase = .active index attempt)
      (htype : e.input.eventType = .nodeFailed) :
      Progress.Step order p e { p with phase := .nodeFailed }
  | runSucceeded (hphase : p.phase = .ready order.length)
      (htype : e.input.eventType = .runSucceeded) :
      Progress.Step order p e { p with phase := .terminal .succeeded }
  | runFailed (hphase : p.phase = .nodeFailed) (htype : e.input.eventType = .runFailed) :
      Progress.Step order p e { p with phase := .terminal .failed }
  | runCancelled {position : ℕ × ℕ} (hphase : p.phase.position = some position)
      (htype : e.input.eventType = .runCancelled) :
      Progress.Step order p e { p with phase := .terminal .cancelled }

section Step

variable {order : List Ulid} {p p' : Progress} {e : RunJournal}

/-- A node event that passes names the node at its place of the order. -/
theorem requireNodeIdentity_eq_ok {payload : GraphNodeEvent} {index : ℕ} {u : Unit}
    (h : requireNodeIdentity payload order index = .ok u) :
    order[index]? = some payload.nodeId := by
  unfold requireNodeIdentity at h
  split at h
  · cases h
  · rename_i hnode
    exact not_not.mp hnode

/-- A node event that passes names the node and the attempt expected. -/
theorem requireNode_eq_ok {payload : GraphNodeEvent} {index attempt : ℕ} {u : Unit}
    (h : requireNode payload order index attempt = .ok u) :
    order[index]? = some payload.nodeId ∧ payload.attempt = attempt := by
  unfold requireNode at h
  split at h
  · cases h
  · rename_i hnode
    rw [not_or, not_not, not_not] at hnode
    exact hnode

/-- A restart of the current node is a step. -/
theorem restart_step {index attempt : ℕ} (hphase : p.phase.position = some (index, attempt))
    (htype : e.input.eventType = .nodeStarted) (h : restart p e order index attempt = .ok p') :
    Progress.Step order p e p' := by
  obtain ⟨payload, hdecode, h⟩ := bind_eq_ok.mp h
  obtain ⟨_, hnode, h⟩ := bind_eq_ok.mp h
  split at h
  · cases h
  rename_i hattempt
  obtain rfl := Except.ok.inj h
  exact .nodeStarted hphase htype hdecode (requireNodeIdentity_eq_ok hnode) (by omega)

/-- The state machine accepts exactly these steps. -/
theorem transition_step (h : transition order p e = .ok p') : Progress.Step order p e p' := by
  -- One case for each phase and event that the machine accepts.
  unfold transition at h
  split at h
  case h_1 hphase htype => exact Except.ok.inj h ▸ .runCreated hphase htype
  case h_2 hphase htype => exact Except.ok.inj h ▸ .runStarted hphase htype
  case h_3 index hphase htype =>
    obtain ⟨payload, hdecode, h⟩ := bind_eq_ok.mp h
    obtain ⟨_, hnode, h⟩ := bind_eq_ok.mp h
    obtain rfl := Except.ok.inj h
    exact .nodeStarted (by rw [hphase]; rfl) htype hdecode (requireNodeIdentity_eq_ok hnode)
      payload.positive
  case h_4 index attempt hphase htype => exact restart_step (by rw [hphase]; rfl) htype h
  case h_5 index attempt outputHash hphase htype =>
    exact restart_step (by rw [hphase]; rfl) htype h
  case h_6 index attempt hphase htype =>
    obtain ⟨payload, -, h⟩ := bind_eq_ok.mp h
    obtain ⟨_, hnode, h⟩ := bind_eq_ok.mp h
    obtain ⟨hnode, -⟩ := requireNode_eq_ok hnode
    split at h
    · cases h
    · obtain rfl := Except.ok.inj h
      exact .nodeSucceeded hphase htype (List.getElem?_eq_some_iff.mp hnode).1
  case h_7 index attempt outputHash hphase htype =>
    obtain ⟨payload, hdecode, h⟩ := bind_eq_ok.mp h
    obtain ⟨_, hnode, h⟩ := bind_eq_ok.mp h
    obtain ⟨hnode, hattempt⟩ := requireNode_eq_ok hnode
    split at h
    · cases h
    rename_i hevidence
    rw [hnode] at h
    obtain rfl := Except.ok.inj h
    exact .nodeCheckpointed hphase htype hdecode hnode hattempt (not_not.mp hevidence)
  case h_8 index attempt hphase htype =>
    obtain ⟨payload, -, h⟩ := bind_eq_ok.mp h
    obtain ⟨_, -, h⟩ := bind_eq_ok.mp h
    exact Except.ok.inj h ▸ .nodeFailed hphase htype
  case h_9 index hphase htype =>
    split at h
    · rename_i hindex
      exact Except.ok.inj h ▸ .runSucceeded (hindex ▸ hphase) htype
    · cases h
  case h_10 hphase htype => exact Except.ok.inj h ▸ .runFailed hphase htype
  case h_11 hphase htype =>
    exact Except.ok.inj h ▸ .runCancelled (by rw [hphase]; rfl) htype
  case h_12 hphase htype =>
    exact Except.ok.inj h ▸ .runCancelled (by rw [hphase]; rfl) htype
  case h_13 hphase htype =>
    exact Except.ok.inj h ▸ .runCancelled (by rw [hphase]; rfl) htype
  case h_14 => cases h

end Step

/-! ### A whole journal -/

/-- The starts of one node in two events: the later one has the later attempt. -/
def AttemptsIncrease (earlier later : RunJournal) : Prop :=
  ∀ p q, earlier.input.eventType = .nodeStarted → later.input.eventType = .nodeStarted →
    GraphNodeEvent.decode earlier = .ok p → GraphNodeEvent.decode later = .ok q →
    p.nodeId = q.nodeId → p.attempt < q.attempt

/-- A checkpoint and the event it stands for: the last checkpoint event of the journal. -/
def LastCheckpoint (events : List RunJournal) (cp : GraphCheckpoint) : Prop :=
  ∃ before event after payload, events = before ++ event :: after ∧
    event.input.eventType = .nodeCheckpointed ∧
    (∀ later ∈ after, later.input.eventType ≠ .nodeCheckpointed) ∧
    GraphNodeEvent.decode event = .ok payload ∧
    payload.nodeId = cp.nodeId ∧ payload.attempt = cp.attempt ∧
    payload.evidenceHash = some cp.outputHash ∧
    cp.journalSequence = event.input.sequence ∧ cp.journalHash = event.eventHash

/-- How the progress of a replay reflects the events so far. -/
structure Consistent (order : List Ulid) (events : List RunJournal) (p : Progress) : Prop where
  done_le : p.completedNodes.length ≤ order.length
  completed : p.completedNodes = order.take p.completedNodes.length
  position : ∀ index attempt, p.phase.position = some (index, attempt) →
    index = p.completedNodes.length
  early : p.phase = .initial ∨ p.phase = .created →
    p.completedNodes = [] ∧ ∀ e ∈ events, e.input.eventType ≠ .nodeStarted
  succeeded : p.phase = .terminal .succeeded → p.completedNodes.length = order.length
  ended : p.phase ≠ .terminal .running
  failed : (∃ e ∈ events, e.input.eventType = .nodeFailed) ↔
    p.phase = .nodeFailed ∨ p.phase = .terminal .failed
  starts : ∀ index attempt, p.phase.position = some (index, attempt) →
    ∀ e ∈ events, ∀ q, e.input.eventType = .nodeStarted → GraphNodeEvent.decode e = .ok q →
      q.nodeId ∈ order.take index ∨ order[index]? = some q.nodeId ∧ q.attempt ≤ attempt
  attempts : events.Pairwise AttemptsIncrease
  noCheckpoint : p.lastCheckpoint = none →
    p.completedNodes = [] ∧ ∀ e ∈ events, e.input.eventType ≠ .nodeCheckpointed
  checkpoint : ∀ cp, p.lastCheckpoint = some cp →
    p.completedNodes.getLast? = some cp.nodeId ∧ LastCheckpoint events cp

namespace LastCheckpoint

/-- Another event that is no checkpoint leaves the last one where it is. -/
theorem snoc {events : List RunJournal} {cp : GraphCheckpoint} (h : LastCheckpoint events cp)
    {e : RunJournal} (htype : e.input.eventType ≠ .nodeCheckpointed) :
    LastCheckpoint (events ++ [e]) cp := by
  obtain ⟨before, event, after, payload, rfl, hevent, hafter, hrest⟩ := h
  refine ⟨before, event, after ++ [e], payload, by simp, hevent, fun later hlater => ?_, hrest⟩
  rcases List.mem_append.mp hlater with hlater | hlater
  · exact hafter later hlater
  · rw [List.mem_singleton.mp hlater]
    exact htype

end LastCheckpoint

section Run

variable {order : List Ulid} {events : List RunJournal} {p p' : Progress} {e : RunJournal}

/-- An event that starts no node is after all the starts there are. -/
theorem attemptsIncrease_of_ne (htype : e.input.eventType ≠ .nodeStarted) (old : RunJournal) :
    AttemptsIncrease old e := fun _ _ _ he => absurd he htype

namespace Consistent

/-- An event that is no checkpoint changes the phase only. -/
theorem setPhase (hc : Consistent order events p) {phase : Phase}
    (htype : e.input.eventType ≠ .nodeCheckpointed)
    (hposition : ∀ index attempt, phase.position = some (index, attempt) →
      index = p.completedNodes.length)
    (hearly : phase = .initial ∨ phase = .created →
      p.completedNodes = [] ∧ ∀ old ∈ events ++ [e], old.input.eventType ≠ .nodeStarted)
    (hsucceeded : phase = .terminal .succeeded → p.completedNodes.length = order.length)
    (hended : phase ≠ .terminal .running)
    (hfailed : (∃ old ∈ events ++ [e], old.input.eventType = .nodeFailed) ↔
      phase = .nodeFailed ∨ phase = .terminal .failed)
    (hstarts : ∀ index attempt, phase.position = some (index, attempt) →
      ∀ old ∈ events ++ [e], ∀ q, old.input.eventType = .nodeStarted →
        GraphNodeEvent.decode old = .ok q →
        q.nodeId ∈ order.take index ∨ order[index]? = some q.nodeId ∧ q.attempt ≤ attempt)
    (hattempts : ∀ old ∈ events, AttemptsIncrease old e) :
    Consistent order (events ++ [e]) { p with phase := phase } where
  done_le := hc.done_le
  completed := hc.completed
  position := hposition
  early := hearly
  succeeded := hsucceeded
  ended := hended
  failed := hfailed
  starts := hstarts
  attempts := List.pairwise_append.mpr ⟨hc.attempts, List.pairwise_singleton _ _,
    fun old hold new hnew => List.mem_singleton.mp hnew ▸ hattempts old hold⟩
  noCheckpoint hnone := by
    obtain ⟨hnil, hold⟩ := hc.noCheckpoint hnone
    refine ⟨hnil, fun old hmem => ?_⟩
    rcases List.mem_append.mp hmem with hmem | hmem
    · exact hold old hmem
    · rw [List.mem_singleton.mp hmem]
      exact htype
  checkpoint cp hcp := ⟨(hc.checkpoint cp hcp).1, (hc.checkpoint cp hcp).2.snoc htype⟩

/-- The starts there were, when the new event starts no node. -/
theorem starts_snoc (hc : Consistent order events p) (htype : e.input.eventType ≠ .nodeStarted)
    {index attempt : ℕ} (hposition : p.phase.position = some (index, attempt)) :
    ∀ old ∈ events ++ [e], ∀ q, old.input.eventType = .nodeStarted →
      GraphNodeEvent.decode old = .ok q →
      q.nodeId ∈ order.take index ∨ order[index]? = some q.nodeId ∧ q.attempt ≤ attempt := by
  intro old hold q hstart hdecode
  rcases List.mem_append.mp hold with hold | hold
  · exact hc.starts index attempt hposition old hold q hstart hdecode
  · rw [List.mem_singleton.mp hold] at hstart
    exact absurd hstart htype

/-- Whether a node failed, when the new event says nothing about it. -/
theorem failed_snoc (hc : Consistent order events p) (htype : e.input.eventType ≠ .nodeFailed) :
    (∃ old ∈ events ++ [e], old.input.eventType = .nodeFailed) ↔
      p.phase = .nodeFailed ∨ p.phase = .terminal .failed := by
  rw [← hc.failed]
  constructor
  · rintro ⟨old, hold, hfail⟩
    rcases List.mem_append.mp hold with hold | hold
    · exact ⟨old, hold, hfail⟩
    · rw [List.mem_singleton.mp hold] at hfail
      exact absurd hfail htype
  · rintro ⟨old, hold, hfail⟩
    exact ⟨old, List.mem_append_left _ hold, hfail⟩

/-- A node is started: for the first time, or again with a later attempt. -/
theorem nodeStarted (hc : Consistent order events p) (hnodup : order.Nodup) {index attempt : ℕ}
    {payload : GraphNodeEvent} (hphase : p.phase.position = some (index, attempt))
    (htype : e.input.eventType = .nodeStarted) (hdecode : GraphNodeEvent.decode e = .ok payload)
    (hnode : order[index]? = some payload.nodeId) (hattempt : attempt < payload.attempt) :
    Consistent order (events ++ [e]) { p with phase := .active index payload.attempt } := by
  have hfailed := hc.failed_snoc (e := e) (by rw [htype]; decide)
  have hquiet : ¬(p.phase = .nodeFailed ∨ p.phase = .terminal .failed) := by
    rintro (h | h) <;> rw [h] at hphase <;> cases hphase
  -- the node at this index is none of those completed before
  have hfresh : payload.nodeId ∉ order.take index := by
    obtain ⟨hlt, hget⟩ := List.getElem?_eq_some_iff.mp hnode
    intro hmem
    obtain ⟨j, hj, hjget⟩ := List.getElem_of_mem hmem
    rw [List.length_take] at hj
    rw [List.getElem_take] at hjget
    have := (hnodup.getElem_inj_iff).mp (hjget.trans hget.symm)
    omega
  refine hc.setPhase (by rw [htype]; decide) ?_ (by rintro (h | h) <;> cases h)
    (fun h => by cases h) (by rintro ⟨⟩) (by rw [hfailed]; simpa using hquiet) ?_ ?_
  · rintro i a h
    obtain ⟨rfl, -⟩ := Prod.mk.inj (Option.some.inj h)
    exact hc.position _ _ hphase
  · rintro i a h old hold q hstart hq
    obtain ⟨rfl, rfl⟩ := Prod.mk.inj (Option.some.inj h)
    rcases List.mem_append.mp hold with hold | hold
    · refine (hc.starts _ _ hphase old hold q hstart hq).imp id fun h => ⟨h.1, ?_⟩
      omega
    · rw [List.mem_singleton.mp hold, hdecode] at hq
      obtain rfl := Except.ok.inj hq
      exact .inr ⟨hnode, le_rfl⟩
  · intro old hold q q' hstart _ hq hq' hsame
    rw [hdecode] at hq'
    obtain rfl := Except.ok.inj hq'
    rcases hc.starts _ _ hphase old hold q hstart hq with hmem | ⟨-, hle⟩
    · exact absurd (hsame ▸ hmem) hfresh
    · omega

/-- A node is complete. -/
theorem nodeCheckpointed (hc : Consistent order events p) {index attempt : ℕ}
    {outputHash : ContentHash} {payload : GraphNodeEvent}
    (hphase : p.phase = .awaitingCheckpoint index attempt outputHash)
    (htype : e.input.eventType = .nodeCheckpointed)
    (hdecode : GraphNodeEvent.decode e = .ok payload)
    (hnode : order[index]? = some payload.nodeId) (hattempt : payload.attempt = attempt)
    (hevidence : payload.evidenceHash = some outputHash) :
    Consistent order (events ++ [e])
      (Ficant.checkpoint p e payload.nodeId index attempt outputHash) := by
  have hposition : p.phase.position = some (index, attempt) := by rw [hphase]; rfl
  have hindex := hc.position _ _ hposition
  have hlt := (List.getElem?_eq_some_iff.mp hnode).1
  have htake : order.take (index + 1) = order.take index ++ [payload.nodeId] := by
    rw [List.take_add_one, hnode]
    rfl
  have hdone : p.completedNodes ++ [payload.nodeId] = order.take (index + 1) := by
    rw [htake, hindex, ← hc.completed]
  refine ⟨?_, ?_, ?_, ?_, ?_, ?_, ?_, ?_, ?_, ?_, ?_⟩
  · show (p.completedNodes ++ [payload.nodeId]).length ≤ order.length
    rw [List.length_append, ← hindex]
    exact hlt
  · show p.completedNodes ++ [payload.nodeId] =
      order.take (p.completedNodes ++ [payload.nodeId]).length
    rw [List.length_append, ← hindex]
    exact hdone
  · rintro i a h
    obtain ⟨rfl, -⟩ := Prod.mk.inj (Option.some.inj h)
    show index + 1 = (p.completedNodes ++ [payload.nodeId]).length
    rw [List.length_append, ← hindex]
    rfl
  · rintro (h | h) <;> cases h
  · intro h
    cases h
  · intro h
    cases h
  · rw [hc.failed_snoc (by rw [htype]; decide), hphase]
    simp [Ficant.checkpoint]
  · rintro i a h old hold q hstart hq
    obtain ⟨rfl, -⟩ := Prod.mk.inj (Option.some.inj h)
    -- the starts of the node just completed are now starts of a completed node
    left
    rw [htake, List.mem_append, List.mem_singleton]
    have hold := hc.starts_snoc (e := e) (by rw [htype]; decide) hposition old hold q hstart hq
    refine hold.imp id fun h => ?_
    rw [hnode] at h
    exact (Option.some.inj h.1).symm
  · exact List.pairwise_append.mpr ⟨hc.attempts, List.pairwise_singleton _ _,
      fun old _ new hnew => List.mem_singleton.mp hnew ▸
        attemptsIncrease_of_ne (by rw [htype]; decide) old⟩
  · intro h
    cases h
  · intro cp hcp
    obtain rfl := Option.some.inj hcp
    refine ⟨List.getLast?_concat, events, e, [], payload, rfl, htype, by simp, hdecode, rfl,
      hattempt, hevidence, rfl, rfl⟩

/-- **Step lemma.** Every accepted event keeps the progress consistent with the journal. -/
theorem step (hc : Consistent order events p) (hnodup : order.Nodup) (h : Progress.Step order p e p') :
    Consistent order (events ++ [e]) p' := by
  -- Most events only change the phase; starts and checkpoints have lemmas of their own.
  cases h with
  | runCreated hphase htype =>
    refine hc.setPhase (by rw [htype]; decide) (by rintro i a ⟨⟩) ?_ (by rintro ⟨⟩)
      (by rintro ⟨⟩) ?_
      (by rintro i a ⟨⟩) fun old _ => attemptsIncrease_of_ne (by rw [htype]; decide) old
    · intro _
      obtain ⟨hnil, hnone⟩ := hc.early (.inl hphase)
      refine ⟨hnil, fun old hold => ?_⟩
      rcases List.mem_append.mp hold with hold | hold
      · exact hnone old hold
      · rw [List.mem_singleton.mp hold, htype]
        decide
    · rw [hc.failed_snoc (by rw [htype]; decide), hphase]
      simp
  | runStarted hphase htype =>
    obtain ⟨hnil, hnone⟩ := hc.early (.inr hphase)
    refine hc.setPhase (by rw [htype]; decide) ?_ (by rintro (h | h) <;> cases h) (by rintro ⟨⟩)
      (by rintro ⟨⟩) ?_ ?_ fun old _ => attemptsIncrease_of_ne (by rw [htype]; decide) old
    · rintro i a h
      obtain ⟨rfl, -⟩ := Prod.mk.inj (Option.some.inj h)
      rw [hnil]
      rfl
    · rw [hc.failed_snoc (by rw [htype]; decide), hphase]
      simp
    · rintro i a _ old hold q hstart
      rcases List.mem_append.mp hold with hold | hold
      · exact absurd hstart (hnone old hold)
      · rw [List.mem_singleton.mp hold, htype] at hstart
        cases hstart
  | nodeStarted hphase htype hdecode hnode hattempt =>
    exact hc.nodeStarted hnodup hphase htype hdecode hnode hattempt
  | @nodeSucceeded index attempt outputHash hphase htype hnode =>
    have hposition : p.phase.position = some (index, attempt) := by rw [hphase]; rfl
    refine hc.setPhase (by rw [htype]; decide) ?_ (by rintro (h | h) <;> cases h) (by rintro ⟨⟩)
      (by rintro ⟨⟩) ?_ ?_ fun old _ => attemptsIncrease_of_ne (by rw [htype]; decide) old
    · rintro i a h
      obtain ⟨rfl, rfl⟩ := Prod.mk.inj (Option.some.inj h)
      exact hc.position _ _ hposition
    · rw [hc.failed_snoc (by rw [htype]; decide), hphase]
      simp
    · rintro i a h
      obtain ⟨rfl, rfl⟩ := Prod.mk.inj (Option.some.inj h)
      exact hc.starts_snoc (by rw [htype]; decide) hposition
  | nodeCheckpointed hphase htype hdecode hnode hattempt hevidence =>
    exact hc.nodeCheckpointed hphase htype hdecode hnode hattempt hevidence
  | nodeFailed hphase htype =>
    refine hc.setPhase (by rw [htype]; decide) (by rintro i a ⟨⟩) (by rintro (h | h) <;> cases h)
      (by rintro ⟨⟩) (by rintro ⟨⟩) ?_ (by rintro i a ⟨⟩)
      fun old _ => attemptsIncrease_of_ne (by rw [htype]; decide) old
    exact ⟨fun _ => .inl rfl, fun _ => ⟨e, List.mem_append_right _ List.mem_cons_self, htype⟩⟩
  | runSucceeded hphase htype =>
    have hdone := hc.position order.length 0 (by rw [hphase]; rfl)
    refine hc.setPhase (by rw [htype]; decide) (by rintro i a ⟨⟩) (by rintro (h | h) <;> cases h)
      (fun _ => hdone.symm) (by rintro ⟨⟩) ?_ (by rintro i a ⟨⟩)
      fun old _ => attemptsIncrease_of_ne (by rw [htype]; decide) old
    rw [hc.failed_snoc (by rw [htype]; decide), hphase]
    simp
  | runFailed hphase htype =>
    refine hc.setPhase (by rw [htype]; decide) (by rintro i a ⟨⟩) (by rintro (h | h) <;> cases h)
      (by rintro ⟨⟩) (by rintro ⟨⟩) ?_ (by rintro i a ⟨⟩)
      fun old _ => attemptsIncrease_of_ne (by rw [htype]; decide) old
    rw [hc.failed_snoc (by rw [htype]; decide), hphase]
    simp
  | runCancelled hphase htype =>
    have hquiet : ¬(p.phase = .nodeFailed ∨ p.phase = .terminal .failed) := by
      rintro (h | h) <;> rw [h] at hphase <;> cases hphase
    refine hc.setPhase (by rw [htype]; decide) (by rintro i a ⟨⟩) (by rintro (h | h) <;> cases h)
      (by rintro ⟨⟩) (by rintro ⟨⟩) ?_ (by rintro i a ⟨⟩)
      fun old _ => attemptsIncrease_of_ne (by rw [htype]; decide) old
    rw [hc.failed_snoc (by rw [htype]; decide)]
    simpa using hquiet

end Consistent

/-- **Run lemma.** -/
theorem consistent_of_replayEvents {digest : List UInt8 → ContentHash} {runId : Ulid}
    {cursor : ReplayCursor} (hnodup : order.Nodup)
    (h : replayEvents digest order runId events = .ok cursor) :
    Consistent order events cursor.progress := by
  induction events using List.reverseRecOn generalizing cursor with
  | nil =>
    obtain rfl := Except.ok.inj h
    refine ⟨by simp, by simp, by rintro i a ⟨⟩, by simp, by rintro ⟨⟩, by rintro ⟨⟩, by simp,
      by rintro i a ⟨⟩, List.Pairwise.nil, by simp, by rintro cp ⟨⟩⟩
  | append_singleton events event ih =>
    obtain ⟨middle, hmiddle, h⟩ := replayEvents_append h
    rw [List.foldlM_cons] at h
    obtain ⟨out, hout, h⟩ := bind_eq_ok.mp h
    obtain rfl := Except.ok.inj h
    obtain ⟨-, htransition, -⟩ := replayEvent_eq_ok hout
    exact (ih hmiddle).step hnodup (transition_step htransition)

/-- No step takes back a completed node. -/
theorem Progress.Step.completed_grows (h : Progress.Step order p e p') :
    p.completedNodes <+: p'.completedNodes := by
  cases h with
  | nodeCheckpointed => exact List.prefix_append _ _
  | _ => exact List.prefix_refl _

/-- Completed nodes stay completed. -/
theorem completed_grows_of_foldlM {digest : List UInt8 → ContentHash} {runId : Ulid}
    {cursor out : ReplayCursor} (h : events.foldlM (replayEvent digest order runId) cursor = .ok out) :
    cursor.progress.completedNodes <+: out.progress.completedNodes := by
  induction events generalizing cursor with
  | nil => exact Except.ok.inj h ▸ List.prefix_refl _
  | cons event events ih =>
    rw [List.foldlM_cons] at h
    obtain ⟨middle, hmiddle, h⟩ := bind_eq_ok.mp h
    obtain ⟨-, htransition, -⟩ := replayEvent_eq_ok hmiddle
    exact (transition_step htransition).completed_grows.trans (ih h)

/-- No step leads back to the initial phase. -/
theorem Progress.Step.phase_ne_initial (h : Progress.Step order p e p') : p'.phase ≠ .initial := by
  cases h <;> rintro ⟨⟩

/-- Once an event is accepted, the phase has an outcome. -/
theorem exists_outcome {digest : List UInt8 → ContentHash} {runId : Ulid} {cursor : ReplayCursor}
    (hne : events ≠ []) (h : replayEvents digest order runId events = .ok cursor) :
    ∃ outcome, cursor.progress.phase.outcome order = .ok outcome := by
  obtain ⟨first, last, rfl⟩ : ∃ first last, events = first ++ [last] :=
    ⟨_, _, (List.dropLast_append_getLast hne).symm⟩
  obtain ⟨middle, -, h⟩ := replayEvents_append h
  rw [List.foldlM_cons] at h
  obtain ⟨out, hout, h⟩ := bind_eq_ok.mp h
  obtain rfl := Except.ok.inj h
  obtain ⟨-, htransition, -⟩ := replayEvent_eq_ok hout
  have hphase := (transition_step htransition).phase_ne_initial
  cases hout : out.progress.phase with
  | initial => exact absurd hout hphase
  | _ => exact ⟨_, rfl⟩

end Run

/-! ### The result of a replay -/

section Result

variable {digest : List UInt8 → ContentHash} {graph : ResearchGraph} {events : List RunJournal}
  {result : GraphReplayResult}

/-- What the replay function returns, in terms of its loop. -/
theorem replayGraphExecution_eq_ok (h : replayGraphExecution digest graph events = .ok result) :
    ∃ cursor, events ≠ [] ∧
      replayEvents digest graph.topologicalOrder result.runId events = .ok cursor ∧
      cursor.progress.phase.outcome graph.topologicalOrder =
        .ok (result.runState, result.resumeNode) ∧
      result.completedNodes = cursor.progress.completedNodes ∧
      result.lastCheckpoint = cursor.progress.lastCheckpoint ∧
      result.eventCount = events.length := by
  cases events with
  | nil => cases h
  | cons first rest =>
    obtain ⟨cursor, hcursor, h⟩ := bind_eq_ok.mp h
    obtain ⟨⟨state, resume⟩, houtcome, h⟩ := bind_eq_ok.mp h
    obtain rfl := Except.ok.inj h
    exact ⟨cursor, by simp, hcursor, houtcome, rfl, rfl, rfl⟩

/-- The replay accepts a journal whose loop goes through. -/
theorem replayGraphExecution_of_replayEvents {runId : Ulid} {cursor : ReplayCursor}
    (hne : events ≠ [])
    (h : replayEvents digest graph.topologicalOrder runId events = .ok cursor) :
    ∃ result, replayGraphExecution digest graph events = .ok result ∧
      cursor.progress.phase.outcome graph.topologicalOrder =
        .ok (result.runState, result.resumeNode) ∧
      result.completedNodes = cursor.progress.completedNodes := by
  cases events with
  | nil => exact absurd rfl hne
  | cons first rest =>
    have hrun : first.input.runId = runId := by
      rw [← List.singleton_append] at h
      obtain ⟨middle, hmiddle, -⟩ := replayEvents_append h
      exact ((replayEvents_position hmiddle).2.2 first rfl).2.1
    obtain ⟨⟨state, resume⟩, houtcome⟩ := exists_outcome hne h
    refine ⟨_, bind_eq_ok.mpr ⟨cursor, hrun ▸ h, bind_eq_ok.mpr ⟨_, houtcome, rfl⟩⟩, houtcome, rfl⟩

/-- The node to resume at: the first one not completed, while the run is open. -/
theorem outcome_resume {order : List Ulid} {p : Progress} (hc : Consistent order events p)
    {state : RunState} {resume : Option Ulid} (h : p.phase.outcome order = .ok (state, resume)) :
    resume = if state = .running ∧ ∀ e ∈ events, e.input.eventType ≠ .nodeFailed then
      order[p.completedNodes.length]? else none := by
  have hfailed : (∀ e ∈ events, e.input.eventType ≠ .nodeFailed) ↔
      ¬(p.phase = .nodeFailed ∨ p.phase = .terminal .failed) := by
    rw [← hc.failed]
    push Not
    rfl
  simp only [hfailed]
  have hposition := hc.position
  have hended := hc.ended
  -- The node to resume at is read off the phase.
  cases hphase : p.phase with
  | initial => rw [hphase] at h; cases h
  | created =>
    rw [hphase] at h
    obtain ⟨rfl, rfl⟩ := Prod.mk.inj (Except.ok.inj h)
    simp
  | ready index =>
    rw [hphase] at h hposition
    obtain ⟨rfl, rfl⟩ := Prod.mk.inj (Except.ok.inj h)
    simp [← hposition index 0 rfl]
  | active index attempt =>
    rw [hphase] at h hposition
    obtain ⟨rfl, rfl⟩ := Prod.mk.inj (Except.ok.inj h)
    simp [← hposition index attempt rfl]
  | awaitingCheckpoint index attempt outputHash =>
    rw [hphase] at h hposition
    obtain ⟨rfl, rfl⟩ := Prod.mk.inj (Except.ok.inj h)
    simp [← hposition index attempt rfl]
  | nodeFailed =>
    rw [hphase] at h
    obtain ⟨rfl, rfl⟩ := Prod.mk.inj (Except.ok.inj h)
    simp
  | terminal terminal =>
    rw [hphase] at h hended
    obtain ⟨rfl, rfl⟩ := Prod.mk.inj (Except.ok.inj h)
    have : terminal ≠ .running := fun h => hended (h ▸ rfl)
    simp [this]

/-- A run that succeeded completed every node in order. -/
theorem outcome_succeeded {order : List Ulid} {p : Progress} (hc : Consistent order events p)
    {resume : Option Ulid} (h : p.phase.outcome order = .ok (.succeeded, resume)) :
    p.completedNodes = order := by
  have hphase : p.phase = .terminal .succeeded := by
    cases hphase : p.phase with
    | terminal terminal =>
      rw [hphase] at h
      rw [(Prod.mk.inj (Except.ok.inj h)).1]
    | _ =>
      rw [hphase] at h
      cases h
  rw [hc.completed, hc.succeeded hphase, List.take_length]

/-- **Graph replay is exact and monotone.** For every graph and every journal it accepts: the
    completed nodes are the first ones of the topological order, each once; the node to resume at
    is the next one while the run is open and no node failed, and none otherwise; the last
    checkpoint is that of the last completed node, with the sequence and hash of its event; a run
    succeeded only with all nodes completed; the attempts of one node increase; and every non-empty
    cut of the journal is accepted, with completed nodes that are a prefix of the full ones. -/
theorem replayGraphExecution_exact (h : replayGraphExecution digest graph events = .ok result) :
    result.completedNodes <+: graph.topologicalOrder ∧ result.completedNodes.Nodup ∧
      (result.resumeNode =
        if result.runState = .running ∧ ∀ e ∈ events, e.input.eventType ≠ .nodeFailed then
          graph.topologicalOrder[result.completedNodes.length]? else none) ∧
      (result.lastCheckpoint = none → result.completedNodes = []) ∧
      (∀ cp, result.lastCheckpoint = some cp →
        result.completedNodes.getLast? = some cp.nodeId ∧ LastCheckpoint events cp) ∧
      (result.runState = .succeeded → result.completedNodes = graph.topologicalOrder) ∧
      events.Pairwise AttemptsIncrease ∧
      ∀ k, 0 < k → ∃ cut, replayGraphExecution digest graph (events.take k) = .ok cut ∧
        cut.completedNodes <+: result.completedNodes := by
  obtain ⟨cursor, hne, hcursor, houtcome, hcompleted, hcheckpoint, -⟩ := replayGraphExecution_eq_ok h
  have hc := consistent_of_replayEvents graph.order_nodup hcursor
  rw [hcompleted, hcheckpoint]
  have hstart : cursor.progress.completedNodes <+: graph.topologicalOrder :=
    hc.completed ▸ List.take_prefix _ _
  refine ⟨hstart, graph.order_nodup.sublist hstart.sublist, outcome_resume hc houtcome,
    fun hnone => (hc.noCheckpoint hnone).1, hc.checkpoint,
    fun hstate => outcome_succeeded hc (hstate ▸ houtcome), hc.attempts, fun k hk => ?_⟩
  -- a cut of the journal: the loop goes through up to there, and the rest only adds nodes
  rw [← List.take_append_drop k events] at hcursor
  obtain ⟨middle, hmiddle, hrest⟩ := replayEvents_append hcursor
  have hcut : events.take k ≠ [] := by
    rw [ne_eq, List.take_eq_nil_iff]
    rintro (h | h)
    · omega
    · exact hne h
  obtain ⟨cut, hok, -, hcutCompleted⟩ := replayGraphExecution_of_replayEvents hcut hmiddle
  exact ⟨cut, hok, hcutCompleted ▸ completed_grows_of_foldlM hrest⟩

end Result

/-! ### A small run -/

namespace SmallRun

/-- A checksum in the place of SHA-256; it tells apart the bytes hashed here. -/
def digest (bytes : List UInt8) : ContentHash :=
  ⟨bigEndian 32 (bytes.foldl (fun sum b => (sum * 257 + b.toNat + 1) % 2 ^ 256) 0),
    length_bigEndian 32 _⟩

def tenantId : Ulid := ⟨2⟩
def ownerId : Ulid := ⟨3⟩
def nodeId : Ulid := ⟨7⟩
def runId : Ulid := ⟨8⟩

/-- A node without ports. -/
def node : ResearchNode := ⟨nodeId, ⟨[], [], digest [], .nil, .nil⟩, digest []⟩

/-- A graph of one node. -/
def graph : ResearchGraph :=
  (ResearchGraph.new digest ⟨1⟩ .first ⟨tenantId, ownerId⟩ [node] [] []
    []).toOption.get (by decide +kernel)

def occurredAt : MarketTime := ⟨.epoch, "UTC", .epoch⟩

/-- The journal with one more event of that kind. -/
def append (journal : List RunJournal) (eventType : JournalEventType) (payload : List UInt8) :
    List RunJournal :=
  let input : RunJournalInput :=
    { journalEventId := ⟨Fin.ofNat _ (100 + journal.length)⟩
      runId
      sequence := journal.length + 1
      eventType
      occurredAt
      payloadType := GraphNodeEvent.payloadType
      payloadSchema := GraphNodeEvent.payloadSchema
      payload
      prevHash := journal.getLast?.map RunJournal.eventHash }
  journal ++ [⟨input, digest input.canonicalBytes⟩]

/-- The node's payload for an attempt. -/
def payload (attempt : ℕ) (evidence : Option ContentHash) : List UInt8 :=
  ((GraphNodeEvent.new nodeId attempt evidence).toOption.map GraphNodeEvent.encode).getD []

/-- The node is started, started again after an interruption, and completed. -/
def journal : List RunJournal :=
  let run := append (append [] .runCreated [0]) .runStarted [0]
  let started := append (append run .nodeStarted (payload 1 none)) .nodeStarted (payload 2 none)
  append (append started .nodeSucceeded (payload 2 (some (digest [1])))) .nodeCheckpointed
    (payload 2 (some (digest [1])))

end SmallRun

theorem replayGraphExecution_exact_small :
    ∃ result, replayGraphExecution SmallRun.digest SmallRun.graph SmallRun.journal = .ok result ∧
      result.completedNodes <+: SmallRun.graph.topologicalOrder ∧
      ∃ cut, replayGraphExecution SmallRun.digest SmallRun.graph (SmallRun.journal.take 4) =
          .ok cut ∧ cut.completedNodes <+: result.completedNodes := by
  obtain ⟨result, h, -⟩ := exists_ok_of_any
    (x := replayGraphExecution SmallRun.digest SmallRun.graph SmallRun.journal)
    (p := fun _ => true) (by decide +kernel)
  have hexact := replayGraphExecution_exact h
  exact ⟨result, h, hexact.1, hexact.2.2.2.2.2.2.2 4 (by decide)⟩

end Ficant
