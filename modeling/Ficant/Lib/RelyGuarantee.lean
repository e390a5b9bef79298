import Ficant.Lib.Except
import Ficant.Lib.Transaction

namespace Lib

/-!
# Rely-guarantee reasoning about transactions

A proof outline gives, before every statement of a transaction, a fact about the committed state.
The other transactions may commit between any two statements, so each fact has to be stable under
what they may do: they keep the guarantee, and they leave alone what the transaction has locked.

* `Rules` — the invariant of the committed state, the guarantee, the rely and the condition that
  tagged statements may assume; `guard w` is the key a transaction holds exclusively to write `w`.
* `Program.Runs` — the outline, as a predicate transformer: `Runs` of a sequence is `Runs` of its
  first part with `Runs` of the rest as the postcondition (`runs_bind`).
* `System.Reachable.sound` — the outline read for the interleaved system: in every state reached, the
  invariant holds and every transaction in progress has an outline of what it still has to do.
* `Program.Fails` — what a transaction can fail with, by the state in which it does.
-/

/-- What a proof about a set of transactions fixes. -/
structure Rules (κ σ ω τ : Type) where
  inv : σ → Prop
  guarantee : σ → σ → Prop
  rely : List (κ × LockMode) → σ → σ → Prop
  condition : τ → σ → Prop
  guard : ω → κ

variable {T κ σ ω ε τ ι ρ : Type} {α β : Type}

namespace Rules

/-- A fact that the other transactions keep true while the locks are held. -/
def Stable (R : Rules κ σ ω τ) (L : List (κ × LockMode)) (F : σ → Prop) : Prop :=
  ∀ s s', R.inv s → R.inv s' → F s → R.rely L s s' → F s'

/-- The locks cover the writes, and committing them keeps the invariant and the guarantee. -/
def Commits [Store σ ω] (R : Rules κ σ ω τ) (F : σ → Prop) (L : List (κ × LockMode))
    (W : List ω) : Prop :=
  (∀ w ∈ W, (R.guard w, LockMode.exclusive) ∈ L) ∧
    ∀ s, R.inv s → F s → R.inv (writeAll s W) ∧ R.guarantee s (writeAll s W)

/-- Two facts that are stable are stable together. -/
theorem Stable.and {R : Rules κ σ ω τ} {L : List (κ × LockMode)} {F G : σ → Prop}
    (hF : R.Stable L F) (hG : R.Stable L G) : R.Stable L fun s => F s ∧ G s :=
  fun s s' hs hs' h hr => ⟨hF s s' hs hs' h.1 hr, hG s s' hs hs' h.2 hr⟩

end Rules

/-- What is to hold where a program ends: its value, the fact it leaves, its locks and its
    writes. -/
abbrev Post (κ σ ω α : Type) := α → (σ → Prop) → List (κ × LockMode) → List ω → Prop

namespace Program

variable [Store σ ω]

/-- A proof outline of a program, from a fact about the committed state, the locks held and the
    writes queued so far. -/
def Runs (R : Rules κ σ ω τ) (post : Post κ σ ω α) (F : σ → Prop) (L : List (κ × LockMode))
    (W : List ω) : Program T κ σ ω ε τ α → Prop
  | .ret a => post a F L W
  | .fail _ => True
  | .exec st next => ∀ now locked s, R.inv s → F s → R.condition st.tag (writeAll s W) →
      ∀ eff, st.exec now locked (writeAll s W) = .ok eff →
        ∃ F', F' s ∧ R.Stable (L ++ eff.locks) F' ∧
          Runs R post F' (L ++ eff.locks) (W ++ eff.writes) (next eff.value)

variable {R : Rules κ σ ω τ} {F : σ → Prop} {L : List (κ × LockMode)} {W : List ω}

/-- A program that returns has to establish its postcondition. -/
@[simp] theorem runs_pure {post : Post κ σ ω α} {a : α} :
    Runs R post F L W (pure a : Program T κ σ ω ε τ α) ↔ post a F L W := Iff.rfl

/-- A program that fails rolls back, so nothing is asked of it. -/
@[simp] theorem runs_fail {post : Post κ σ ω α} {e : ε} :
    Runs R post F L W (.fail e : Program T κ σ ω ε τ α) := trivial

/-- **Sequence.** The second program starts with what the first one establishes. -/
theorem runs_bind {post : Post κ σ ω β} {p : Program T κ σ ω ε τ α}
    {f : α → Program T κ σ ω ε τ β} :
    Runs R post F L W (p >>= f) ↔
      Runs R (fun a F L W => Runs R post F L W (f a)) F L W p := by
  induction p generalizing F L W with
  | ret a => exact Iff.rfl
  | fail e => exact Iff.rfl
  | exec st next ih =>
    show (∀ now locked s, _ → _ → _ → ∀ eff, _ → ∃ F', _ ∧ _ ∧ _) ↔ _
    simp only [Runs]
    constructor
    · intro h now locked s hs hF hc eff he
      obtain ⟨F', hF', hst, hnext⟩ := h now locked s hs hF hc eff he
      exact ⟨F', hF', hst, (ih eff.value).mp hnext⟩
    · intro h now locked s hs hF hc eff he
      obtain ⟨F', hF', hst, hnext⟩ := h now locked s hs hF hc eff he
      exact ⟨F', hF', hst, (ih eff.value).mpr hnext⟩

/-- Another error and another value change nothing of the run. -/
theorem runs_mapBoth {δ : Type} {post : Post κ σ ω β} {f : ε → δ} {g : α → β}
    {p : Program T κ σ ω ε τ α} :
    Runs R post F L W (p.mapBoth f g) ↔ Runs R (fun a => post (g a)) F L W p := by
  induction p generalizing F L W with
  | ret a => exact Iff.rfl
  | fail e => exact Iff.rfl
  | exec st next ih =>
    simp only [mapBoth, Runs, mapError_eq_ok]
    constructor
    · intro h now locked s hs hF hc eff he
      obtain ⟨F', hF', hst, hnext⟩ := h now locked s hs hF hc eff he
      exact ⟨F', hF', hst, (ih eff.value).mp hnext⟩
    · intro h now locked s hs hF hc eff he
      obtain ⟨F', hF', hst, hnext⟩ := h now locked s hs hF hc eff he
      exact ⟨F', hF', hst, (ih eff.value).mpr hnext⟩

/-- A check that does not look at the database passes, or the transaction fails. -/
theorem runs_ofExcept {post : Post κ σ ω α} {x : Except ε α}
    (h : ∀ a, x = .ok a → post a F L W) :
    Runs R post F L W (.ofExcept x : Program T κ σ ω ε τ α) := by
  cases x with
  | ok a => exact h a rfl
  | error e => trivial

/-- A test that fails the transaction. -/
theorem runs_ite_fail {post : Post κ σ ω α} {c : Prop} [Decidable c] {e : ε}
    {p : Program T κ σ ω ε τ α} (h : ¬c → Runs R post F L W p) :
    Runs R post F L W (if c then .fail e else p) := by
  by_cases hc : c
  · rw [if_pos hc]
    trivial
  · rw [if_neg hc]
    exact h hc

end Program

/-! ### The interleaved system -/

namespace System

section Locks

variable [DecidableEq κ]

/-- Without a conflict two locks of one key are both shared. -/
theorem conflicts_eq_false {sys : System T κ σ ω ε τ ρ} {id : ℕ} {k : κ} {mode : LockMode}
    (h : sys.conflicts id k mode = false) {j : ℕ} {th : Thread T κ σ ω ε τ ρ}
    (hj : sys.threads.get? j = some th) (hne : j ≠ id) {mode' : LockMode}
    (hl : (k, mode') ∈ th.locks) :
    mode = .share ∧ mode' = .share := by
  have h' : ¬sys.conflicts id k mode = true := by simp [h]
  rw [conflicts, List.any_eq_true] at h'
  have hmem := SortedMap.mem_entries_iff.mpr hj
  by_contra hmodes
  refine h' ⟨(j, th), hmem, ?_⟩
  simp only [Bool.and_eq_true, bne_iff_ne, ne_eq, hne, not_false_eq_true, true_and,
    List.any_eq_true]
  refine ⟨(k, mode'), hl, ?_⟩
  cases mode <;> cases mode' <;> simp_all

end Locks

/-- Locks of two transactions that may be held together: only shared ones overlap. -/
def Compatible (L L' : List (κ × LockMode)) : Prop :=
  ∀ k m m', (k, m) ∈ L → (k, m') ∈ L' → m = .share ∧ m' = .share

/-- Compatible locks are so either way. -/
theorem Compatible.symm {L L' : List (κ × LockMode)} (h : Compatible L L') : Compatible L' L :=
  fun k m m' hm hm' => (h k m' m hm' hm).symm

/-- What holds of one transaction in progress: an outline of the rest of its program, whose fact is
    true of the committed state. -/
def Outlined [Store σ ω] (R : Rules κ σ ω τ) (post : Post κ σ ω ρ) (s : σ)
    (th : Thread T κ σ ω ε τ ρ) : Prop :=
  ∃ F, F s ∧ R.Stable th.locks F ∧ th.rest.Runs R post F th.locks th.writes

/-- The invariant of the interleaved system. -/
structure Sound [Store σ ω] (R : Rules κ σ ω τ) (post : Post κ σ ω ρ)
    (sys : System T κ σ ω ε τ ρ) : Prop where
  inv : R.inv sys.committed
  threads : ∀ id th, sys.threads.get? id = some th → Outlined R post sys.committed th
  compatible : ∀ i j thi thj, i ≠ j → sys.threads.get? i = some thi → sys.threads.get? j = some thj →
    Compatible thi.locks thj.locks

section Soundness

variable [Store σ ω] {R : Rules κ σ ω τ} {post : Post κ σ ω ρ} {sys : System T κ σ ω ε τ ρ}

/-- A thread that ends leaves the others as they are. -/
theorem Sound.erase (h : Sound R post sys) (id : ℕ) :
    Sound R post { sys with threads := sys.threads.erase id } where
  inv := h.inv
  threads j th hj := by
    rw [SortedMap.get?_erase] at hj
    split at hj
    · cases hj
    · exact h.threads j th hj
  compatible i j thi thj hne hi hj := by
    rw [SortedMap.get?_erase] at hi hj
    split at hi
    · cases hi
    split at hj
    · cases hj
    exact h.compatible i j thi thj hne hi hj

/-- A thread may start or move where its locks are compatible with the others. -/
theorem Sound.insert (h : Sound R post sys) {id : ℕ} {th : Thread T κ σ ω ε τ ρ}
    (hth : Outlined R post sys.committed th)
    (hcompat : ∀ j thj, j ≠ id → sys.threads.get? j = some thj → Compatible th.locks thj.locks) :
    Sound R post { sys with threads := sys.threads.insert id th } where
  inv := h.inv
  threads j th' hj := by
    rw [SortedMap.get?_insert] at hj
    split at hj
    · obtain rfl := Option.some.inj hj
      exact hth
    · exact h.threads j th' hj
  compatible i j thi thj hne hi hj := by
    rw [SortedMap.get?_insert] at hi hj
    split at hi <;> split at hj
    · omega
    · obtain rfl := Option.some.inj hi
      exact hcompat j thj (by omega) hj
    · obtain rfl := Option.some.inj hj
      exact (hcompat i thi (by omega) hi).symm
    · exact h.compatible i j thi thj hne hi hj

variable {agree : κ → σ → σ → Prop}

/-- A commit changes nothing that another transaction has locked. -/
theorem agree_writeAll (hrefl : ∀ k s, agree k s s)
    (htrans : ∀ k s s' s'', agree k s s' → agree k s' s'' → agree k s s'')
    (hwrite : ∀ k s w, R.guard w ≠ k → agree k s (Store.write s w)) {k : κ} {W : List ω}
    (hW : ∀ w ∈ W, R.guard w ≠ k) (s : σ) : agree k s (writeAll s W) := by
  induction W generalizing s with
  | nil => exact hrefl k s
  | cons w W ih =>
    rw [writeAll_cons]
    exact htrans k s _ _ (hwrite k s w (hW w List.mem_cons_self))
      (ih (fun w' hw' => hW w' (List.mem_cons_of_mem _ hw')) _)

/-- **Commit.** The writes of one thread are what the others rely on, since they hold no lock that
    conflicts. -/
theorem Sound.commit (hrefl : ∀ k s, agree k s s)
    (htrans : ∀ k s s' s'', agree k s s' → agree k s' s'' → agree k s s'')
    (hwrite : ∀ k s w, R.guard w ≠ k → agree k s (Store.write s w))
    (hrely : ∀ L s s', R.guarantee s s' → (∀ k m, (k, m) ∈ L → agree k s s') → R.rely L s s')
    (hpost : ∀ a F L W, post a F L W → R.Commits F L W)
    (h : Sound R post sys) {id : ℕ} {th : Thread T κ σ ω ε τ ρ} {a : ρ}
    (hget : sys.threads.get? id = some th) (hret : th.rest = .ret a) :
    Sound R post { sys with
      committed := writeAll sys.committed th.writes
      threads := sys.threads.erase id } := by
  obtain ⟨F, hF, -, hruns⟩ := h.threads id th hget
  rw [hret] at hruns
  obtain ⟨hguard, hcommit⟩ := hpost a F th.locks th.writes hruns
  obtain ⟨hinv, hguar⟩ := hcommit sys.committed h.inv hF
  have hrest := h.erase id
  refine ⟨hinv, fun j thj hj => ?_, hrest.compatible⟩
  obtain ⟨G, hG, hst, hnext⟩ := hrest.threads j thj hj
  refine ⟨G, ?_, hst, hnext⟩
  refine hst _ _ h.inv hinv hG (hrely _ _ _ hguar fun k m hkm => ?_)
  -- the other transaction holds `k`, so none of the committed writes is guarded by it
  refine agree_writeAll hrefl htrans hwrite (fun w hw hwk => ?_) _
  have hj' : sys.threads.get? j = some thj ∧ id ≠ j := by
    rw [SortedMap.get?_erase] at hj
    split at hj
    · cases hj
    · rename_i hne
      exact ⟨hj, fun e => hne (by omega)⟩
  have := h.compatible id j th thj hj'.2 hget hj'.1 k _ m (hwk ▸ hguard w hw) hkm
  cases this.1

variable [DecidableEq κ]

/-- One statement: the outline gives the fact to go on with. -/
theorem Sound.runStatement (h : Sound R post sys) {id : ℕ} {th : Thread T κ σ ω ε τ ρ}
    (hget : sys.threads.get? id = some th)
    (hmeets : sys.Meets R.condition (.statement id : Action T ι))
    {sys' : System T κ σ ω ε τ ρ} (hstep : sys.runStatement id th = some sys') :
    Sound R post sys' := by
  obtain ⟨F, hF, -, hruns⟩ := h.threads id th hget
  have hcond := hmeets th hget
  unfold System.runStatement at hstep
  obtain ⟨now, L, W, rest⟩ := th
  cases rest with
  | ret a => cases hstep
  | fail e => cases hstep
  | exec st next =>
    simp only at hstep hcond hF hruns
    split at hstep
    · obtain rfl := Option.some.inj hstep
      exact h.erase id
    · rename_i eff he
      split at hstep
      · cases hstep
      rename_i hfree
      obtain rfl := Option.some.inj hstep
      obtain ⟨F', hF', hst, hnext⟩ := hruns now _ _ h.inv hF hcond eff he
      refine h.insert ⟨F', hF', hst, hnext⟩ ?_
      -- the locks already held were compatible, and the new ones passed the conflict test
      intro j thj hne hj k m m' hm hm'
      rcases List.mem_append.mp hm with hm | hm
      · exact h.compatible id j _ thj hne.symm hget hj k m m' hm hm'
      · have hnc : sys.conflicts id k m = false := by
          by_contra hc
          exact hfree (List.any_eq_true.mpr ⟨(k, m), hm, by simpa using hc⟩)
        exact conflicts_eq_false hnc hj hne hm'

variable [LE T] [DecidableLE T] {body : ι → Program T κ σ ω ε τ ρ}

omit [DecidableEq κ] [LE T] [DecidableLE T] in
/-- Before the first transaction starts there is nothing to outline. -/
theorem Sound.start {s : σ} (hs : R.inv s) (clock : T) :
    Sound R post (⟨s, clock, ∅⟩ : System T κ σ ω ε τ ρ) :=
  ⟨hs, fun _ _ h => (by cases h), fun _ _ _ _ _ h => (by cases h)⟩

variable (agree) in
/-- **Soundness of the outlines.** If every program has an outline, then in every state that the
    interleaved system reaches the invariant holds, and every transaction in progress has an outline
    of its rest. -/
theorem Reachable.sound (hrefl : ∀ k s, agree k s s)
    (htrans : ∀ k s s' s'', agree k s s' → agree k s' s'' → agree k s s'')
    (hwrite : ∀ k s w, R.guard w ≠ k → agree k s (Store.write s w))
    (hrely : ∀ L s s', R.guarantee s s' → (∀ k m, (k, m) ∈ L → agree k s s') → R.rely L s s')
    (hpost : ∀ a F L W, post a F L W → R.Commits F L W)
    (hbody : ∀ c, (body c).Runs R post (fun _ => True) [] [])
    {start : System T κ σ ω ε τ ρ} (hstart : Sound R post start) {sys : System T κ σ ω ε τ ρ}
    (h : Reachable body R.condition start sys) : Sound R post sys := by
  -- By induction on the run: a step starts, advances or ends one thread and leaves the others.
  induction h with
  | refl => exact hstart
  | @step sys sys' a _ hmeets hstep ih =>
    cases a with
    | tick t =>
      simp only [System.step?] at hstep
      split at hstep
      · obtain rfl := Option.some.inj hstep
        exact ⟨ih.inv, ih.threads, ih.compatible⟩
      · cases hstep
    | start id call =>
      simp only [System.step?] at hstep
      split at hstep
      · cases hstep
      obtain rfl := Option.some.inj hstep
      -- A thread that starts holds no locks and assumes nothing.
      refine ih.insert ⟨fun _ => True, trivial, fun _ _ _ _ _ _ => trivial, hbody call⟩ ?_
      intro j thj _ _ k m m' hm
      cases hm
    | statement id =>
      obtain ⟨th, hget, hrun⟩ := Option.bind_eq_some_iff.mp hstep
      exact ih.runStatement hget hmeets hrun
    | commit id =>
      obtain ⟨th, hget, hrun⟩ := Option.bind_eq_some_iff.mp hstep
      split at hrun
      · rename_i a hret
        obtain rfl := Option.some.inj hrun
        exact ih.commit hrefl htrans hwrite hrely hpost hget hret
      · cases hrun
    | abort id =>
      simp only [System.step?] at hstep
      split at hstep
      · obtain rfl := Option.some.inj hstep
        exact ih.erase id
      · cases hstep

end Soundness

end System

/-! ### Failures -/

namespace Program

variable [Store σ ω]

/-- Every failure of a program, with the writes queued so far, meets `fails` in the committed state
    in which it happens. -/
def Fails (fails : ε → σ → Prop) (W : List ω) : Program T κ σ ω ε τ α → Prop
  | .ret _ => True
  | .fail e => ∀ s, fails e s
  | .exec st next => ∀ now locked s,
      (∀ e, st.exec now locked (writeAll s W) = .error e → fails e s) ∧
        ∀ eff, st.exec now locked (writeAll s W) = .ok eff →
          Fails fails (W ++ eff.writes) (next eff.value)

/-- Nothing is said of an error. -/
theorem fails_true (p : Program T κ σ ω ε τ α) (W : List ω) : p.Fails (fun _ _ => True) W := by
  induction p generalizing W with
  | ret a => trivial
  | fail e => exact fun _ => trivial
  | exec st next ih => exact fun _ _ _ => ⟨fun _ _ => trivial, fun eff _ => ih eff.value _⟩

theorem Fails.mapBoth {δ : Type} {f : ε → δ} {g : α → β} {fails : δ → σ → Prop} {W : List ω}
    {p : Program T κ σ ω ε τ α} (h : p.Fails (fun e => fails (f e)) W) :
    (p.mapBoth f g).Fails fails W := by
  induction p generalizing W with
  | ret a => trivial
  | fail e => exact h
  | exec st next ih =>
    intro now locked s
    obtain ⟨herror, hok⟩ := h now locked s
    refine ⟨fun d hd => ?_, fun eff he => ih eff.value (hok eff (mapError_eq_ok.mp he))⟩
    simp only at hd
    cases hexec : st.exec now locked (writeAll s W) with
    | ok eff =>
      rw [hexec] at hd
      cases hd
    | error e =>
      rw [hexec] at hd
      obtain rfl := Except.error.inj hd
      exact herror e hexec

end Program

namespace System

variable [Store σ ω] [DecidableEq κ] [LE T] [DecidableLE T] {body : ι → Program T κ σ ω ε τ ρ}

/-- What a turn reports to the client of a transaction: the error that ends it, or its result when it
    commits. -/
def report? (sys : System T κ σ ω ε τ ρ) : Action T ι → Option (Except ε ρ)
  | .statement id => (sys.threads.get? id).bind fun th =>
      match th.rest with
      | .exec st _ =>
        match st.exec th.now (fun k => sys.conflicts id k .exclusive)
            (writeAll sys.committed th.writes) with
        | .error e => some (.error e)
        | .ok _ => none
      | _ => none
  | .abort id => (sys.threads.get? id).bind fun th =>
      match th.rest with
      | .fail e => some (.error e)
      | _ => none
  | .commit id => (sys.threads.get? id).bind fun th =>
      match th.rest with
      | .ret a => some (.ok a)
      | _ => none
  | _ => none

omit [LE T] [DecidableLE T] in
/-- A success is reported by a commit of a finished program. -/
theorem report?_ok {sys : System T κ σ ω ε τ ρ} {a : Action T ι} {r : ρ}
    (h : sys.report? a = some (.ok r)) :
    ∃ id th, a = .commit id ∧ sys.threads.get? id = some th ∧ th.rest = .ret r := by
  -- Only a commit reports a result.
  cases a with
  | tick t => cases h
  | start id call => cases h
  | statement id =>
    obtain ⟨th, -, h⟩ := Option.bind_eq_some_iff.mp h
    split at h
    · split at h <;> simp at h
    · cases h
  | abort id =>
    obtain ⟨th, -, h⟩ := Option.bind_eq_some_iff.mp h
    split at h <;> simp at h
  | commit id =>
    obtain ⟨th, hget, h⟩ := Option.bind_eq_some_iff.mp h
    split at h
    · rename_i r' hret
      obtain rfl : r' = r := by simpa using h
      exact ⟨id, th, rfl, hget, hret⟩
    · cases h

/-- Only a transaction that reports its result changes the committed state. -/
theorem committed_of_step? {sys sys' : System T κ σ ω ε τ ρ} {a : Action T ι}
    (hstep : sys.step? body a = some sys') :
    sys'.committed = sys.committed ∨ ∃ r, sys.report? a = some (.ok r) := by
  -- Only a commit writes to the committed store.
  cases a with
  | tick t =>
    simp only [step?] at hstep
    split at hstep
    · exact .inl (Option.some.inj hstep ▸ rfl)
    · cases hstep
  | start id call =>
    simp only [step?] at hstep
    split at hstep
    · cases hstep
    · exact .inl (Option.some.inj hstep ▸ rfl)
  | statement id =>
    obtain ⟨th, -, hrun⟩ := Option.bind_eq_some_iff.mp hstep
    unfold runStatement at hrun
    split at hrun
    swap
    · cases hrun
    split at hrun
    · exact .inl (Option.some.inj hrun ▸ rfl)
    · split at hrun
      · cases hrun
      · exact .inl (Option.some.inj hrun ▸ rfl)
  | commit id =>
    obtain ⟨th, hget, hrun⟩ := Option.bind_eq_some_iff.mp hstep
    split at hrun
    · rename_i r hret
      refine .inr ⟨r, ?_⟩
      simp only [report?, hget, Option.bind_some, hret]
    · cases hrun
  | abort id =>
    simp only [step?] at hstep
    split at hstep
    · exact .inl (Option.some.inj hstep ▸ rfl)
    · cases hstep

variable (body) in
/-- A transaction that reports its result commits what its outline says. -/
theorem Sound.report_ok {R : Rules κ σ ω τ} {post : Post κ σ ω ρ} {sys : System T κ σ ω ε τ ρ}
    (h : Sound R post sys) {a : Action T ι} {r : ρ} (hreport : sys.report? a = some (.ok r)) :
    ∃ F L W, F sys.committed ∧ post r F L W ∧
      ∀ sys', sys.step? body a = some sys' → sys'.committed = writeAll sys.committed W := by
  obtain ⟨id, th, rfl, hget, hret⟩ := report?_ok hreport
  obtain ⟨F, hF, -, hruns⟩ := h.threads id th hget
  rw [hret] at hruns
  refine ⟨F, th.locks, th.writes, hF, hruns, fun sys' hstep => ?_⟩
  simp only [step?, hget, Option.bind_some, hret] at hstep
  exact Option.some.inj hstep ▸ rfl

/-- In a reachable state every transaction in progress fails only as its program does. -/
theorem Reachable.fails {fails : ε → σ → Prop} (hbody : ∀ c, (body c).Fails fails [])
    {condition : τ → σ → Prop} {start sys : System T κ σ ω ε τ ρ} (hstart : start.threads = ∅)
    (h : Reachable body condition start sys) {id : ℕ} {th : Thread T κ σ ω ε τ ρ}
    (hget : sys.threads.get? id = some th) : th.rest.Fails fails th.writes := by
  -- By induction on the run, following the thread from its start.
  induction h generalizing id th with
  | refl =>
    rw [hstart] at hget
    cases hget
  | @step sys sys' a _ _ hstep ih =>
    cases a with
    | tick t =>
      simp only [System.step?] at hstep
      split at hstep
      · obtain rfl := Option.some.inj hstep
        exact ih hget
      · cases hstep
    | start id' call =>
      simp only [System.step?] at hstep
      split at hstep
      · cases hstep
      obtain rfl := Option.some.inj hstep
      rw [SortedMap.get?_insert] at hget
      split at hget
      · obtain rfl := Option.some.inj hget
        exact hbody call
      · exact ih hget
    | statement id' =>
      obtain ⟨th', hget', hrun⟩ := Option.bind_eq_some_iff.mp hstep
      have hfails := ih hget'
      unfold System.runStatement at hrun
      split at hrun
      swap
      · cases hrun
      rename_i _ st next hrest
      rw [hrest] at hfails
      split at hrun
      · obtain rfl := Option.some.inj hrun
        rw [SortedMap.get?_erase] at hget
        split at hget
        · cases hget
        · exact ih hget
      -- The thread went on, so the condition is handed to what is left of it.
      · rename_i eff he
        split at hrun
        · cases hrun
        obtain rfl := Option.some.inj hrun
        rw [SortedMap.get?_insert] at hget
        split at hget
        · obtain rfl := Option.some.inj hget
          exact (hfails _ _ _).2 eff he
        · exact ih hget
    | commit id' =>
      obtain ⟨th', _, hrun⟩ := Option.bind_eq_some_iff.mp hstep
      split at hrun
      · obtain rfl := Option.some.inj hrun
        rw [SortedMap.get?_erase] at hget
        split at hget
        · cases hget
        · exact ih hget
      · cases hrun
    | abort id' =>
      simp only [System.step?] at hstep
      split at hstep
      · obtain rfl := Option.some.inj hstep
        rw [SortedMap.get?_erase] at hget
        split at hget
        · cases hget
        · exact ih hget
      · cases hstep

/-- The errors that are reported meet `fails` in the state in which they are. -/
theorem Reachable.report_error {fails : ε → σ → Prop} (hbody : ∀ c, (body c).Fails fails [])
    {condition : τ → σ → Prop} {start sys : System T κ σ ω ε τ ρ} (hstart : start.threads = ∅)
    (h : Reachable body condition start sys) {a : Action T ι} {e : ε}
    (hreport : sys.report? a = some (.error e)) : fails e sys.committed := by
  -- Errors are reported by the statement that fails or when the thread is given up.
  cases a with
  | tick t => cases hreport
  | start id call => cases hreport
  | statement id =>
    obtain ⟨th, hget, hreport⟩ := Option.bind_eq_some_iff.mp hreport
    have hfails := h.fails hbody hstart hget
    split at hreport
    · rename_i _ st next hrest
      rw [hrest] at hfails
      split at hreport
      · rename_i e' he
        obtain rfl : e' = e := by simpa using hreport
        exact (hfails _ _ _).1 e' he
      · cases hreport
    · cases hreport
  | abort id =>
    obtain ⟨th, hget, hreport⟩ := Option.bind_eq_some_iff.mp hreport
    have hfails := h.fails hbody hstart hget
    split at hreport
    · rename_i e' hrest
      rw [hrest] at hfails
      obtain rfl : e' = e := by simpa using hreport
      exact hfails _
    · cases hreport
  | commit id =>
    obtain ⟨th, -, hreport⟩ := Option.bind_eq_some_iff.mp hreport
    split at hreport <;> simp at hreport

end System

end Lib
