import Ficant.Lib.Grid
import Ficant.Replay.Calibration

namespace Ficant

open Lib

/-!
# The calibration grid and the choice

`ParameterGrid::candidates` builds the product of the axes by overwriting insertion, one axis after
the other, and `best_training_candidate` is a fold that keeps the earlier of two equal objectives
(`ficant-domain/src/replay/calibration.rs`).

* `candidates_eq_map` — the candidates are the overlays of the index vectors in lexicographic order;
* `mem_candidates_iff` — which maps they are;
* `bestTrainingCandidate_spec` — the fold finds the first maximum;
* `calibration_complete` — both together, for a whole calibration.
-/

namespace ParameterGrid

/-- `ParameterGrid::new`. -/
def new (axes : SortedMap String (List Decimal)) : Except DomainErrorCode ParameterGrid :=
  if h : (gridCombinations axes.entries 1).isSome ∧ axes.entries ≠ [] then .ok ⟨axes, h⟩
  else .error .invalidValue

/-! ### Sizes -/

/-- The number of values of each axis, in the order of the names. -/
def sizes (grid : ParameterGrid) : List ℕ := grid.axes.entries.map fun axis => axis.2.length

theorem gridCombinations_eq_some {axes : List (String × List Decimal)} {start count : ℕ}
    (h : gridCombinations axes start = some count) :
    count = start * (axes.map fun axis => axis.2.length).prod ∧
      (∀ axis ∈ axes, axis.2 ≠ [] ∧ axis.2.Nodup) ∧
      (axes ≠ [] → count ≤ maxCalibrationCandidates) := by
  induction axes generalizing start with
  | nil =>
    obtain rfl := Option.some.inj h
    exact ⟨by simp, by simp, by simp⟩
  | cons axis axes ih =>
    obtain ⟨name, values⟩ := axis
    rw [gridCombinations] at h
    split at h
    · cases h
    rename_i haxis
    split at h
    · rename_i hle
      obtain ⟨hcount, hall, hbound⟩ := ih h
      refine ⟨by rw [hcount, List.map_cons, List.prod_cons, mul_assoc], ?_, fun _ => ?_⟩
      · intro axis haxis'
        rcases List.mem_cons.mp haxis' with rfl | haxis'
        · exact ⟨fun hempty => haxis (Or.inr (Or.inl hempty)),
            not_not.mp fun hnodup => haxis (Or.inr (Or.inr hnodup))⟩
        · exact hall axis haxis'
      -- The bound is tested after every axis, so the last test is on the whole product.
      · by_cases hlast : axes = []
        · subst hlast
          rw [hcount]
          simpa using hle
        · exact hbound hlast
    · cases h

/-- The axes of a grid: not empty, without repetitions, and few enough together. -/
theorem axes_checked (grid : ParameterGrid) :
    (∀ axis ∈ grid.axes.entries, axis.2 ≠ [] ∧ axis.2.Nodup) ∧
      1 ≤ grid.sizes.prod ∧ grid.sizes.prod ≤ maxCalibrationCandidates := by
  obtain ⟨count, hcount⟩ := Option.isSome_iff_exists.mp grid.checked.1
  obtain ⟨rfl, hall, hbound⟩ := gridCombinations_eq_some hcount
  rw [one_mul] at hbound
  refine ⟨hall, ?_, hbound grid.checked.2⟩
  apply Nat.one_le_iff_ne_zero.mpr
  apply List.prod_ne_zero
  intro hzero
  obtain ⟨axis, haxis, hlength⟩ := List.mem_map.mp hzero
  exact (hall axis haxis).1 (List.length_eq_zero_iff.mp hlength)

/-! ### Overlays -/

/-- A parameter map overlaid with the values of the axes at the given indices. -/
def overlay (axes : List (String × List Decimal)) (indices : List ℕ)
    (base : SortedMap String Decimal) : SortedMap String Decimal :=
  extendAt Prod.snd (fun candidate axis value => candidate.insert axis.1 value) axes indices base

/-- **Grid order.** The candidates are the overlays of the index vectors, in lexicographic order. -/
theorem candidates_eq_map (grid : ParameterGrid) (base : SortedMap String Decimal) :
    grid.candidates base =
      (gridIndices grid.sizes).map fun indices => overlay grid.axes.entries indices base := by
  have h := foldl_flatMap_eq Prod.snd
    (fun (candidate : SortedMap String Decimal) (axis : String × List Decimal) value =>
      candidate.insert axis.1 value) grid.axes.entries [base]
  rw [List.flatMap_cons, List.flatMap_nil, List.append_nil] at h
  exact h

theorem get?_overlay_of_not_mem {axes : List (String × List Decimal)} {name : String}
    (h : name ∉ axes.map Prod.fst) (indices : List ℕ) (base : SortedMap String Decimal) :
    (overlay axes indices base).get? name = base.get? name := by
  induction axes generalizing indices base with
  | nil => rfl
  | cons axis axes ih =>
    rw [List.map_cons, List.mem_cons, not_or] at h
    cases indices with
    | nil => rfl
    | cons i indices =>
      show (overlay axes indices (base.insert axis.1 _)).get? name = _
      rw [ih h.2, SortedMap.get?_insert, if_neg h.1]

/-- An overlay holds one of the values of each axis. -/
theorem get?_overlay_of_mem {axes : List (String × List Decimal)} {indices : List ℕ}
    (hnames : (axes.map Prod.fst).Nodup)
    (hindices : List.Forall₂ (· < ·) indices (axes.map fun axis => axis.2.length))
    {axis : String × List Decimal} (haxis : axis ∈ axes) (base : SortedMap String Decimal) :
    ∃ value ∈ axis.2, (overlay axes indices base).get? axis.1 = some value := by
  induction axes generalizing indices base with
  | nil => cases haxis
  | cons first axes ih =>
    rw [List.map_cons, List.nodup_cons] at hnames
    rw [List.map_cons, List.forall₂_cons_right_iff] at hindices
    obtain ⟨i, indices, hi, hindices, rfl⟩ := hindices
    rcases List.mem_cons.mp haxis with rfl | haxis
    · refine ⟨axis.2.getD i default, ?_, ?_⟩
      · rw [List.getD_eq_getElem _ _ hi]
        exact List.getElem_mem hi
      · show (overlay axes indices (base.insert axis.1 _)).get? axis.1 = _
        rw [get?_overlay_of_not_mem hnames.1, SortedMap.get?_insert_self]
    · exact ih hnames.2 hindices haxis _

/-- Different indices give different overlays, whatever the maps below. -/
theorem overlay_injective {axes : List (String × List Decimal)} {indices indices' : List ℕ}
    (hnames : (axes.map Prod.fst).Nodup) (hvalues : ∀ axis ∈ axes, axis.2.Nodup)
    (hindices : List.Forall₂ (· < ·) indices (axes.map fun axis => axis.2.length))
    (hindices' : List.Forall₂ (· < ·) indices' (axes.map fun axis => axis.2.length))
    {base base' : SortedMap String Decimal}
    (h : overlay axes indices base = overlay axes indices' base') : indices = indices' := by
  induction axes generalizing indices indices' base base' with
  | nil =>
    rw [List.map_nil, List.forall₂_nil_right_iff] at hindices hindices'
    rw [hindices, hindices']
  | cons axis axes ih =>
    rw [List.map_cons, List.nodup_cons] at hnames
    rw [List.map_cons, List.forall₂_cons_right_iff] at hindices hindices'
    obtain ⟨i, indices, hi, hindices, rfl⟩ := hindices
    obtain ⟨j, indices', hj, hindices', rfl⟩ := hindices'
    -- The later axes do not touch the value of the first one.
    have hvalue : axis.2.getD i default = axis.2.getD j default := by
      have hget := congrArg (fun m => m.get? axis.1) h
      change (overlay axes indices (base.insert axis.1 _)).get? axis.1 =
        (overlay axes indices' (base'.insert axis.1 _)).get? axis.1 at hget
      rw [get?_overlay_of_not_mem hnames.1, get?_overlay_of_not_mem hnames.1,
        SortedMap.get?_insert_self, SortedMap.get?_insert_self] at hget
      exact Option.some.inj hget
    rw [List.getD_eq_getElem _ _ hi, List.getD_eq_getElem _ _ hj] at hvalue
    have hij : i = j := (hvalues axis List.mem_cons_self).getElem_inj_iff.mp hvalue
    rw [hij, ih hnames.2 (fun axis haxis => hvalues axis (List.mem_cons_of_mem _ haxis)) hindices
      hindices' h]

theorem names_nodup (grid : ParameterGrid) : (grid.axes.entries.map Prod.fst).Nodup :=
  grid.axes.keys_sorted.imp fun h => ne_of_lt h

/-- Each candidate is listed once. -/
theorem candidates_nodup (grid : ParameterGrid) (base : SortedMap String Decimal) :
    (grid.candidates base).Nodup := by
  rw [candidates_eq_map, List.nodup_map_iff_inj_on (nodup_gridIndices _)]
  intro indices hindices indices' hindices' h
  exact overlay_injective grid.names_nodup (fun axis haxis => (grid.axes_checked.1 axis haxis).2)
    (mem_gridIndices.mp hindices) (mem_gridIndices.mp hindices') h

/-- The indices of one value for each axis. -/
theorem exists_indices {axes : List (String × List Decimal)} {choice : String → Decimal}
    (h : ∀ axis ∈ axes, choice axis.1 ∈ axis.2) (hnames : (axes.map Prod.fst).Nodup)
    (base : SortedMap String Decimal) :
    ∃ indices, List.Forall₂ (· < ·) indices (axes.map fun axis => axis.2.length) ∧
      ∀ name, (overlay axes indices base).get? name =
        if name ∈ axes.map Prod.fst then some (choice name) else base.get? name := by
  induction axes generalizing base with
  | nil => exact ⟨[], .nil, fun name => by simp [overlay, extendAt]⟩
  | cons axis axes ih =>
    rw [List.map_cons, List.nodup_cons] at hnames
    obtain ⟨i, hi, hvalue⟩ := List.mem_iff_getElem.mp (h axis List.mem_cons_self)
    obtain ⟨indices, hindices, hget⟩ := ih
      (fun axis haxis => h axis (List.mem_cons_of_mem _ haxis)) hnames.2
      (base.insert axis.1 (axis.2.getD i default))
    refine ⟨i :: indices, .cons hi hindices, fun name => ?_⟩
    show (overlay axes indices (base.insert axis.1 (axis.2.getD i default))).get? name = _
    rw [hget name, List.map_cons, List.getD_eq_getElem _ _ hi, hvalue]
    by_cases hmem : name ∈ axes.map Prod.fst
    · rw [if_pos hmem, if_pos (List.mem_cons_of_mem _ hmem)]
    · rw [if_neg hmem, SortedMap.get?_insert]
      by_cases hname : name = axis.1
      · rw [if_pos hname, if_pos (hname ▸ List.mem_cons_self), hname]
      · rw [if_neg hname, if_neg (by simp [hname, hmem])]

/-- **Complete.** The candidates are the maps that take one value of each axis and are the base map
    elsewhere. -/
theorem mem_candidates_iff (grid : ParameterGrid) (base candidate : SortedMap String Decimal) :
    candidate ∈ grid.candidates base ↔
      ∃ choice : String → Decimal, (∀ axis ∈ grid.axes.entries, choice axis.1 ∈ axis.2) ∧
        ∀ name, candidate.get? name =
          if name ∈ grid.axes.keys then some (choice name) else base.get? name := by
  rw [candidates_eq_map, List.mem_map]
  constructor
  · rintro ⟨indices, hindices, rfl⟩
    have hat : ∀ axis ∈ grid.axes.entries, ∃ value ∈ axis.2,
        (overlay grid.axes.entries indices base).get? axis.1 = some value := fun _ haxis =>
      get?_overlay_of_mem grid.names_nodup (mem_gridIndices.mp hindices) haxis base
    -- The choice is read off the candidate.
    refine ⟨fun name => ((overlay grid.axes.entries indices base).get? name).getD default, ?_, ?_⟩
    · intro axis haxis
      obtain ⟨value, hvalue, hget⟩ := hat axis haxis
      simp only [hget]
      exact hvalue
    · intro name
      by_cases hname : name ∈ grid.axes.keys
      · obtain ⟨axis, haxis, rfl⟩ := List.mem_map.mp hname
        obtain ⟨value, -, hget⟩ := hat axis haxis
        simp only [if_pos hname, hget]
        rfl
      · rw [if_neg hname]
        exact get?_overlay_of_not_mem hname indices base
  · rintro ⟨choice, hchoice, hget⟩
    obtain ⟨indices, hindices, hoverlay⟩ := exists_indices hchoice grid.names_nodup base
    refine ⟨indices, mem_gridIndices.mpr hindices, SortedMap.ext_get? fun name => ?_⟩
    rw [hoverlay name, hget name]
    rfl

end ParameterGrid

/-! ### The choice -/

/-- One step of the fold of `best_training_candidate`. -/
def keepBest (best : Option (ℕ × Decimal)) (entry : CandidateResult × ℕ) : Option (ℕ × Decimal) :=
  match best with
  | some (_, value) =>
    if value ≥ entry.1.training.objective then best
    else some (entry.2, entry.1.training.objective)
  | none => some (entry.2, entry.1.training.objective)

/-- The first of the candidates with the best objective, with that objective. -/
def IsFirstBest (candidates : List CandidateResult) : Option (ℕ × Decimal) → Prop
  | none => candidates = []
  | some (i, value) =>
    (candidates[i]?.map fun c => c.training.objective) = some value ∧
      (∀ c ∈ candidates, c.training.objective ≤ value) ∧
      ∀ j c, j < i → candidates[j]? = some c → c.training.objective < value

/-- One more candidate replaces the best one only if it is better. -/
theorem IsFirstBest.step {candidates : List CandidateResult} {best : Option (ℕ × Decimal)}
    (h : IsFirstBest candidates best) (last : CandidateResult) :
    IsFirstBest (candidates ++ [last]) (keepBest best (last, candidates.length)) := by
  -- A candidate better than all before is the first best one.
  have hnew : (∀ c ∈ candidates, c.training.objective < last.training.objective) →
      IsFirstBest (candidates ++ [last])
        (some (candidates.length, last.training.objective)) := by
    intro hall
    refine ⟨by simp, ?_, ?_⟩
    · intro c hc
      rcases List.mem_append.mp hc with hc | hc
      · exact (hall c hc).le
      · rw [List.mem_singleton.mp hc]
    · intro j c hj hc
      rw [List.getElem?_append_left hj] at hc
      exact hall c (List.mem_of_getElem? hc)
  match best, h with
  | none, h =>
    obtain rfl : candidates = [] := h
    exact hnew (by simp)
  | some (i, value), ⟨hat, hmax, hfirst⟩ =>
    obtain ⟨candidate, hcandidate, hvalue⟩ := Option.map_eq_some_iff.mp hat
    have hi : i < candidates.length := (List.getElem?_eq_some_iff.mp hcandidate).1
    show IsFirstBest _ (if value ≥ last.training.objective then some (i, value) else _)
    split
    · rename_i hge
      refine ⟨?_, ?_, ?_⟩
      · rw [List.getElem?_append_left hi]
        exact hat
      · intro c hc
        rcases List.mem_append.mp hc with hc | hc
        · exact hmax c hc
        · rw [List.mem_singleton.mp hc]
          exact hge
      · intro j c hj hc
        rw [List.getElem?_append_left (hj.trans hi)] at hc
        exact hfirst j c hj hc
    · rename_i hlt
      exact hnew fun c hc => lt_of_le_of_lt (hmax c hc) (not_le.mp hlt)

/-- **First maximum.** The selected candidate is the first of those with the highest objective. -/
theorem bestTrainingCandidate_spec {candidates : List CandidateResult} {selected : ℕ}
    (h : bestTrainingCandidate candidates = some selected) :
    ∃ candidate, candidates[selected]? = some candidate ∧
      (∀ c ∈ candidates, c.training.objective ≤ candidate.training.objective) ∧
      ∀ j c, j < selected → candidates[j]? = some c →
        c.training.objective < candidate.training.objective := by
  have hfold : IsFirstBest candidates (candidates.zipIdx.foldl keepBest none) := by
    clear h
    induction candidates using List.reverseRecOn with
    | nil => rfl
    | append_singleton candidates last ih =>
      rw [List.zipIdx_append, List.foldl_append, Nat.zero_add]
      exact ih.step last
  obtain ⟨⟨i, value⟩, hbest, rfl⟩ := Option.map_eq_some_iff.mp h
  rw [show candidates.zipIdx.foldl keepBest none = some (i, value) from hbest] at hfold
  obtain ⟨hat, hmax, hfirst⟩ := hfold
  obtain ⟨candidate, hcandidate, rfl⟩ := Option.map_eq_some_iff.mp hat
  exact ⟨candidate, hcandidate, hmax, hfirst⟩

/-- A candidate is replayed with its own parameters. -/
theorem parameters_of_replayCandidate [DecimalArithmetic] {digest : List UInt8 → ContentHash}
    {request : CalibrationRequest} {objective : CalibrationObjective}
    {parameters : SortedMap String Decimal} {result : CandidateResult}
    (h : replayCandidate digest request objective parameters = .ok result) :
    result.parameters = parameters := by
  obtain ⟨training, -, h⟩ := bind_eq_ok.mp h
  obtain ⟨validation, -, h⟩ := bind_eq_ok.mp h
  obtain rfl := Except.ok.inj h
  rfl

/-- **The grid is complete and the choice is the first best one.** The candidates of an accepted
    grid are the overlays of the index vectors in lexicographic order (axes by name, values as given,
    last axis fastest): each map that takes one value of each axis and the base map elsewhere, once.
    There are as many as the product of the sizes, between 1 and 1024.  A calibration that succeeds
    publishes the parameters of the first candidate with the highest training objective. -/
theorem calibration_complete [DecimalArithmetic] :
    (∀ (axes : SortedMap String (List Decimal)) (grid : ParameterGrid)
      (base : SortedMap String Decimal), ParameterGrid.new axes = .ok grid →
      grid.candidates base = (gridIndices (axes.entries.map fun axis => axis.2.length)).map
        (fun indices => ParameterGrid.overlay axes.entries indices base) ∧
      (gridIndices (axes.entries.map fun axis => axis.2.length)).Pairwise (List.Lex (· < ·)) ∧
      (∀ candidate, candidate ∈ grid.candidates base ↔
        ∃ choice : String → Decimal, (∀ axis ∈ axes.entries, choice axis.1 ∈ axis.2) ∧
          ∀ name, candidate.get? name =
            if name ∈ axes.keys then some (choice name) else base.get? name) ∧
      (grid.candidates base).Nodup ∧
      (grid.candidates base).length = (axes.entries.map fun axis => axis.2.length).prod ∧
      1 ≤ (grid.candidates base).length ∧
      (grid.candidates base).length ≤ maxCalibrationCandidates) ∧
    (∀ (digest : List UInt8 → ContentHash) (request : CalibrationRequest)
      (artifact : PolicyArtifact), calibratePolicy digest request = .ok artifact →
      ∃ (objective : CalibrationObjective) (results : List CandidateResult) (selected : ℕ)
        (best : CandidateResult), CalibrationObjective.fromCode request.objective = some objective ∧
        List.Forall₂ (fun parameters result =>
          replayCandidate digest request objective parameters = .ok result)
          (request.grid.candidates request.replay.policy.input.parameters) results ∧
        results[selected]? = some best ∧
        (request.grid.candidates request.replay.policy.input.parameters)[selected]? =
          some artifact.input.parameters ∧
        (∀ result ∈ results, result.training.objective ≤ best.training.objective) ∧
        ∀ (j : ℕ) (result : CandidateResult), j < selected → results[j]? = some result →
          result.training.objective < best.training.objective) := by
  constructor
  · intro axes grid base hnew
    obtain rfl : grid.axes = axes := by
      unfold ParameterGrid.new at hnew
      split at hnew
      · obtain rfl := Except.ok.inj hnew
        rfl
      · cases hnew
    obtain ⟨-, hpos, hbound⟩ := grid.axes_checked
    have hlength : (grid.candidates base).length = grid.sizes.prod := by
      rw [ParameterGrid.candidates_eq_map, List.length_map, length_gridIndices]
    exact ⟨grid.candidates_eq_map base, pairwise_gridIndices _, grid.mem_candidates_iff base,
      grid.candidates_nodup base, hlength, hlength ▸ hpos, hlength ▸ hbound⟩
  · intro digest request artifact h
    obtain ⟨objective, results, selected, candidate, _, hobjective, hresults, hbest,
      hcandidate, -, -, -, hparameters⟩ := calibratePolicy_ok h
    -- The fold keeps the first of the best candidates.
    obtain ⟨best, hat, hmax, hfirst⟩ := bestTrainingCandidate_spec hbest
    obtain rfl : candidate = best := Option.some.inj (hcandidate.symm.trans hat)
    refine ⟨objective, results, selected, candidate, hobjective, hresults, hat, ?_, hmax, hfirst⟩
    obtain ⟨hlt, hget⟩ := List.getElem?_eq_some_iff.mp hat
    have hlt' := hresults.length_eq ▸ hlt
    have hreplay := hresults.get hlt' hlt
    rw [List.get_eq_getElem, List.get_eq_getElem, hget] at hreplay
    rw [List.getElem?_eq_getElem hlt', hparameters, parameters_of_replayCandidate hreplay]

open RoundedDecimals

/-- Two axes of two values make four candidates, and the small calibration has a first best one. -/
theorem calibration_complete_samples :
    (∃ grid, ParameterGrid.new (.ofList [("a", [1, 2]), ("b", [3, 4])]) = .ok grid ∧
      (grid.candidates (.ofList [("a", 9), ("c", 7)])).length = 4) ∧
    ∃ artifact, calibratePolicy SmallMarket.digest (SmallMarket.calibration.over
        (SmallMarket.snapshot (SmallMarket.calibrationBars 10 2 SmallMarket.calibrationBar_valid))) =
          .ok artifact ∧
      artifact.input.parameters ∈ SmallMarket.calibration.grid.candidates
        SmallMarket.calibration.replay.policy.input.parameters := by
  constructor
  · have hnew : ParameterGrid.new (.ofList [("a", [1, 2]), ("b", [3, 4])]) =
        .ok ⟨.ofList [("a", [1, 2]), ("b", [3, 4])], by decide +kernel⟩ :=
      dif_pos (by decide +kernel)
    obtain ⟨-, -, -, -, hlength, -⟩ :=
      calibration_complete.1 _ _ (.ofList [("a", 9), ("c", 7)]) hnew
    exact ⟨_, hnew, hlength.trans (by decide +kernel)⟩
  · obtain ⟨artifact, hrun, -⟩ := exists_ok_of_any
      (x := calibratePolicy SmallMarket.digest (SmallMarket.calibration.over
        (SmallMarket.snapshot (SmallMarket.calibrationBars 10 2 SmallMarket.calibrationBar_valid))))
      (p := fun _ => true) (by decide +kernel)
    obtain ⟨_, _, _, _, -, -, -, hat, -⟩ := calibration_complete.2 _ _ _ hrun
    exact ⟨artifact, hrun, List.mem_of_getElem? hat⟩

end Ficant
