import Ficant.Lib.DecimalGrid
import Ficant.Replay.Ledger

namespace Ficant

open Lib RustDecimal

/-!
# The largest size a check lets through

`check_execution` (`ficant-domain/src/replay/constraints.rs`) shrinks an execution to "the largest
size that breaches none".  A breach at a size is read off the room a constraint leaves:

* `breaches_face_iff` — a limit on faces is breached from one size on;
* `breaches_cash_iff` — cash moves by a fixed slope per face, so a limit on borrowed cash is
  breached from one size on, or up to one size;
* `exists_bound` — `allowed_magnitude` is that bound, except for a sale that costs more than it
  brings in, where it is zero;
* `Unrounded` — no amount that the check reaches is rounded; then it decides as with exact operators
  (`checkExecution_eq`);
* `checkExecution_maximal_iff` — there the check returns the largest size on the platform's scale,
  unless such a sale is shrunk to nothing although a small sale would have been let through.
-/

section Exact

open ExactDecimals

variable {c : ExecutionContext} {k : ReplayConstraint} {constraints : List ReplayConstraint}
  {face m : Decimal}

/-! ### Sizes -/

/-- The full size with the sign of the face is the face. -/
theorem signedLike_abs (face : Decimal) : signedLike face |face| = face := by
  unfold signedLike
  split
  · rename_i hneg
    rw [abs_of_neg hneg, neg_neg]
  · rename_i hpos
    exact abs_of_nonneg (not_lt.mp hpos)

/-- A part of a face is its own magnitude, signed like the face. -/
theorem PartOf.eq_signedLike {q : Decimal} (h : PartOf q face) : q = signedLike face |q| := by
  unfold signedLike
  rcases h with ⟨hface, hq, -⟩ | ⟨hface, hlow, hq⟩
  · rw [if_neg (not_lt.mpr hface), abs_of_nonneg hq]
  · split
    · rw [abs_of_nonpos hq, neg_neg]
    · rename_i hpos
      -- nothing is part of an empty face but itself
      have hzero : q = 0 := le_antisymm hq (le_trans (not_lt.mp hpos) hlow)
      rw [hzero, abs_zero]

namespace ExecutionContext

/-! ### The room a constraint leaves -/

/-- What the measure may reach: the ceiling, or where it already is. -/
def limit (c : ExecutionContext) (k : ReplayConstraint) : Decimal :=
  max k.ceiling (c.measure k.measure 0)

/-- A constraint is breached when its measure is above its limit. -/
theorem breaches_iff {q : Decimal} : c.breaches k q = true ↔ c.limit k < c.measure k.measure q := by
  rw [limit, max_lt_iff, breaches, decide_eq_true_eq]

/-- The size from which on a limit on faces is breached: moving toward zero first frees twice the
    position. -/
def faceRoom (c : ExecutionContext) (k : ReplayConstraint) (face : Decimal) : Decimal :=
  let position := c.book.position c.instrument
  c.limit k - c.measure k.measure 0 +
    if position ≠ 0 ∧ (position < 0) ≠ (face < 0) then |position| * 2 else 0

/-- The distance from zero after a trade, against twice the position that unwinding frees. -/
theorem abs_add_signedLike_le (face position : Decimal) {room : Decimal} (hm : 0 ≤ m)
    (hroom : 0 ≤ room) :
    |position + signedLike face m| - |position| ≤ room ↔
      m ≤ room + if position ≠ 0 ∧ (position < 0) ≠ (face < 0) then |position| * 2 else 0 := by
  unfold signedLike
  -- Going with the position uses its room, going against it first frees twice its size.
  rcases lt_trichotomy position 0 with hneg | hzero | hpos
  · rw [abs_of_neg hneg]
    by_cases hface : face < 0
    · rw [if_pos hface, if_neg (by simp [hneg, hface]), abs_of_nonpos (by linarith)]
      constructor <;> intro h <;> linarith
    · rw [if_neg hface, if_pos ⟨ne_of_lt hneg, by simp [hneg, hface]⟩, sub_le_iff_le_add, abs_le]
      constructor
      · intro h; linarith [h.2]
      · intro h; constructor <;> linarith
  · subst hzero
    rw [if_neg (show ¬((0 : Decimal) ≠ 0 ∧ ((0 : Decimal) < 0) ≠ (face < 0)) by simp), zero_add,
      abs_zero, sub_zero, add_zero]
    split
    · rw [abs_neg, abs_of_nonneg hm]
    · rw [abs_of_nonneg hm]
  · rw [abs_of_pos hpos]
    by_cases hface : face < 0
    · rw [if_pos hface, if_pos ⟨ne_of_gt hpos, by simp [not_lt.mpr hpos.le, hface]⟩,
        sub_le_iff_le_add, abs_le]
      constructor
      · intro h; linarith [h.1]
      · intro h; constructor <;> linarith
    · rw [if_neg hface, if_neg (by simp [not_lt.mpr hpos.le, hface]), abs_of_nonneg (by linarith)]
      constructor <;> intro h <;> linarith

/-- **A limit on faces** is breached beyond its room and nowhere else. -/
theorem breaches_face_iff (hk : k.measure ≠ .borrowedCash) (hm : 0 ≤ m) :
    c.breaches k (signedLike face m) = true ↔ c.faceRoom k face < m := by
  have hroom : 0 ≤ c.limit k - c.measure k.measure 0 := sub_nonneg.mpr (le_max_right _ _)
  -- both measures of faces move by the distance of this instrument's position from zero
  have hmove : c.measure k.measure (signedLike face m) - c.measure k.measure 0 =
      |c.book.position c.instrument + signedLike face m| - |c.book.position c.instrument| := by
    cases hmeasure : k.measure with
    | instrumentFace => simp [measure]
    | portfolioFace => simp [measure]; ring
    | borrowedCash => exact absurd hmeasure hk
  have habs := abs_add_signedLike_le face (c.book.position c.instrument) hm hroom
  rw [breaches_iff, faceRoom, ← not_le, ← not_le, ← habs, ← hmove]
  constructor <;> intro h <;> contrapose! h <;> linarith

/-- The cash that may still be borrowed, after the fee. -/
def cashRoom (c : ExecutionContext) (k : ReplayConstraint) : Decimal :=
  c.limit k + c.book.cash - c.feePerFill

/-- The cash that one more unit of face costs. -/
def cashSlope (c : ExecutionContext) (face : Decimal) : Decimal :=
  if face < 0 then c.costPerFace - c.dirtyPerFace else c.dirtyPerFace + c.costPerFace

/-- **A limit on borrowed cash** is breached when the size costs more than the room. -/
theorem breaches_cash_iff (hk : k.measure = .borrowedCash) (hm : 0 < m) :
    c.breaches k (signedLike face m) = true ↔ c.cashRoom k < m * c.cashSlope face := by
  have hlimit : 0 ≤ c.limit k := by
    refine le_trans ?_ (le_max_right _ _)
    rw [hk]
    exact le_max_right _ _
  -- The cash falls in proportion to the face, once the fee is paid.
  have hcash : c.cashAfter (signedLike face m) =
      c.book.cash - c.feePerFill - m * c.cashSlope face := by
    have hne : signedLike face m ≠ 0 := by
      intro hzero
      have := abs_signedLike face m hm.le
      rw [hzero, abs_zero] at this
      exact ne_of_lt hm this
    unfold cashAfter cashSlope
    simp only [if_neg hne, abs_signedLike face m hm.le, plus_eq, minus_eq, times_eq]
    unfold signedLike
    split <;> ring
  rw [breaches_iff, hk]
  show c.limit k < max (-c.cashAfter (signedLike face m)) 0 ↔ _
  rw [lt_max_iff, or_iff_left (not_lt.mpr hlimit), hcash, cashRoom]
  constructor <;> intro h <;> linarith

/-! ### What `allowed_magnitude` is -/

/-- A sale that costs more than it brings in, against a limit on borrowed cash. -/
def LossySale (c : ExecutionContext) (k : ReplayConstraint) (face : Decimal) : Prop :=
  k.measure = .borrowedCash ∧ face < 0 ∧ c.dirtyPerFace < c.costPerFace

/-- A limit on a face leaves what is missing to it. -/
theorem allowedMagnitude_face (hk : k.measure ≠ .borrowedCash) :
    c.allowedMagnitude k face =
      Decimal.truncate decimalScale (max ((c.faceRoom k face : Decimal) : ℚ) 0) := by
  unfold allowedMagnitude faceRoom limit
  cases hmeasure : k.measure with
  | instrumentFace => rfl
  | portfolioFace => rfl
  | borrowedCash => exact absurd hmeasure hk

/-- A limit on borrowed cash allows no part of a sale. -/
theorem allowedMagnitude_sale (hk : k.measure = .borrowedCash) (hface : face < 0) :
    c.allowedMagnitude k face = 0 := by
  unfold allowedMagnitude
  simp only [hk, hface, true_or, if_true, max_self]
  exact Decimal.truncate_zero

/-- It allows a purchase of what the cash that is left pays for. -/
theorem allowedMagnitude_purchase (hk : k.measure = .borrowedCash) (hface : ¬face < 0)
    (hslope : 0 < c.dirtyPerFace + c.costPerFace) :
    c.allowedMagnitude k face = Decimal.truncate decimalScale
      (max ((c.cashRoom k : ℚ) / ((c.dirtyPerFace + c.costPerFace : Decimal) : ℚ)) 0) := by
  unfold allowedMagnitude cashRoom limit
  simp only [hk, hface, plus_eq, minus_eq, quotient_eq, not_le.mpr hslope, false_or, if_false]

/-- It allows nothing of a purchase that costs nothing. -/
theorem allowedMagnitude_free (hk : k.measure = .borrowedCash)
    (hslope : c.dirtyPerFace + c.costPerFace ≤ 0) : c.allowedMagnitude k face = 0 := by
  unfold allowedMagnitude
  simp only [hk, plus_eq, hslope, or_true, if_true, max_self]
  exact Decimal.truncate_zero

/-- **What a breached constraint allows.** Its allowed magnitude is a bound, cut off to the platform's
    scale, that exactly the sizes it lets through keep to. -/
theorem exists_bound (hdirty : 0 ≤ c.dirtyPerFace) (hcost : 0 ≤ c.costPerFace) (hface : face ≠ 0)
    (hbreach : c.breaches k face = true) (hlossy : ¬c.LossySale k face) :
    ∃ bound : ℚ, 0 ≤ bound ∧ c.allowedMagnitude k face = Decimal.truncate decimalScale bound ∧
      ∀ m, 0 < m → m ≤ |face| → (c.breaches k (signedLike face m) = false ↔ (m : ℚ) ≤ bound) := by
  have hpos : 0 < |face| := abs_pos.mpr hface
  by_cases hk : k.measure = .borrowedCash
  swap
  · refine ⟨_, le_max_right _ _, allowedMagnitude_face hk, fun m hm _ => ?_⟩
    rw [← Bool.not_eq_true, breaches_face_iff hk hm.le, not_lt, le_max_iff,
      or_iff_left (not_le.mpr (Decimal.coe_pos.mpr hm)), Decimal.coe_le]
  rw [← signedLike_abs face, breaches_cash_iff hk hpos] at hbreach
  by_cases hsale : face < 0
  · -- a sale that brings cash in is breached by every smaller one
    refine ⟨0, le_rfl, ?_, fun m hm hle => ?_⟩
    · rw [allowedMagnitude_sale hk hsale, Decimal.truncate_zero]
    rw [← Bool.not_eq_true, breaches_cash_iff hk hm, not_lt]
    refine iff_of_false ?_ (not_le.mpr (Decimal.coe_pos.mpr hm))
    have hslope : c.cashSlope face ≤ 0 := by
      rw [cashSlope, if_pos hsale]
      have hproceeds := not_lt.mp fun hlt => hlossy ⟨hk, hsale, hlt⟩
      linarith
    exact not_le.mpr (lt_of_lt_of_le hbreach (mul_le_mul_of_nonpos_right hle hslope))
  have hslope : c.cashSlope face = c.dirtyPerFace + c.costPerFace := if_neg hsale
  rw [hslope] at hbreach
  rcases eq_or_lt_of_le (add_nonneg hdirty hcost) with hfree | hpaid
  · -- faces are free, so every size leaves the same cash
    refine ⟨0, le_rfl, ?_, fun m hm _ => ?_⟩
    · rw [allowedMagnitude_free hk hfree.symm.le, Decimal.truncate_zero]
    rw [← Bool.not_eq_true, breaches_cash_iff hk hm, not_lt, hslope, ← hfree, mul_zero]
    rw [← hfree, mul_zero] at hbreach
    exact iff_of_false (not_le.mpr hbreach) (not_le.mpr (Decimal.coe_pos.mpr hm))
  · refine ⟨_, le_max_right _ _, allowedMagnitude_purchase hk hsale hpaid, fun m hm _ => ?_⟩
    rw [← Bool.not_eq_true, breaches_cash_iff hk hm, not_lt, hslope, le_max_iff,
      or_iff_left (not_le.mpr (Decimal.coe_pos.mpr hm)), le_div_iff₀ (Decimal.coe_pos.mpr hpaid),
      ← Decimal.coe_mul, Decimal.coe_le]

/-- A constraint that the full size does not breach, but a part of it does, is breached by every
    smaller part too. -/
theorem breaches_smaller (hfull : c.breaches k face = false) {n : Decimal} (hm : 0 < m)
    (hle : m ≤ |face|) (hbreach : c.breaches k (signedLike face m) = true) (hn : 0 < n)
    (hnm : n ≤ m) : c.breaches k (signedLike face n) = true := by
  have hpos : 0 < |face| := lt_of_lt_of_le hm hle
  rw [← Bool.not_eq_true, ← signedLike_abs face] at hfull
  by_cases hk : k.measure = .borrowedCash
  · rw [breaches_cash_iff hk hpos] at hfull
    rw [breaches_cash_iff hk hm] at hbreach
    rw [breaches_cash_iff hk hn]
    -- the slope is negative, else the full size would be breached as well
    have hslope : c.cashSlope face ≤ 0 := by
      by_contra hslope
      exact hfull (lt_of_lt_of_le hbreach (mul_le_mul_of_nonneg_right hle (not_le.mp hslope).le))
    exact lt_of_lt_of_le hbreach (mul_le_mul_of_nonpos_right hnm hslope)
  · rw [breaches_face_iff hk hpos.le] at hfull
    rw [breaches_face_iff hk hm.le] at hbreach
    exact absurd (lt_of_lt_of_le hbreach hle) hfull

/-- For a sale that costs more than it brings in, what some size does not breach no smaller one
    does. -/
theorem not_breaches_smaller (hcost : face < 0 → c.dirtyPerFace ≤ c.costPerFace)
    (hdirty : 0 ≤ c.dirtyPerFace + c.costPerFace) {n : Decimal} (hm : 0 < m)
    (hfree : c.breaches k (signedLike face m) = false) (hn : 0 < n) (hnm : n ≤ m) :
    c.breaches k (signedLike face n) = false := by
  rw [← Bool.not_eq_true] at hfree ⊢
  by_cases hk : k.measure = .borrowedCash
  · rw [breaches_cash_iff hk hm, not_lt] at hfree
    rw [breaches_cash_iff hk hn, not_lt]
    have hslope : 0 ≤ c.cashSlope face := by
      unfold cashSlope
      split
      · exact sub_nonneg.mpr (hcost ‹_›)
      · exact hdirty
    exact le_trans (mul_le_mul_of_nonneg_right hnm hslope) hfree
  · rw [breaches_face_iff hk hm.le, not_lt] at hfree
    rw [breaches_face_iff hk hn.le, not_lt]
    exact le_trans hnm hfree

end ExecutionContext

/-! ### The check -/

/-- A size that may execute in the place of a face: not nothing, a part of the face on the platform's
    scale, and breaching no constraint. -/
structure Feasible (constraints : List ReplayConstraint) (c : ExecutionContext) (face q : Decimal) :
    Prop where
  ne_zero : q ≠ 0
  part : PartOf q face
  onGrid : q.OnGrid decimalScale
  clear : ∀ k ∈ constraints, c.breaches k q = false

/-- A result of the check is maximal: it is the full size when nothing is breached; else, unless a
    breached constraint rejects, the largest size that may execute, and nothing only if there is
    none. -/
def Maximal (constraints : List ReplayConstraint) (c : ExecutionContext) (face : Decimal)
    (result : Decimal × Option ConstraintOutcome) : Prop :=
  ((∀ k ∈ constraints, c.breaches k face = false) → result = (face, none)) ∧
  ((∃ k ∈ constraints, c.breaches k face = true) →
    (∀ k ∈ constraints, c.breaches k face = true → k.handling ≠ .reject) →
    ∃ q outcome, result = (q, some outcome) ∧
      ((outcome.action = .reduced ∧ Feasible constraints c face q ∧
          ∀ p, Feasible constraints c face p → |p| ≤ |q|) ∨
        (outcome.action = .rejected ∧ q = 0 ∧ ∀ p, ¬Feasible constraints c face p)))

/-- A sale whose costs exceed its proceeds breaches a limit on borrowed cash that does not reject,
    and the smallest sale breaches nothing. -/
def ShrinkableSale (constraints : List ReplayConstraint) (c : ExecutionContext) (face : Decimal) :
    Prop :=
  face < 0 ∧ c.dirtyPerFace < c.costPerFace ∧ Decimal.scaled 1 decimalScale ≤ |face| ∧
    (∃ k ∈ constraints, k.measure = .borrowedCash ∧ c.breaches k face = true) ∧
    (∀ k ∈ constraints, c.breaches k face = true → k.handling ≠ .reject) ∧
    ∀ k ∈ constraints, c.breaches k (-Decimal.scaled 1 decimalScale) = false

/-- A number is below the least one when it is below all of them. -/
theorem le_foldl_min_iff {l : List Decimal} {start x : Decimal} :
    x ≤ l.foldl min start ↔ x ≤ start ∧ ∀ y ∈ l, x ≤ y := by
  induction l generalizing start with
  | nil => simp
  | cons a rest ih =>
    rw [List.foldl_cons, ih, le_min_iff, List.forall_mem_cons, and_assoc]

theorem foldl_min_mem (l : List Decimal) (start : Decimal) :
    l.foldl min start = start ∨ l.foldl min start ∈ l := by
  induction l generalizing start with
  | nil => exact .inl rfl
  | cons a rest ih =>
    rw [List.foldl_cons]
    rcases ih (min start a) with h | h
    · rw [h]
      refine (min_choice start a).imp_right fun hmin => ?_
      rw [hmin]
      exact List.mem_cons_self
    · exact .inr (List.mem_cons_of_mem _ h)

/-- The size the breached constraints allow together. -/
def shrunk (constraints : List ReplayConstraint) (c : ExecutionContext) (face : Decimal) : Decimal :=
  ((constraints.filter fun k => c.breaches k face).map fun k =>
    c.allowedMagnitude k face).foldl min |face|

/-- What breaches nothing is executed as it is. -/
theorem checkExecution_of_clear (hface : face ≠ 0)
    (h : ∀ k ∈ constraints, c.breaches k face = false) :
    checkExecution constraints c face = (face, none) := by
  have hnone : (constraints.filter fun k => c.breaches k face) = [] :=
    List.filter_eq_nil_iff.mpr fun k hk => by simp [h k hk]
  unfold checkExecution
  rw [if_neg hface]
  simp only [hnone, if_true]

/-- Past the rejecting constraints, the check tries the shrunk size. -/
theorem checkExecution_of_breached (hface : face ≠ 0)
    (hbreach : ∃ k ∈ constraints, c.breaches k face = true)
    (hreduce : ∀ k ∈ constraints, c.breaches k face = true → k.handling ≠ .reject) :
    ∃ triggered, checkExecution constraints c face =
      if signedLike face (shrunk constraints c face) = 0 ∨
          constraints.any fun k => c.breaches k (signedLike face (shrunk constraints c face)) then
        (0, some ⟨face, triggered, .rejected⟩)
      else
        (signedLike face (shrunk constraints c face), some ⟨face, triggered, .reduced⟩) := by
  obtain ⟨k, hk, hbreach⟩ := hbreach
  have hsome : (constraints.filter fun k => c.breaches k face) ≠ [] :=
    List.ne_nil_of_mem (List.mem_filter.mpr ⟨hk, hbreach⟩)
  have hnone : ((constraints.filter fun k => c.breaches k face).any
      fun k => k.handling = .reject) = false := by
    rw [List.any_eq_false]
    intro k hk
    obtain ⟨hmem, hbreach⟩ := List.mem_filter.mp hk
    simpa using hreduce k hmem hbreach
  refine ⟨((((constraints.filter fun k => c.breaches k face).map
    (·.limitCode)).insertionSort (· ≤ ·)).dedup), ?_⟩
  unfold checkExecution
  rw [if_neg hface]
  simp only [hsome, if_false, hnone]
  rfl

theorem shrunk_nonneg : 0 ≤ shrunk constraints c face := by
  refine le_foldl_min_iff.mpr ⟨abs_nonneg face, fun y hy => ?_⟩
  obtain ⟨k, -, rfl⟩ := List.mem_map.mp hy
  exact allowedMagnitude_nonneg c k face

/-- The size that is left is at most the one asked for. -/
theorem shrunk_le : shrunk constraints c face ≤ |face| := (le_foldl_min_iff.mp le_rfl).1

/-- A size that may execute is its own magnitude, on the platform's scale and within the face. -/
theorem Feasible.magnitude {q : Decimal} (h : Feasible constraints c face q) :
    0 < |q| ∧ |q| ≤ |face| ∧ |q|.OnGrid decimalScale ∧
      ∀ k ∈ constraints, c.breaches k (signedLike face |q|) = false := by
  refine ⟨abs_pos.mpr h.ne_zero, h.part.abs_le, h.onGrid.abs, fun k hk => ?_⟩
  rw [← h.part.eq_signedLike]
  exact h.clear k hk

/-- The magnitude that a breached constraint allows is part of what shrinks the size. -/
theorem shrunk_le_allowed (hk : k ∈ constraints) (hbreach : c.breaches k face = true) :
    shrunk constraints c face ≤ c.allowedMagnitude k face :=
  (le_foldl_min_iff.mp le_rfl).2 _ (List.mem_map_of_mem (List.mem_filter.mpr ⟨hk, hbreach⟩))

section NotLossy

variable (hdirty : 0 ≤ c.dirtyPerFace) (hcost : 0 ≤ c.costPerFace) (hface : face ≠ 0)
  (hlossy : ∀ k ∈ constraints, c.breaches k face = true → ¬c.LossySale k face)
include hdirty hcost hface hlossy

/-- No size that may execute is larger than the shrunk one. -/
theorem Feasible.le_shrunk {q : Decimal} (h : Feasible constraints c face q) :
    |q| ≤ shrunk constraints c face := by
  obtain ⟨hpos, hle, hgrid, hclear⟩ := h.magnitude
  refine le_foldl_min_iff.mpr ⟨hle, fun y hy => ?_⟩
  obtain ⟨k, hk, rfl⟩ := List.mem_map.mp hy
  obtain ⟨hmem, hbreach⟩ := List.mem_filter.mp hk
  obtain ⟨bound, hbound, hallowed, hiff⟩ :=
    ExecutionContext.exists_bound hdirty hcost hface hbreach (hlossy k hmem hbreach)
  rw [hallowed, Decimal.le_truncate_iff hgrid hbound]
  exact (hiff |q| hpos hle).mp (hclear k hmem)

/-- The shrunk size breaches none of the constraints that made it shrink. -/
theorem shrunk_clear (hk : k ∈ constraints) (hbreach : c.breaches k face = true)
    (hpos : 0 < shrunk constraints c face) :
    c.breaches k (signedLike face (shrunk constraints c face)) = false := by
  obtain ⟨bound, hbound, hallowed, hiff⟩ :=
    ExecutionContext.exists_bound hdirty hcost hface hbreach (hlossy k hk hbreach)
  have hle := shrunk_le_allowed hk hbreach
  rw [hallowed] at hle
  exact (hiff _ hpos shrunk_le).mpr (le_trans (Decimal.coe_le.mpr hle) (Decimal.truncate_le hbound))

/-- The shrunk size is on the platform's scale. -/
theorem shrunk_onGrid (hk : k ∈ constraints) (hbreach : c.breaches k face = true) :
    (shrunk constraints c face).OnGrid decimalScale := by
  rcases foldl_min_mem ((constraints.filter fun k => c.breaches k face).map fun k =>
    c.allowedMagnitude k face) |face| with hfull | hmem
  · -- the full size would not be breached
    have hclear := shrunk_clear hdirty hcost hface hlossy hk hbreach
      (by rw [shrunk, hfull]; exact abs_pos.mpr hface)
    rw [shrunk, hfull, signedLike_abs, hbreach] at hclear
    cases hclear
  · obtain ⟨k, -, hk⟩ := List.mem_map.mp hmem
    rw [shrunk, ← hk]
    exact Decimal.onGrid_truncate _

/-- A shrunk size that some constraint refuses leaves nothing that may execute. -/
theorem not_feasible_of_breached (hk : k ∈ constraints)
    (hbreach : c.breaches k (signedLike face (shrunk constraints c face)) = true) (q : Decimal) :
    ¬Feasible constraints c face q := by
  intro hq
  obtain ⟨hpos, -, -, hclear⟩ := hq.magnitude
  have hle := hq.le_shrunk hdirty hcost hface hlossy
  have hshrunk := lt_of_lt_of_le hpos hle
  by_cases hfull : c.breaches k face = true
  · rw [shrunk_clear hdirty hcost hface hlossy hk hfull hshrunk] at hbreach
    cases hbreach
  · -- it is the full size that gets by this constraint, and smaller ones do not
    rw [Bool.not_eq_true] at hfull
    have hsmaller := ExecutionContext.breaches_smaller hfull hshrunk shrunk_le hbreach hpos hle
    rw [hclear k hk] at hsmaller
    cases hsmaller

end NotLossy

/-- A lossy sale against a limit on borrowed cash is shrunk to nothing. -/
theorem shrunk_eq_zero (hk : k ∈ constraints) (hbreach : c.breaches k face = true)
    (hlossy : c.LossySale k face) : shrunk constraints c face = 0 := by
  refine le_antisymm ?_ shrunk_nonneg
  rw [← ExecutionContext.allowedMagnitude_sale hlossy.1 hlossy.2.1]
  exact shrunk_le_allowed hk hbreach

/-- A sale of which some part may execute is shrinkable, when it is lossy. -/
theorem Feasible.shrinkable (hdirty : 0 ≤ c.dirtyPerFace) {q : Decimal}
    (h : Feasible constraints c face q) (hk : k ∈ constraints) (hbreach : c.breaches k face = true)
    (hlossy : c.LossySale k face)
    (hreduce : ∀ k ∈ constraints, c.breaches k face = true → k.handling ≠ .reject) :
    ShrinkableSale constraints c face := by
  obtain ⟨hmeasure, hsale, hloss⟩ := hlossy
  obtain ⟨hpos, hle, hgrid, hclear⟩ := h.magnitude
  have hleast := hgrid.le_of_pos hpos
  refine ⟨hsale, hloss, le_trans hleast hle, ⟨k, hk, hmeasure, hbreach⟩, hreduce, fun k hk => ?_⟩
  have hsmaller := ExecutionContext.not_breaches_smaller (fun _ => hloss.le)
    (add_nonneg hdirty (le_trans hdirty hloss.le)) hpos (hclear k hk) Decimal.scaled_one_pos hleast
  rwa [signedLike, if_pos hsale] at hsmaller

/-- The smallest sale may execute in the place of a shrinkable one. -/
theorem ShrinkableSale.feasible (h : ShrinkableSale constraints c face) :
    Feasible constraints c face (-Decimal.scaled 1 decimalScale) := by
  obtain ⟨hsale, -, hleast, -, -, hclear⟩ := h
  have hpos : 0 < Decimal.scaled 1 decimalScale := Decimal.scaled_one_pos
  rw [abs_of_neg hsale] at hleast
  exact ⟨neg_ne_zero.mpr (ne_of_gt hpos), .inr ⟨hsale.le, by linarith, by linarith⟩,
    (Decimal.onGrid_scaled 1).neg, hclear⟩

/-- The check with exact operators is maximal, except for shrinkable sales. -/
theorem checkExecution_maximal_exact (hface : face ≠ 0) (hdirty : 0 ≤ c.dirtyPerFace)
    (hcost : 0 ≤ c.costPerFace) :
    Maximal constraints c face (checkExecution constraints c face) ↔
      ¬ShrinkableSale constraints c face := by
  constructor
  · rintro ⟨-, hmax⟩ hshrinkable
    have hfeasible := hshrinkable.feasible
    obtain ⟨hsale, hloss, -, ⟨k, hk, hmeasure, hbreach⟩, hreduce, -⟩ := hshrinkable
    obtain ⟨triggered, hcheck⟩ := checkExecution_of_breached hface ⟨k, hk, hbreach⟩ hreduce
    obtain ⟨q, outcome, hresult, hcases⟩ := hmax ⟨k, hk, hbreach⟩ hreduce
    -- the check lets nothing through
    rw [shrunk_eq_zero hk hbreach ⟨hmeasure, hsale, hloss⟩, signedLike, neg_zero, ite_self,
      if_pos (.inl rfl), hresult] at hcheck
    obtain ⟨rfl, houtcome⟩ := Prod.mk.inj hcheck
    rcases hcases with ⟨-, hq, -⟩ | ⟨-, -, hnone⟩
    · exact hq.ne_zero rfl
    · exact hnone _ hfeasible
  · intro hshrinkable
    refine ⟨checkExecution_of_clear hface, fun ⟨k, hk, hbreach⟩ hreduce => ?_⟩
    obtain ⟨triggered, hcheck⟩ := checkExecution_of_breached hface ⟨k, hk, hbreach⟩ hreduce
    by_cases hlossy : ∃ k ∈ constraints, c.breaches k face = true ∧ c.LossySale k face
    · obtain ⟨j, hj, hjbreach, hjlossy⟩ := hlossy
      rw [shrunk_eq_zero hj hjbreach hjlossy, signedLike, neg_zero, ite_self,
        if_pos (.inl rfl)] at hcheck
      exact ⟨0, _, hcheck, .inr ⟨rfl, rfl, fun q hq =>
        hshrinkable (hq.shrinkable hdirty hj hjbreach hjlossy hreduce)⟩⟩
    push Not at hlossy
    by_cases hrefused : signedLike face (shrunk constraints c face) = 0 ∨
        (constraints.any fun k => c.breaches k (signedLike face (shrunk constraints c face))) = true
    · rw [if_pos hrefused] at hcheck
      refine ⟨0, _, hcheck, .inr ⟨rfl, rfl, fun q hq => ?_⟩⟩
      rcases hrefused with hzero | hany
      · have hle := hq.le_shrunk hdirty hcost hface hlossy
        rw [← abs_signedLike face _ shrunk_nonneg, hzero, abs_zero] at hle
        exact not_lt.mpr hle hq.magnitude.1
      · obtain ⟨j, hj, hjbreach⟩ := List.any_eq_true.mp hany
        exact not_feasible_of_breached hdirty hcost hface hlossy hj hjbreach q hq
    · rw [if_neg hrefused] at hcheck
      obtain ⟨hne, hclear⟩ := not_or.mp hrefused
      have hgrid := shrunk_onGrid hdirty hcost hface hlossy hk hbreach
      refine ⟨_, _, hcheck, .inl ⟨rfl, ⟨hne, partOf_signedLike shrunk_nonneg shrunk_le, ?_, ?_⟩, ?_⟩⟩
      · unfold signedLike
        split
        · exact hgrid.neg
        · exact hgrid
      · intro j hj
        rw [← Bool.not_eq_true]
        exact fun hjbreach => hclear (List.any_eq_true.mpr ⟨j, hj, hjbreach⟩)
      · intro p hp
        rw [abs_signedLike face _ shrunk_nonneg]
        exact hp.le_shrunk hdirty hcost hface hlossy

/-! ### Operators that round -/

namespace ExecutionContext

/-- Every amount that a measure at a size is computed from can be represented. -/
def MeasureFits (c : ExecutionContext) (face : Decimal) : ConstraintMeasure → Prop
  | .instrumentFace => Fits (c.book.position c.instrument + face : Decimal)
  | .portfolioFace =>
    (∀ part, part <+: (c.book.positions.entries.map fun e => |e.2|) → Fits (part.sum : Decimal)) ∧
      Fits (c.book.totalFace - |c.book.position c.instrument| : Decimal) ∧
      Fits (c.book.position c.instrument + face : Decimal) ∧ Fits (c.measure .portfolioFace face)
  | .borrowedCash =>
    Fits (face * c.dirtyPerFace : Decimal) ∧ Fits (c.book.cash - face * c.dirtyPerFace : Decimal) ∧
      (face ≠ 0 → Fits (|face| * c.costPerFace : Decimal) ∧
        Fits (|face| * c.costPerFace + c.feePerFill : Decimal)) ∧
      Fits (c.cashAfter face)

/-- A measure that is not over the ceiling is not compared with the one before. -/
structure BreachFits (c : ExecutionContext) (k : ReplayConstraint) (face : Decimal) : Prop where
  after : c.MeasureFits face k.measure
  before : k.ceiling < c.measure k.measure face → c.MeasureFits 0 k.measure

/-- Every amount that a limit on faces allows a size from can be represented. -/
structure FaceRoomFits (c : ExecutionContext) (k : ReplayConstraint) (face : Decimal) : Prop where
  room : Fits (c.limit k - c.measure k.measure 0 : Decimal)
  freed : c.book.position c.instrument ≠ 0 ∧ (c.book.position c.instrument < 0) ≠ (face < 0) →
    Fits (|c.book.position c.instrument| * 2 : Decimal)
  allowed : Fits (c.faceRoom k face)

/-- Every amount that a limit on borrowed cash allows a purchase from can be represented, and the
    quotient has the decimal places of the exact one that the platform keeps. -/
structure CashRoomFits [DecimalArithmetic] (c : ExecutionContext) (k : ReplayConstraint) : Prop where
  cash : Fits (c.limit k + c.book.cash : Decimal)
  room : Fits (c.cashRoom k)
  kept : Decimal.truncate decimalScale
      (max (DecimalArithmetic.quotient (c.cashRoom k) (c.dirtyPerFace + c.costPerFace)) 0) =
    Decimal.truncate decimalScale
      (max ((c.cashRoom k : ℚ) / ((c.dirtyPerFace + c.costPerFace : Decimal) : ℚ)) 0)

/-- Every amount that a breached constraint allows a size from can be represented. -/
structure AllowedFits [DecimalArithmetic] (c : ExecutionContext) (k : ReplayConstraint)
    (face : Decimal) : Prop where
  before : c.MeasureFits 0 k.measure
  faces : k.measure ≠ .borrowedCash → c.FaceRoomFits k face
  perFace : k.measure = .borrowedCash → Fits (c.dirtyPerFace + c.costPerFace : Decimal)
  purchase : k.measure = .borrowedCash → ¬(face < 0 ∨ c.dirtyPerFace + c.costPerFace ≤ 0) →
    c.CashRoomFits k

section Transfer

open DecimalArithmetic

variable [arithmetic : DecimalArithmetic]

/-- Sums that can be represented on the way are exact. -/
theorem totalFace_eq {book : SimulatedBook}
    (h : ∀ part, part <+: (book.positions.entries.map fun e => |e.2|) → Fits (part.sum : Decimal)) :
    @SimulatedBook.totalFace arithmetic book = @SimulatedBook.totalFace exact book :=
  (sum_exact h).trans (sum_eq _).symm

/-- The cash after a trade is exact where its terms can be represented. -/
theorem cashAfter_eq (h : c.MeasureFits face .borrowedCash) :
    @cashAfter arithmetic c face = @cashAfter exact c face := by
  obtain ⟨hpaid, hrest, hcost, hafter⟩ := h
  unfold cashAfter at hafter ⊢
  by_cases hface : face = 0
  · simp only [if_pos hface, minus_eq, times_eq] at hafter ⊢
    rw [times_exact hpaid, minus_exact hrest, minus_exact hafter]
  · obtain ⟨hrate, htotal⟩ := hcost hface
    simp only [if_neg hface, minus_eq, times_eq, plus_eq] at hafter ⊢
    rw [times_exact hpaid, minus_exact hrest, times_exact hrate, plus_exact htotal, minus_exact hafter]

/-- A measure of amounts that can be represented is not rounded. -/
theorem measure_eq {m : ConstraintMeasure} (h : c.MeasureFits face m) :
    @measure arithmetic c m face = @measure exact c m face := by
  cases m with
  | instrumentFace =>
    simp only [measure, plus_eq]
    rw [plus_exact h]
  | portfolioFace =>
    obtain ⟨hparts, hothers, hposition, htotal⟩ := h
    simp only [measure, plus_eq, minus_eq] at htotal ⊢
    rw [totalFace_eq hparts, minus_exact hothers, plus_exact hposition, plus_exact htotal]
  | borrowedCash =>
    simp only [measure]
    rw [cashAfter_eq h]

/-- Whether a constraint is breached does not depend on the arithmetic there. -/
theorem breaches_eq (h : c.BreachFits k face) :
    @breaches arithmetic c k face = @breaches exact c k face := by
  unfold breaches
  rw [measure_eq h.after]
  by_cases hover : k.ceiling < @measure exact c k.measure face
  · rw [measure_eq (h.before hover)]
  · simp only [hover, false_and]

/-- Nor does the size that it allows. -/
theorem allowedMagnitude_eq (h : c.AllowedFits k face) :
    @allowedMagnitude arithmetic c k face = @allowedMagnitude exact c k face := by
  have hbefore : @measure arithmetic c k.measure 0 = @measure exact c k.measure 0 :=
    measure_eq h.before
  -- Borrowed cash has its own formula, the two face measures share one.
  by_cases hk : k.measure = .borrowedCash
  · unfold allowedMagnitude
    simp only [hk, plus_eq, minus_eq, quotient_eq] at hbefore ⊢
    rw [hbefore, plus_exact (h.perFace hk)]
    by_cases hnone : face < 0 ∨ c.dirtyPerFace + c.costPerFace ≤ 0
    · simp only [if_pos hnone]
    · obtain ⟨hcash, hroom, hkept⟩ := h.purchase hk hnone
      simp only [limit, cashRoom, hk] at hcash hroom hkept
      simp only [if_neg hnone]
      rw [plus_exact hcash, minus_exact hroom]
      exact hkept
  · obtain ⟨hroom, hfreed, hallowed⟩ := h.faces hk
    have hplus : @plus arithmetic
        (@minus arithmetic (max k.ceiling (@measure arithmetic c k.measure 0))
          (@measure arithmetic c k.measure 0))
        (if c.book.position c.instrument ≠ 0 ∧ (c.book.position c.instrument < 0) ≠ (face < 0) then
          @times arithmetic |c.book.position c.instrument| 2 else 0) = c.faceRoom k face := by
      unfold faceRoom limit at hallowed ⊢
      unfold limit at hroom
      rw [hbefore, minus_exact hroom]
      by_cases hunwinding : c.book.position c.instrument ≠ 0 ∧
          (c.book.position c.instrument < 0) ≠ (face < 0)
      · simp only [if_pos hunwinding] at hallowed ⊢
        rw [times_exact (hfreed hunwinding), plus_exact hallowed]
      · simp only [if_neg hunwinding] at hallowed ⊢
        rw [plus_exact hallowed]
    rw [allowedMagnitude_face hk, ← hplus]
    unfold allowedMagnitude
    cases hmeasure : k.measure with
    | instrumentFace => rfl
    | portfolioFace => rfl
    | borrowedCash => exact absurd hmeasure hk

end Transfer

end ExecutionContext

/-- Whether something holds of an element is decided as soon as it holds of one. -/
theorem any_congr_until {α : Type*} {p q : α → Bool} {l : List α}
    (h : ∀ before x after, l = before ++ x :: after → (∀ y ∈ before, q y = false) → p x = q x) :
    l.any p = l.any q := by
  induction l with
  | nil => rfl
  | cons x rest ih =>
    have hfirst := h [] x rest rfl (fun y hy => nomatch hy)
    rw [List.any_cons, List.any_cons, hfirst]
    cases hx : q x with
    | true => rfl
    | false =>
      refine ih fun before y after hrest hbefore => ?_
      refine h (x :: before) y after (by rw [hrest, List.cons_append]) ?_
      exact List.forall_mem_cons.mpr ⟨hx, hbefore⟩

/-- Every amount that the check reaches can be represented: at the size asked for; where it is
    breached, and no breached constraint rejects, in the sizes allowed; and, up to the first
    constraint that refuses it, at the size that is left. -/
structure Unrounded [DecimalArithmetic] (constraints : List ReplayConstraint) (c : ExecutionContext)
    (face : Decimal) : Prop where
  asked : ∀ k ∈ constraints, c.BreachFits k face
  allowed : (∀ k ∈ constraints, @ExecutionContext.breaches exact c k face = true →
      k.handling ≠ .reject) →
    ∀ k ∈ constraints, @ExecutionContext.breaches exact c k face = true → c.AllowedFits k face
  left : (∃ k ∈ constraints, @ExecutionContext.breaches exact c k face = true) →
    (∀ k ∈ constraints, @ExecutionContext.breaches exact c k face = true → k.handling ≠ .reject) →
    shrunk constraints c face ≠ 0 →
    ∀ before k after, constraints = before ++ k :: after →
      (∀ j ∈ before, @ExecutionContext.breaches exact c j
        (signedLike face (shrunk constraints c face)) = false) →
      c.BreachFits k (signedLike face (shrunk constraints c face))

/-- Where no amount is rounded, the check does what it does with exact operators. -/
theorem checkExecution_eq [arithmetic : DecimalArithmetic] (h : Unrounded constraints c face) :
    @checkExecution arithmetic constraints c face = @checkExecution exact constraints c face := by
  have hbreached : (constraints.filter fun k => @ExecutionContext.breaches arithmetic c k face) =
      constraints.filter fun k => @ExecutionContext.breaches exact c k face :=
    List.filter_congr fun k hk => ExecutionContext.breaches_eq (h.asked k hk)
  unfold checkExecution
  dsimp only
  rw [hbreached]
  by_cases hface : face = 0
  · rw [if_pos hface, if_pos hface]
  rw [if_neg hface, if_neg hface]
  by_cases hclear : (constraints.filter fun k => @ExecutionContext.breaches exact c k face) = []
  · rw [if_pos hclear, if_pos hclear]
  rw [if_neg hclear, if_neg hclear]
  by_cases hreject : ((constraints.filter fun k => @ExecutionContext.breaches exact c k face).any
      fun k => k.handling = .reject) = true
  · rw [if_pos hreject, if_pos hreject]
  rw [if_neg hreject, if_neg hreject]
  -- past the rejecting constraints: the sizes allowed agree, and so does the second look at them
  obtain ⟨first, hfirst⟩ := List.exists_mem_of_ne_nil _ hclear
  have hsome : ∃ k ∈ constraints, @ExecutionContext.breaches exact c k face = true :=
    ⟨first, List.mem_filter.mp hfirst⟩
  have hreduce : ∀ k ∈ constraints, @ExecutionContext.breaches exact c k face = true →
      k.handling ≠ .reject := by
    intro k hk hbreach hhandling
    exact hreject (List.any_eq_true.mpr
      ⟨k, List.mem_filter.mpr ⟨hk, hbreach⟩, decide_eq_true hhandling⟩)
  have hallowed : ((constraints.filter fun k => @ExecutionContext.breaches exact c k face).map
        fun k => @ExecutionContext.allowedMagnitude arithmetic c k face).foldl min |face| =
      shrunk constraints c face := by
    refine congrArg (List.foldl min |face|) (List.map_congr_left fun k hk => ?_)
    obtain ⟨hmem, hbreach⟩ := List.mem_filter.mp hk
    exact ExecutionContext.allowedMagnitude_eq (h.allowed hreduce k hmem hbreach)
  have hshrunk : ((constraints.filter fun k => @ExecutionContext.breaches exact c k face).map
        fun k => @ExecutionContext.allowedMagnitude exact c k face).foldl min |face| =
      shrunk constraints c face := rfl
  rw [hallowed, hshrunk]
  by_cases hzero : signedLike face (shrunk constraints c face) = 0
  · rw [if_pos (Or.inl hzero), if_pos (Or.inl hzero)]
  · have hleft : shrunk constraints c face ≠ 0 := by
      intro hnothing
      rw [hnothing, signedLike, neg_zero, ite_self] at hzero
      exact hzero rfl
    rw [any_congr_until fun before k after hsplit hbefore =>
      ExecutionContext.breaches_eq (h.left hsome hreduce hleft before k after hsplit hbefore)]

/-- A check that rejects a size, although some part of it may execute, is not maximal. -/
theorem Feasible.not_maximal {q : Decimal} {outcome : ConstraintOutcome}
    (h : Feasible constraints c face q)
    (hbreach : ∃ k ∈ constraints, c.breaches k face = true)
    (hreduce : ∀ k ∈ constraints, c.breaches k face = true →
      k.handling ≠ .reject) : ¬Maximal constraints c face (0, some outcome) := by
  intro hmax
  obtain ⟨p, _, hresult, hcases⟩ := hmax.2 hbreach hreduce
  obtain ⟨rfl, -⟩ := Prod.mk.inj hresult
  rcases hcases with ⟨-, hp, -⟩ | ⟨-, -, hnone⟩
  · exact hp.ne_zero rfl
  · exact hnone q h

end Exact

/-- **The check is maximal, except for shrinkable sales**, where no amount that it reaches is
    rounded. -/
theorem checkExecution_maximal_iff [DecimalArithmetic] (constraints : List ReplayConstraint)
    (c : ExecutionContext) (face : Decimal) (hface : face ≠ 0) (hdirty : 0 ≤ c.dirtyPerFace)
    (hcost : 0 ≤ c.costPerFace) (hunrounded : Unrounded constraints c face) :
    Maximal constraints c face (checkExecution constraints c face) ↔
      ¬ShrinkableSale constraints c face := by
  rw [checkExecution_eq hunrounded]
  exact checkExecution_maximal_exact hface hdirty hcost

namespace SmallSale

/-- A bond of which one unit costs `dirty` and `cost` to trade, and an empty book. -/
def context (dirty cost : Decimal) : ExecutionContext :=
  ⟨.empty, ⟨⟨4⟩, .first⟩, dirty, cost, 0⟩

/-- No more than `ceiling` may be borrowed. -/
def limit (ceiling : Decimal) : ReplayConstraint := ⟨"CASH", .borrowedCash, ceiling, .reduce⟩

end SmallSale

section

open RoundedDecimals SmallSale

/-- A purchase of 100 at 0.01 and 0.02 would borrow 3, so it is reduced to the largest one that
    borrows at most 1. -/
theorem checkExecution_maximal_purchase :
    Maximal [limit 1] (context (.scaled 1 2) (.scaled 2 2)) 100
        (checkExecution [limit 1] (context (.scaled 1 2) (.scaled 2 2)) 100) ∧
      (checkExecution [limit 1]
        (context (.scaled 1 2) (.scaled 2 2)) 100).1 = .scaled 33333333333333 12 := by
  have hunrounded : Unrounded [limit 1] (context (.scaled 1 2) (.scaled 2 2)) 100 := by
    have hbefore : (context (.scaled 1 2) (.scaled 2 2)).MeasureFits 0 .borrowedCash :=
      ⟨by decide +kernel, by decide +kernel, fun h => absurd rfl h, by decide +kernel⟩
    refine ⟨List.forall_mem_singleton.mpr ⟨⟨by decide +kernel, by decide +kernel,
      fun _ => ⟨by decide +kernel, by decide +kernel⟩, by decide +kernel⟩, fun _ => hbefore⟩,
      fun _ => List.forall_mem_singleton.mpr fun _ => ⟨hbefore, fun h => absurd rfl h,
        fun _ => by decide +kernel, fun _ _ => ⟨by decide +kernel, by decide +kernel,
          by decide +kernel⟩⟩, ?_⟩
    intro _ _ _ before k after hsplit _
    have hk : k ∈ [limit 1] := hsplit ▸ List.mem_append_right _ List.mem_cons_self
    rw [List.mem_singleton.mp hk]
    exact ⟨⟨by decide +kernel, by decide +kernel, fun _ => ⟨by decide +kernel, by decide +kernel⟩,
      by decide +kernel⟩, fun _ => hbefore⟩
  refine ⟨(checkExecution_maximal_iff _ _ _ (by decide +kernel) (by decide +kernel)
    (by decide +kernel) hunrounded).mpr ?_, by decide +kernel⟩
  rintro ⟨hsale, -⟩
  exact absurd hsale (by decide +kernel)

/-- **A sale that costs more than it brings in.**  A sale of 200 at 0.01 and 0.02 would borrow 2.
    It is rejected, although a sale of 100 borrows the 1 that may be borrowed. -/
theorem lossy_sale_rejected :
    checkExecution [limit 1] (context (.scaled 1 2) (.scaled 2 2)) (-200) =
        (0, some ⟨-200, ["CASH"], .rejected⟩) ∧
      Feasible [limit 1] (context (.scaled 1 2) (.scaled 2 2)) (-200) (-100) ∧
      ¬Maximal [limit 1] (context (.scaled 1 2) (.scaled 2 2)) (-200)
        (checkExecution [limit 1] (context (.scaled 1 2) (.scaled 2 2))
          (-200)) := by
  have hcheck : checkExecution [limit 1]
      (context (.scaled 1 2) (.scaled 2 2)) (-200) = (0, some ⟨-200, ["CASH"], .rejected⟩) := by
    decide +kernel
  have hfeasible : Feasible [limit 1] (context (.scaled 1 2) (.scaled 2 2)) (-200) (-100) := by
    refine ⟨by decide +kernel, .inr ⟨by decide +kernel, by decide +kernel, by decide +kernel⟩,
      ⟨-100000000000000, by decide +kernel⟩, ?_⟩
    exact List.forall_mem_singleton.mpr (by decide +kernel)
  refine ⟨hcheck, hfeasible, ?_⟩
  rw [hcheck]
  exact hfeasible.not_maximal ⟨limit 1, List.mem_singleton.mpr rfl, by decide +kernel⟩
    (List.forall_mem_singleton.mpr fun _ => by decide)

/-- **A quotient that is rounded up.**  Under a ceiling just below 0.3 a purchase of 1 at a price of
    3 is reduced to 0.1, which is refused: the quotient has more digits than a decimal.  A purchase
    of 0.099999999999 breaches nothing. -/
theorem rounded_quotient_rejected :
    checkExecution [limit (.scaled 2999999999999999999999999999 28)]
        (context 3 0) 1 = (0, some ⟨1, ["CASH"], .rejected⟩) ∧
      Feasible [limit (.scaled 2999999999999999999999999999 28)] (context 3 0) 1
        (.scaled 99999999999 12) ∧
      ¬Maximal [limit (.scaled 2999999999999999999999999999 28)] (context 3 0) 1
        (checkExecution [limit (.scaled 2999999999999999999999999999 28)]
          (context 3 0) 1) := by
  have hcheck : checkExecution
      [limit (.scaled 2999999999999999999999999999 28)] (context 3 0) 1 =
        (0, some ⟨1, ["CASH"], .rejected⟩) := by
    decide +kernel
  have hfeasible : Feasible [limit (.scaled 2999999999999999999999999999 28)] (context 3 0) 1
      (.scaled 99999999999 12) := by
    refine ⟨by decide +kernel, .inl ⟨by decide +kernel, by decide +kernel, by decide +kernel⟩,
      ⟨99999999999, by decide +kernel⟩, ?_⟩
    exact List.forall_mem_singleton.mpr (by decide +kernel)
  refine ⟨hcheck, hfeasible, ?_⟩
  rw [hcheck]
  exact hfeasible.not_maximal ⟨_, List.mem_singleton.mpr rfl, by decide +kernel⟩
    (List.forall_mem_singleton.mpr fun _ => by decide)

end

end Ficant
