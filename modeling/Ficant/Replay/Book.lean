import Ficant.Market.Bar
import Ficant.Primitives.DecimalArithmetic

namespace Ficant

open Lib DecimalArithmetic

/-!
# The simulated book

Positions (face amounts) and cash of a replay (`SimulatedBook`), and the target a policy decides on
(`TargetExposure`), both from `ficant-domain/src/replay/mod.rs`.

The operators of the decimals are a parameter of everything that computes (`DecimalArithmetic`).
Every accounting argument about a book with exact operators goes through two facts:
`position_addPosition_exact`, and `sumOver_addPosition_exact`, which says how any sum over the
positions moves when one position does.
-/

/-- `TargetExposure`: target face per instrument. -/
structure TargetExposure where
  targets : SortedMap VersionRef Decimal
  deriving DecidableEq

/-- `SimulatedBook`: settled face amounts and cash. -/
structure SimulatedBook where
  positions : SortedMap VersionRef Decimal
  cash : Decimal
  deriving DecidableEq

namespace SimulatedBook

section

variable [DecimalArithmetic]

/-- `SimulatedBook::default`. -/
def empty : SimulatedBook := ⟨∅, 0⟩

/-- `SimulatedBook::position`. -/
def position (b : SimulatedBook) (instrument : VersionRef) : Decimal :=
  (b.positions.get? instrument).getD 0

/-- `SimulatedBook::add_position`: a flat position is forgotten. -/
def addPosition (b : SimulatedBook) (instrument : VersionRef) (face : Decimal) : SimulatedBook :=
  { b with
    positions :=
      if plus (b.position instrument) face = 0 then b.positions.erase instrument
      else b.positions.insert instrument (plus (b.position instrument) face) }

/-- `SimulatedBook::add_cash`. -/
def addCash (b : SimulatedBook) (amount : Decimal) : SimulatedBook :=
  { b with cash := plus b.cash amount }

/-- `SimulatedBook::with_pending`: the book as it will be once every pending trade executes. -/
def withPending (b : SimulatedBook) (intents : List (VersionRef × Decimal)) : SimulatedBook :=
  intents.foldl (fun projected intent => projected.addPosition intent.1 intent.2) b

/-- `SimulatedBook::deltas_toward`: the non-zero face to trade per target instrument. -/
def deltasToward (b : SimulatedBook) (target : TargetExposure) : List (VersionRef × Decimal) :=
  target.targets.entries.filterMap fun e =>
    let delta := minus e.2 (b.position e.1)
    if delta = 0 then none else some (e.1, delta)

/-- The face of all positions, without signs. -/
def totalFace (b : SimulatedBook) : Decimal := sum (b.positions.entries.map fun e => |e.2|)

/-! ### Cash and positions move apart -/

@[simp] theorem cash_addPosition (b : SimulatedBook) (i : VersionRef) (face : Decimal) :
    (b.addPosition i face).cash = b.cash := rfl

@[simp] theorem positions_addCash (b : SimulatedBook) (amount : Decimal) :
    (b.addCash amount).positions = b.positions := rfl

@[simp] theorem position_addCash (b : SimulatedBook) (amount : Decimal) (i : VersionRef) :
    (b.addCash amount).position i = b.position i := rfl

@[simp] theorem cash_addCash (b : SimulatedBook) (amount : Decimal) :
    (b.addCash amount).cash = plus b.cash amount := rfl

/-- Adding to a position changes its entry, which is dropped when nothing is left, and no other. -/
theorem get?_addPosition (b : SimulatedBook) (i : VersionRef) (face : Decimal) (x : VersionRef) :
    (b.addPosition i face).positions.get? x =
      if x = i then (if plus (b.position i) face = 0 then none else some (plus (b.position i) face))
      else b.positions.get? x := by
  unfold addPosition
  by_cases hzero : plus (b.position i) face = 0
  · rw [if_pos hzero, if_pos hzero, SortedMap.get?_erase]
  · rw [if_neg hzero, if_neg hzero, SortedMap.get?_insert]

/-- Adding to a position adds to it and to no other. -/
theorem position_addPosition (b : SimulatedBook) (i : VersionRef) (face : Decimal)
    (x : VersionRef) :
    (b.addPosition i face).position x = if x = i then plus (b.position i) face else b.position x := by
  rw [position, get?_addPosition]
  by_cases hx : x = i
  · by_cases hzero : plus (b.position i) face = 0
    · simp [hx, hzero]
    · simp [hx, hzero]
  · simp [hx, position]

/-! ### Sums over the positions -/

/-- The sum of `g instrument face` over all positions. -/
def sumOver (b : SimulatedBook) (g : VersionRef → Decimal → Decimal) : Decimal :=
  b.positions.sumBy g

/-- Cash is in no sum over the positions. -/
@[simp] theorem sumOver_addCash (b : SimulatedBook) (amount : Decimal)
    (g : VersionRef → Decimal → Decimal) : (b.addCash amount).sumOver g = b.sumOver g := rfl

end

/-! ### With exact operators -/

section Exact

open ExactDecimals

@[simp] theorem cash_addCash_exact (b : SimulatedBook) (amount : Decimal) :
    (b.addCash amount).cash = b.cash + amount := rfl

/-- A trade moves the position of its instrument. -/
theorem position_addPosition_exact (b : SimulatedBook) (i : VersionRef) (face : Decimal)
    (x : VersionRef) :
    (b.addPosition i face).position x = b.position x + if x = i then face else 0 := by
  rw [position_addPosition, plus_eq]
  by_cases hx : x = i
  · rw [if_pos hx, if_pos hx, hx]
  · rw [if_neg hx, if_neg hx, add_zero]

/-- The face of all positions is a sum over them. -/
theorem totalFace_exact (b : SimulatedBook) : b.totalFace = b.sumOver fun _ face => |face| :=
  sum_eq _

/-- A trade moves a sum over the positions by the change of the traded instrument's term. -/
theorem sumOver_addPosition_exact (b : SimulatedBook) (i : VersionRef) (face : Decimal)
    (g : VersionRef → Decimal → Decimal) (hg : g i 0 = 0) :
    (b.addPosition i face).sumOver g =
      b.sumOver g - g i (b.position i) + g i (b.position i + face) := by
  have hold : (b.positions.get? i).elim 0 (g i) = g i (b.position i) := by
    unfold position
    cases b.positions.get? i <;> simp [hg]
  have hsplit := b.positions.sumBy_erase g i
  rw [hold] at hsplit
  simp only [addPosition, sumOver, plus_eq]
  split
  · rename_i hzero
    rw [hsplit, hzero, hg]; ring
  · rw [hsplit, SortedMap.sumBy_insert]; ring

end Exact

end SimulatedBook

/-- `signed_like`: `magnitude` with the sign of `signOf`. -/
def signedLike (signOf magnitude : Decimal) : Decimal :=
  if signOf < 0 then -magnitude else magnitude

end Ficant
