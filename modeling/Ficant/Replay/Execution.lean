import Ficant.Replay.Constraints

namespace Ficant

open Lib DecimalArithmetic

/-!
# Simulated execution with a participation cap

`ficant-domain/src/replay/execution.rs`: one execution attempt in one bar (`attemptInBar`), the
record of a trade without a bar left (`noLaterBar`), and the effect of a constraint decision on an
attempt (`SimulatedFill.constrain`).
-/

/-- `RemainderHandling`: what happens to the part of a trade a bar could not absorb. -/
inductive RemainderHandling
  | cancel | carry
  deriving DecidableEq, Repr

/-- `RemainderHandling::code`. -/
def RemainderHandling.code : RemainderHandling → String
  | cancel => "CANCEL" | carry => "CARRY"

/-- `ExecutionRules`: the share of a bar's traded face a fill may take, in `(0, 1]`, and what
    happens to the rest. -/
structure ExecutionRules where
  participationCap : Decimal
  remainder : RemainderHandling
  cap_pos : 0 < participationCap
  cap_le_one : participationCap ≤ 1
  deriving DecidableEq

/-- Every trade may take the whole volume of its bar. -/
def ExecutionRules.uncapped (remainder : RemainderHandling) : ExecutionRules :=
  ⟨1, remainder, by decide +kernel, by decide +kernel⟩

/-- `FillPriceBasis`. -/
inductive FillPriceBasis
  | vwap | close
  deriving DecidableEq, Repr

/-- `FillPriceBasis::code`. -/
def FillPriceBasis.code : FillPriceBasis → String
  | vwap => "VWAP" | close => "CLOSE"

/-- `NoFillReason`. -/
inductive NoFillReason
  | noPriceInBar | noLaterBar | participationCap | constraint
  deriving DecidableEq, Repr

/-- `NoFillReason::code`. -/
def NoFillReason.code : NoFillReason → String
  | noPriceInBar => "NO_PRICE_IN_BAR"
  | noLaterBar => "NO_LATER_BAR"
  | participationCap => "PARTICIPATION_CAP"
  | constraint => "CONSTRAINT"

/-- `RemainderOutcome`. -/
inductive RemainderOutcome
  | cancelled | carried
  deriving DecidableEq, Repr

/-- `RemainderOutcome::code`. -/
def RemainderOutcome.code : RemainderOutcome → String
  | cancelled => "CANCELLED" | carried => "CARRIED"

/-- `Remainder`: the signed face an execution left, why, and what became of it. -/
structure Remainder where
  quantity : Decimal
  reason : NoFillReason
  outcome : RemainderOutcome
  deriving DecidableEq

/-- `SimulatedFill`: one simulated execution attempt in one bar. -/
structure SimulatedFill where
  decisionTime : DateTime
  instrument : VersionRef
  requested : Decimal
  quantity : Decimal
  limit : Option Decimal
  effectiveAt : DateTime
  executionBar : Option String
  price : Option Decimal
  basis : Option FillPriceBasis
  priceSource : PriceSourceType
  noFill : Option NoFillReason
  remainder : Option Remainder
  constraint : Option ConstraintOutcome
  deriving DecidableEq

/-- The price an attempt executes at: the bar's VWAP, else its close. -/
def Bar.fillPrice (bar : Bar) : Option (Decimal × FillPriceBasis) :=
  match bar.vwap, bar.prices with
  | some vwap, _ => some (vwap.value, .vwap)
  | none, some prices => some (prices.close.value, .close)
  | none, none => none

/-- `attempt_in_bar`: one attempt of `remaining` face in `bar`, before constraints.  The bar fills
    at most its traded face times the participation cap, less the face `used` in it already. -/
def attemptInBar [DecimalArithmetic] (decisionTime : DateTime) (instrument : VersionRef)
    (remaining : Decimal)
    (bar : Bar) (used : Decimal) (rules : ExecutionRules) (priceSource : PriceSourceType) :
    SimulatedFill :=
  let priced := bar.fillPrice
  let limit := max (minus (times bar.volume.value rules.participationCap) used) 0
  let executed := if priced.isSome then signedLike remaining (min |remaining| limit) else 0
  let left := minus remaining executed
  let shortfallReason : NoFillReason :=
    if priced.isSome then .participationCap else .noPriceInBar
  let outcome : RemainderOutcome :=
    match rules.remainder with
    | .cancel => .cancelled
    | .carry => .carried
  { decisionTime
    instrument
    requested := remaining
    quantity := executed
    limit := some limit
    effectiveAt := bar.barEnd
    executionBar := some bar.sourceRecordId
    price := priced.map Prod.fst
    basis := priced.map Prod.snd
    priceSource
    noFill := if executed = 0 then some shortfallReason else none
    remainder := if left = 0 then none else some ⟨left, shortfallReason, outcome⟩
    constraint := none }

/-- `no_later_bar`: the record of a trade (or its carried remainder) without a bar left. -/
def noLaterBar (decisionTime : DateTime) (instrument : VersionRef) (remaining : Decimal)
    (effectiveAt : DateTime) (priceSource : PriceSourceType) : SimulatedFill :=
  { decisionTime
    instrument
    requested := remaining
    quantity := 0
    limit := none
    effectiveAt
    executionBar := none
    price := none
    basis := none
    priceSource
    noFill := some .noLaterBar
    remainder := some ⟨remaining, .noLaterBar, .cancelled⟩
    constraint := none }

namespace SimulatedFill

section

variable [DecimalArithmetic]

/-- `SimulatedFill::constrain`: the attempt executes `allowed` instead, and whatever it no longer
    executes is cancelled. -/
def constrain (fill : SimulatedFill) (allowed : Decimal) (outcome : ConstraintOutcome) :
    SimulatedFill :=
  let left := minus fill.requested allowed
  { fill with
    quantity := allowed
    noFill := if allowed = 0 then some .constraint else none
    remainder := if left = 0 then none else some ⟨left, .constraint, .cancelled⟩
    constraint := some outcome }

/-- Whether the attempt's shortfall is to be retried. -/
def carried (fill : SimulatedFill) : Bool :=
  fill.remainder.any fun remainder => remainder.outcome = .carried

/-- The face that an attempt leaves, as the operators compute it. -/
def left (fill : SimulatedFill) : Decimal := minus fill.requested fill.quantity

/-- The face an attempt leaves, and its record of it, agree. -/
def Balanced (fill : SimulatedFill) : Prop :=
  PartOf fill.quantity fill.requested ∧
    (fill.left = 0 → fill.remainder = none) ∧
    (fill.left ≠ 0 → ∃ r, fill.remainder = some r ∧ r.quantity = fill.left)

end

end SimulatedFill

/-! ### What an attempt guarantees -/

/-- An attempt with a price executes in a bar with a close. -/
theorem Bar.close_of_fillPrice {bar : Bar} {p : Decimal × FillPriceBasis}
    (h : bar.fillPrice = some p) : ∃ c, bar.close = some c := by
  unfold fillPrice at h
  cases hv : bar.vwap with
  | some vwap => exact bar.close_isSome_of_vwap hv
  | none =>
    cases hp : bar.prices with
    | some prices => exact ⟨prices.close.value, by rw [close, hp]; rfl⟩
    | none => rw [hv, hp] at h; cases h

section Attempt

variable [DecimalArithmetic] (decisionTime : DateTime) (instrument : VersionRef)
    (remaining : Decimal) (bar : Bar)
  (used : Decimal) (rules : ExecutionRules) (priceSource : PriceSourceType)

theorem attemptInBar_partOf :
    PartOf (attemptInBar decisionTime instrument remaining bar used rules priceSource).quantity
      remaining := by
  simp only [attemptInBar]
  split
  · exact partOf_signedLike (le_min (abs_nonneg _) (le_max_right _ _)) (min_le_left _ _)
  · exact .zero remaining

theorem attemptInBar_balanced :
    (attemptInBar decisionTime instrument remaining bar used rules priceSource).Balanced := by
  refine ⟨attemptInBar_partOf .., ?_, ?_⟩ <;> intro h <;>
    simp only [attemptInBar, SimulatedFill.left] at h ⊢
  · exact if_pos h
  · exact ⟨_, if_neg h, rfl⟩

omit [DecimalArithmetic] in
theorem abs_signedLike (x m : Decimal) (hm : 0 ≤ m) : |signedLike x m| = m := by
  unfold signedLike
  split
  · rw [abs_neg, abs_of_nonneg hm]
  · exact abs_of_nonneg hm

/-- The face that a bar has left for an attempt, as the operators compute it. -/
def capLeft : Decimal := minus (times bar.volume.value rules.participationCap) used

/-- An attempt stays within what its bar has left, unless it executes nothing. -/
theorem attemptInBar_within_cap :
    (attemptInBar decisionTime instrument remaining bar used rules priceSource).quantity = 0 ∨
      |(attemptInBar decisionTime instrument remaining bar used rules priceSource).quantity|
        ≤ capLeft bar used rules := by
  simp only [attemptInBar]
  split
  · rw [abs_signedLike _ _ (le_min (abs_nonneg _) (le_max_right _ _))]
    rcases le_total (minus (times bar.volume.value rules.participationCap) used) 0 with h | h
    · left
      rw [max_eq_right h, min_eq_right (abs_nonneg _)]
      unfold signedLike; split <;> simp
    · right
      rw [max_eq_left h]
      exact min_le_right _ _
  · left; rfl

/-- A bar without prices fills nothing. -/
theorem attemptInBar_unpriced (h : bar.fillPrice = none) :
    (attemptInBar decisionTime instrument remaining bar used rules priceSource).quantity = 0 := by
  simp [attemptInBar, h]

end Attempt

/-- A constrained attempt is balanced too, and nothing of it is carried. -/
theorem SimulatedFill.constrain_balanced [DecimalArithmetic] (fill : SimulatedFill) (allowed : Decimal)
    (outcome : ConstraintOutcome) (h : PartOf allowed fill.requested) :
    (fill.constrain allowed outcome).Balanced := by
  refine ⟨h, ?_, ?_⟩ <;> intro hl <;> simp only [constrain, left] at hl ⊢
  · exact if_pos hl
  · exact ⟨_, if_neg hl, rfl⟩

theorem SimulatedFill.constrain_not_carried [DecimalArithmetic] (fill : SimulatedFill)
    (allowed : Decimal)
    (outcome : ConstraintOutcome) : (fill.constrain allowed outcome).carried = false := by
  simp only [constrain, carried]
  split <;> simp

end Ficant
