import Ficant.Replay.Book

namespace Ficant

open Lib DecimalArithmetic

/-!
# Constraint checks on simulated executions

`ficant-domain/src/constraint.rs`, `subject.rs` (the parts a replay reads) and
`replay/constraints.rs`.  A check looks at the book just before one execution and at the book it
would leave (`ExecutionContext.measure`); `checkExecution` returns the face that may execute.

`bookMeasure` is the same measure read off a book; `checkExecution_respects` says that what a
check lets through does not breach, and `checkExecution_partOf` that it only ever shrinks.
-/

/-! ### What a Subject declares -/

/-- `ConstraintMeasure`: what a constraint measures on a book. -/
inductive ConstraintMeasure
  | instrumentFace | portfolioFace | borrowedCash
  deriving DecidableEq, Repr

/-- `ConstraintMeasure::code`. -/
def ConstraintMeasure.code : ConstraintMeasure → String
  | instrumentFace => "INSTRUMENT_FACE"
  | portfolioFace => "PORTFOLIO_FACE"
  | borrowedCash => "BORROWED_CASH"

/-- `ConstraintDefinition`. -/
structure ConstraintDefinition where
  limitCode : String
  measure : ConstraintMeasure
  deriving DecidableEq

/-- `ConstraintSet`: the constraints of one regulatory rule pack. -/
structure ConstraintSet where
  rulePack : VersionRef
  definitions : List ConstraintDefinition
  deriving DecidableEq

/-- `LimitCeiling`. -/
structure LimitCeiling where
  limitCode : String
  ceiling : DecimalValue
  deriving DecidableEq

/-- `FundingTier`. -/
inductive FundingTier
  | drAvailable | rOnly
  deriving DecidableEq, Repr

/-- `SubjectStateSnapshot`. -/
structure SubjectStateSnapshot where
  snapshotId : Ulid
  subjectRef : VersionRef
  netCapital : DecimalValue
  limitCeilings : List LimitCeiling
  observedAt : DateTime
  visibleAt : DateTime
  marketTimezone : String
  owner : Option OwnerRef
  deriving DecidableEq

/-- `SubjectVersion`, as far as a replay reads it. -/
structure SubjectVersion where
  reference : VersionRef
  fundingTier : FundingTier
  constraintSetRef : Option VersionRef
  deriving DecidableEq

/-- `ConstraintHandling`: what a policy declares for one constraint. -/
inductive ConstraintHandling
  | reject | reduce
  deriving DecidableEq, Repr

/-- `ConstraintHandling::code`. -/
def ConstraintHandling.code : ConstraintHandling → String
  | reject => "REJECT" | reduce => "REDUCE"

/-- `ConstraintAction`. -/
inductive ConstraintAction
  | rejected | reduced
  deriving DecidableEq, Repr

/-- `ConstraintAction::code`. -/
def ConstraintAction.code : ConstraintAction → String
  | rejected => "REJECTED" | reduced => "REDUCED"

/-- `ConstraintOutcome`: how constraints changed one execution attempt. -/
structure ConstraintOutcome where
  unconstrained : Decimal
  triggered : List String
  action : ConstraintAction
  deriving DecidableEq

/-- `ReplayConstraint`: one constraint as the replay enforces it. -/
structure ReplayConstraint where
  limitCode : String
  measure : ConstraintMeasure
  ceiling : Decimal
  handling : ConstraintHandling
  deriving DecidableEq

/-- `ConstraintSet::bind` for one definition: its ceiling in the state snapshot. -/
def ConstraintSet.bindDefinition (state : SubjectStateSnapshot) (definition : ConstraintDefinition) :
    Except DomainErrorCode DecimalValue :=
  match state.limitCeilings.find? (fun ceiling => ceiling.limitCode = definition.limitCode) with
  | none => .error .brokenLineage
  | some ceiling =>
    if ceiling.ceiling.coefficient < 0 then .error .invalidValue else .ok ceiling.ceiling

/-- `bind_constraints`: joins every definition with its ceiling and the declared handling. -/
def bindConstraints (set : ConstraintSet) (subject : VersionRef) (state : SubjectStateSnapshot)
    (declared : SortedMap String ConstraintHandling) :
    Except DomainErrorCode (List ReplayConstraint) :=
  if state.subjectRef ≠ subject then .error .brokenLineage
  else do
    let bound ← set.definitions.mapM fun definition => do
      let ceiling ← ConstraintSet.bindDefinition state definition
      pure (definition, ceiling)
    bound.mapM fun (definition, ceiling) =>
      match declared.get? definition.limitCode with
      | none => .error .invalidValue
      | some handling =>
        .ok ⟨definition.limitCode, definition.measure, ceiling.value, handling⟩

/-! ### The check -/

/-- `DECIMAL_SCALE`. -/
def decimalScale : ℕ := 12

/-- `ExecutionContext`: the book an execution starts from, and how cash moves with its size. -/
structure ExecutionContext where
  book : SimulatedBook
  instrument : VersionRef
  dirtyPerFace : Decimal
  costPerFace : Decimal
  feePerFill : Decimal

section

variable [DecimalArithmetic]

namespace ExecutionContext

/-- `ExecutionContext::cash_after`. -/
def cashAfter (c : ExecutionContext) (face : Decimal) : Decimal :=
  let cost := if face = 0 then 0 else plus (times |face| c.costPerFace) c.feePerFill
  minus (minus c.book.cash (times face c.dirtyPerFace)) cost

/-- `ExecutionContext::measure`. -/
def measure (c : ExecutionContext) (m : ConstraintMeasure) (face : Decimal) : Decimal :=
  let position := c.book.position c.instrument
  match m with
  | .instrumentFace => |plus position face|
  | .portfolioFace => plus (minus c.book.totalFace |position|) |plus position face|
  | .borrowedCash => max (-c.cashAfter face) 0

/-- `ExecutionContext::breaches`. -/
def breaches (c : ExecutionContext) (constraint : ReplayConstraint) (face : Decimal) : Bool :=
  let after := c.measure constraint.measure face
  constraint.ceiling < after ∧ c.measure constraint.measure 0 < after

/-- `ExecutionContext::allowed_magnitude`: the largest magnitude in the direction of `face` this
    constraint allows, cut to the platform scale. -/
def allowedMagnitude (c : ExecutionContext) (constraint : ReplayConstraint) (face : Decimal) :
    Decimal :=
  let before := c.measure constraint.measure 0
  let limit := max constraint.ceiling before
  let position := c.book.position c.instrument
  let allowed : ℚ :=
    match constraint.measure with
    | .instrumentFace | .portfolioFace =>
      -- Moving toward zero first frees `|position|`, then grows the measure again.
      let unwinding := position ≠ 0 ∧ (position < 0) ≠ (face < 0)
      let freed := if unwinding then times |position| 2 else 0
      ((plus (minus limit before) freed : Decimal) : ℚ)
    | .borrowedCash =>
      let perFace := plus c.dirtyPerFace c.costPerFace
      if face < 0 ∨ perFace ≤ 0 then 0
      else quotient (minus (plus limit c.book.cash) c.feePerFill) perFace
  Decimal.truncate decimalScale (max allowed 0)

end ExecutionContext

/-- The outcome of a check that lets nothing execute. -/
def rejectedOutcome (face : Decimal) (triggered : List String) :
    Decimal × Option ConstraintOutcome :=
  (0, some ⟨face, triggered, .rejected⟩)

/-- `check_execution`: the face that may execute and, when a constraint is breached at the full
    size, what happened. -/
def checkExecution (constraints : List ReplayConstraint) (context : ExecutionContext)
    (face : Decimal) : Decimal × Option ConstraintOutcome :=
  if face = 0 then (0, none)
  else
    let breached := constraints.filter fun constraint => context.breaches constraint face
    if breached = [] then (face, none)
    else
      let triggered := ((breached.map (·.limitCode)).insertionSort (· ≤ ·)).dedup
      if breached.any fun constraint => constraint.handling = .reject then
        rejectedOutcome face triggered
      else
        let magnitude :=
          (breached.map fun constraint => context.allowedMagnitude constraint face).foldl min |face|
        let allowed := signedLike face magnitude
        if allowed = 0 ∨ constraints.any fun constraint => context.breaches constraint allowed then
          rejectedOutcome face triggered
        else (allowed, some ⟨face, triggered, .reduced⟩)

/-! ### What a check guarantees -/

/-- The measure of a constraint read off a book, for the instrument of a trade. -/
def bookMeasure (m : ConstraintMeasure) (book : SimulatedBook) (instrument : VersionRef) : Decimal :=
  match m with
  | .instrumentFace => |book.position instrument|
  | .portfolioFace => book.sumOver fun _ face => |face|
  | .borrowedCash => max (-book.cash) 0

end

section Exact

open ExactDecimals

/-- The measure at size zero is the measure of the book itself. -/
theorem ExecutionContext.measure_zero (c : ExecutionContext) (m : ConstraintMeasure) :
    c.measure m 0 = bookMeasure m c.book c.instrument := by
  cases m <;> simp [measure, bookMeasure, cashAfter, c.book.totalFace_exact]

/-- The measure at a size is the measure of the book after trading that size for the predicted
    cash. -/
theorem ExecutionContext.measure_eq_bookMeasure (c : ExecutionContext) (m : ConstraintMeasure)
    (face : Decimal) (book : SimulatedBook)
    (hpos : book.positions = (c.book.addPosition c.instrument face).positions)
    (hcash : book.cash = c.cashAfter face) :
    c.measure m face = bookMeasure m book c.instrument := by
  have hbook : book = ⟨(c.book.addPosition c.instrument face).positions, c.cashAfter face⟩ := by
    cases book; simp_all
  cases m with
  | instrumentFace =>
    have := c.book.position_addPosition_exact c.instrument face c.instrument
    rw [if_pos rfl] at this
    simp only [measure, bookMeasure, hbook]
    exact congrArg _ this.symm
  | portfolioFace =>
    have := c.book.sumOver_addPosition_exact c.instrument face (fun _ face => |face|) (by simp)
    simp only [measure, bookMeasure, hbook, c.book.totalFace_exact]
    exact this.symm
  | borrowedCash => simp only [measure, bookMeasure, hbook]

end Exact

section

variable [DecimalArithmetic]

/-- A size that does not breach leaves the measure under the ceiling or where it was. -/
theorem ExecutionContext.le_max_of_not_breaches (c : ExecutionContext)
    (constraint : ReplayConstraint) (face : Decimal) (h : c.breaches constraint face = false) :
    c.measure constraint.measure face ≤
      max constraint.ceiling (c.measure constraint.measure 0) := by
  simp only [breaches, decide_eq_false_iff_not, not_and_or, not_lt] at h
  exact le_max_iff.mpr h

/-- **A check lets nothing through that breaches.** -/
theorem checkExecution_respects (constraints : List ReplayConstraint) (context : ExecutionContext)
    (face : Decimal) (constraint : ReplayConstraint) (hc : constraint ∈ constraints) :
    context.measure constraint.measure (checkExecution constraints context face).1 ≤
      max constraint.ceiling (context.measure constraint.measure 0) := by
  unfold checkExecution
  split
  · exact le_max_right _ _
  · dsimp only
    split
    · rename_i hnone
      refine context.le_max_of_not_breaches constraint face ?_
      -- No constraint is breached, this one included.
      by_contra hb
      have : constraint ∈ constraints.filter fun k => context.breaches k face :=
        List.mem_filter.mpr ⟨hc, by simpa using hb⟩
      simp [hnone] at this
    · split
      · exact le_max_right _ _
      · split
        · exact le_max_right _ _
        · rename_i hok
          rw [not_or] at hok
          refine context.le_max_of_not_breaches constraint _ ?_
          have := hok.2
          simp only [List.any_eq_true, not_exists, not_and, Bool.not_eq_true] at this
          exact this constraint hc

/-- No constraint allows less than nothing. -/
theorem allowedMagnitude_nonneg (c : ExecutionContext) (constraint : ReplayConstraint)
    (face : Decimal) : 0 ≤ c.allowedMagnitude constraint face := by
  unfold ExecutionContext.allowedMagnitude Decimal.truncate
  rw [← Decimal.coe_le]
  dsimp only
  rw [if_pos (le_max_right _ _)]
  exact div_nonneg (Int.cast_nonneg (Int.floor_nonneg.mpr (by positivity))) (by positivity)

end

/-- The magnitude the breached constraints leave is between nothing and the full size. -/
theorem foldl_min_bounds (l : List Decimal) (start : Decimal) (hs : 0 ≤ start)
    (hl : ∀ x ∈ l, 0 ≤ x) : 0 ≤ l.foldl min start ∧ l.foldl min start ≤ start := by
  induction l generalizing start with
  | nil => exact ⟨hs, le_refl _⟩
  | cons a rest ih =>
    have ha : 0 ≤ a := hl a List.mem_cons_self
    obtain ⟨hlow, hhigh⟩ := ih (min start a) (le_min hs ha)
      (fun x hx => hl x (List.mem_cons_of_mem _ hx))
    exact ⟨hlow, le_trans hhigh (min_le_left _ _)⟩

/-- `q` executes part of `face`: it lies between nothing and the full size, in its direction. -/
def PartOf (q face : Decimal) : Prop := (0 ≤ face ∧ 0 ≤ q ∧ q ≤ face) ∨ (face ≤ 0 ∧ face ≤ q ∧ q ≤ 0)

theorem PartOf.zero (face : Decimal) : PartOf 0 face := by
  rcases le_total 0 face with h | h
  · exact .inl ⟨h, le_refl _, h⟩
  · exact .inr ⟨h, h, le_refl _⟩

theorem PartOf.refl (face : Decimal) : PartOf face face := by
  rcases le_total 0 face with h | h
  · exact .inl ⟨h, h, le_refl _⟩
  · exact .inr ⟨h, le_refl _, h⟩

theorem PartOf.trans {p q face : Decimal} (h₁ : PartOf p q) (h₂ : PartOf q face) :
    PartOf p face := by
  rcases h₂ with ⟨hf, hq, hqf⟩ | ⟨hf, hqf, hq⟩
  · rcases h₁ with ⟨-, hp, hpq⟩ | ⟨hq', hpq, hp⟩
    · exact .inl ⟨hf, hp, le_trans hpq hqf⟩
    · have hq0 : q = 0 := le_antisymm hq' hq
      exact .inl ⟨hf, by rwa [hq0] at hpq, le_trans hp hf⟩
  · rcases h₁ with ⟨hq', hp, hpq⟩ | ⟨-, hpq, hp⟩
    · have hq0 : q = 0 := le_antisymm hq hq'
      exact .inr ⟨hf, le_trans hf hp, by rwa [hq0] at hpq⟩
    · exact .inr ⟨hf, le_trans hqf hpq, hp⟩

theorem PartOf.abs_le {q face : Decimal} (h : PartOf q face) : |q| ≤ |face| := by
  rcases h with ⟨hf, hq, hqf⟩ | ⟨hf, hqf, hq⟩
  · rw [abs_of_nonneg hf, abs_of_nonneg hq]; exact hqf
  · rw [abs_of_nonpos hf, abs_of_nonpos hq]; exact neg_le_neg hqf

theorem partOf_signedLike {face magnitude : Decimal} (h0 : 0 ≤ magnitude)
    (h : magnitude ≤ |face|) : PartOf (signedLike face magnitude) face := by
  unfold signedLike
  split
  · rename_i hneg
    rw [abs_of_neg hneg] at h
    exact .inr ⟨le_of_lt hneg, by linarith, by linarith⟩
  · rename_i hpos
    rw [abs_of_nonneg (not_lt.mp hpos)] at h
    exact .inl ⟨not_lt.mp hpos, h0, h⟩

/-- **A check only shrinks.** -/
theorem checkExecution_partOf [DecimalArithmetic] (constraints : List ReplayConstraint)
    (context : ExecutionContext)
    (face : Decimal) : PartOf (checkExecution constraints context face).1 face := by
  unfold checkExecution
  split
  · exact .zero face
  · dsimp only
    split
    · exact .refl face
    · split
      · exact .zero face
      · split
        · exact .zero face
        · obtain ⟨h0, h1⟩ := foldl_min_bounds _ _ (abs_nonneg face) (by
            intro x hx
            obtain ⟨constraint, -, rfl⟩ := List.mem_map.mp hx
            exact allowedMagnitude_nonneg context constraint face)
          exact partOf_signedLike h0 h1

end Ficant
