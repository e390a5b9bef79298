import Ficant.Application.Governance
import Ficant.Data.BarSnapshot
import Ficant.Lib.RunningGreatest
import Ficant.Primitives.FixedArithmetic

namespace Ficant.Futures

open Lib

/-!
# Prices of a delivery

The prices of a delivery calculation are taken from the quotes of a snapshot
(`ficant-application/src/use_cases/futures_delivery.rs`).

* `exactMidpointQuotes`, `exactRequestQuotes` — the latest admissible quote of each instrument;
* `latestQuotes_of_rejected`, `latestQuotes_of_accepted` — what one pass over the quotes gives;
* `choosesLatest_iff` — when the order of the quotes does not matter.
-/

/-- `CanonicalQuote`. -/
structure CanonicalQuote where
  instrument : VersionRef
  observedAt : MarketTime
  visibleAt : MarketTime
  localTradingDate : NaiveDate
  bid : Option FixedDecimal
  ask : Option FixedDecimal
  unit : UnitRef
  deriving DecidableEq

/-- What `FuturesDeliveryInputBindings` gives for the choice of prices. -/
structure PriceBindings where
  valuationAt : MarketTime
  priceUnit : UnitRef

/-- `invalid`. -/
def invalid : ApplicationError := mapDomainError .invalidValue

/-- `ok_or_else(invalid)`. -/
def orInvalid {α : Type} : Option α → Except ApplicationError α
  | some a => .ok a
  | none => .error invalid

/-! ### The choice -/

/-- A time of the quote does not fit the snapshot. -/
def Malformed (snapshot : DataSnapshot) (quote : CanonicalQuote) : Prop :=
  quote.visibleAt.instant < quote.observedAt.instant ∨
    quote.observedAt.marketTimezone ≠ snapshot.asOf.marketTimezone ∨
    quote.visibleAt.marketTimezone ≠ snapshot.visibleAt.marketTimezone ∨
    quote.observedAt.localTradingDate ≠ quote.localTradingDate

/-- The quote is not of the day, not known yet, or in another unit. -/
def Skipped (snapshot : DataSnapshot) (valuationAt : MarketTime) (priceUnit : UnitRef)
    (quote : CanonicalQuote) : Prop :=
  quote.localTradingDate ≠ valuationAt.localTradingDate ∨
    snapshot.asOf.instant < quote.observedAt.instant ∨
    snapshot.visibleAt.instant < quote.visibleAt.instant ∨ quote.unit ≠ priceUnit

instance (snapshot : DataSnapshot) (quote : CanonicalQuote) : Decidable (Malformed snapshot quote) :=
  inferInstanceAs (Decidable (_ ∨ _ ∨ _ ∨ _))

instance (snapshot : DataSnapshot) (valuationAt : MarketTime) (priceUnit : UnitRef)
    (quote : CanonicalQuote) : Decidable (Skipped snapshot valuationAt priceUnit quote) :=
  inferInstanceAs (Decidable (_ ∨ _ ∨ _ ∨ _))

/-- The pair that the quotes of an instrument are compared by. -/
def CanonicalQuote.times (quote : CanonicalQuote) : DateTime ×ₗ DateTime :=
  toLex (quote.observedAt.instant, quote.visibleAt.instant)

/-- The pass over the decoded quotes, which differs in what is asked of the prices only. -/
def latestQuotes (checkPrices : CanonicalQuote → Except ApplicationError Unit)
    (snapshot : DataSnapshot) (valuationAt : MarketTime) (priceUnit : UnitRef)
    (decoded : List CanonicalQuote) :
    Except ApplicationError (VersionRef → Option CanonicalQuote) :=
  decoded.foldlM (fun quotes quote => do
    rejectIf (Malformed snapshot quote) invalid
    if Skipped snapshot valuationAt priceUnit quote then return quotes
    checkPrices quote
    keepGreatest CanonicalQuote.instrument CanonicalQuote.times invalid quotes quote) fun _ => none

/-- `exact_midpoint`. -/
def exactMidpoint (quote : CanonicalQuote) : Except ApplicationError FixedDecimal := do
  let bid ← orInvalid quote.bid
  let ask ← orInvalid quote.ask
  let sum ← (bid.checkedAdd ask).mapError fun _ => invalid
  rejectIf (sum.scaled.tmod 2 ≠ 0) invalid
  (FixedDecimal.tryFrom (sum.scaled.tdiv 2)).mapError fun _ => invalid

/-- What `exact_midpoint_quotes` asks of the prices. -/
def checkMidpoint (quote : CanonicalQuote) : Except ApplicationError Unit := do
  let bid ← orInvalid quote.bid
  let ask ← orInvalid quote.ask
  rejectIf (¬bid.isPositive ∨ ¬ask.isPositive ∨ ask.scaled < bid.scaled) invalid
  let _ ← exactMidpoint quote
  return ()

/-- What `exact_request_quotes` asks of the prices. -/
def checkRequest (quote : CanonicalQuote) : Except ApplicationError Unit :=
  rejectIf ((quote.bid = none ∧ quote.ask = none) ∨ (∃ value ∈ quote.bid, ¬value.isPositive) ∨
    (∃ value ∈ quote.ask, ¬value.isPositive) ∨
    ∃ bid ∈ quote.bid, ∃ ask ∈ quote.ask, ask.scaled < bid.scaled) invalid

/-- `exact_midpoint_quotes`. -/
def exactMidpointQuotes (snapshot : DataSnapshot) (valuationAt : MarketTime) (priceUnit : UnitRef)
    (decoded : List CanonicalQuote) :
    Except ApplicationError (VersionRef → Option CanonicalQuote) :=
  latestQuotes checkMidpoint snapshot valuationAt priceUnit decoded

/-- `exact_request_quotes`. -/
def exactRequestQuotes (snapshot : DataSnapshot) (bindings : PriceBindings)
    (decoded : List CanonicalQuote) :
    Except ApplicationError (VersionRef → Option CanonicalQuote) :=
  latestQuotes checkRequest snapshot bindings.valuationAt bindings.priceUnit decoded

/-! ### One pass -/

/-- A missing value is refused as invalid. -/
theorem orInvalid_error {α : Type} {value : Option α} {error : ApplicationError}
    (h : orInvalid value = .error error) : error = invalid := by
  cases value with
  | none => exact (Except.error.inj h).symm
  | some a => cases h

/-- A midpoint that cannot be formed is refused as invalid. -/
theorem exactMidpoint_error {quote : CanonicalQuote} {error : ApplicationError}
    (h : exactMidpoint quote = .error error) : error = invalid := by
  rcases bind_eq_error.mp h with h | ⟨bid, -, h⟩
  · exact orInvalid_error h
  rcases bind_eq_error.mp h with h | ⟨ask, -, h⟩
  · exact orInvalid_error h
  rcases bind_eq_error.mp h with h | ⟨sum, -, h⟩
  · exact mapError_const_error h
  rcases bind_eq_error.mp h with h | ⟨-, -, h⟩
  · exact rejectIf_error h
  · exact mapError_const_error h

/-- A midpoint that does not check is refused as invalid. -/
theorem checkMidpoint_error {quote : CanonicalQuote} {error : ApplicationError}
    (h : checkMidpoint quote = .error error) : error = invalid := by
  rcases bind_eq_error.mp h with h | ⟨bid, -, h⟩
  · exact orInvalid_error h
  rcases bind_eq_error.mp h with h | ⟨ask, -, h⟩
  · exact orInvalid_error h
  rcases bind_eq_error.mp h with h | ⟨-, -, h⟩
  · exact rejectIf_error h
  rcases bind_eq_error.mp h with h | ⟨-, -, h⟩
  · exact exactMidpoint_error h
  · cases h

/-- A quote that does not check is refused as invalid. -/
theorem checkRequest_error {quote : CanonicalQuote} {error : ApplicationError}
    (h : checkRequest quote = .error error) : error = invalid := rejectIf_error h

section Choice

variable (checkPrices : CanonicalQuote → Except ApplicationError Unit) (snapshot : DataSnapshot)
  (valuationAt : MarketTime) (priceUnit : UnitRef)

/-- A quote that fails the whole choice. -/
def Rejected (quote : CanonicalQuote) : Prop :=
  Malformed snapshot quote ∨
    ¬Skipped snapshot valuationAt priceUnit quote ∧ checkPrices quote ≠ .ok ()

/-- The quotes that are compared. -/
def admissible (decoded : List CanonicalQuote) : List CanonicalQuote :=
  decoded.filter fun quote => ¬Skipped snapshot valuationAt priceUnit quote

variable {checkPrices snapshot valuationAt priceUnit} {decoded : List CanonicalQuote}
  (hinvalid : ∀ {quote error}, checkPrices quote = .error error → error = invalid)

include hinvalid

/-- **A rejected quote fails the choice**, wherever it stands. -/
theorem latestQuotes_of_rejected
    (h : ∃ quote ∈ decoded, Rejected checkPrices snapshot valuationAt priceUnit quote) :
    latestQuotes checkPrices snapshot valuationAt priceUnit decoded = .error invalid := by
  rcases hrun : latestQuotes checkPrices snapshot valuationAt priceUnit decoded with error | quotes
  · -- every step fails with the one error
    obtain ⟨done, quote, rest, kept, -, -, hstep⟩ := foldlM_error hrun
    congr 1
    rcases bind_eq_error.mp hstep with hstep | ⟨-, -, hstep⟩
    · exact rejectIf_error hstep
    split at hstep
    · cases hstep
    rcases bind_eq_error.mp hstep with hstep | ⟨-, -, hstep⟩
    · exact hinvalid hstep
    unfold keepGreatest at hstep
    split at hstep
    · cases hstep
    · split at hstep
      · cases hstep
      · exact (Except.error.inj hstep).symm
      · cases hstep
  · -- no step of a pass that succeeds meets a rejected quote
    exfalso
    obtain ⟨quote, hmem, hrejected⟩ := h
    refine foldlM_induction (motive := fun done _ => ∀ quote ∈ done,
      ¬Rejected checkPrices snapshot valuationAt priceUnit quote) (by simp) ?_ hrun quote hmem
      hrejected
    intro done last kept kept' ih hstep other hother
    rcases List.mem_append.mp hother with hother | hother
    · exact ih other hother
    rw [List.mem_singleton.mp hother]
    obtain ⟨⟨⟩, hwell, hstep⟩ := bind_eq_ok.mp hstep
    rw [rejectIf_eq_ok] at hwell
    rintro (hmalformed | ⟨hadmissible, hprices⟩)
    · exact hwell hmalformed
    · rw [if_neg hadmissible] at hstep
      obtain ⟨⟨⟩, hchecked, -⟩ := bind_eq_ok.mp hstep
      exact hprices hchecked

omit hinvalid in
/-- **Without a rejected quote** the pass keeps the greatest admissible quote of each instrument. -/
theorem latestQuotes_of_accepted
    (h : ∀ quote ∈ decoded, ¬Rejected checkPrices snapshot valuationAt priceUnit quote) :
    latestQuotes checkPrices snapshot valuationAt priceUnit decoded =
      runGreatest CanonicalQuote.instrument CanonicalQuote.times invalid
        (admissible snapshot valuationAt priceUnit decoded) := by
  unfold latestQuotes runGreatest admissible
  rw [List.foldlM_filter]
  generalize (fun _ => none : VersionRef → Option CanonicalQuote) = kept
  induction decoded generalizing kept with
  | nil => rfl
  | cons quote rest ih =>
    have haccepted := h quote (.head _)
    unfold Rejected at haccepted
    rw [not_or, not_and, not_not] at haccepted
    obtain ⟨hwell, hprices⟩ := haccepted
    rw [List.foldlM_cons, List.foldlM_cons, rejectIf_of_not hwell, ok_bind]
    by_cases hskipped : Skipped snapshot valuationAt priceUnit quote
    · rw [if_pos hskipped, decide_eq_false (not_not.mpr hskipped)]
      exact ih (fun other hother => h other (.tail _ hother)) kept
    · rw [if_neg hskipped, decide_eq_true hskipped, hprices hskipped, ok_bind]
      refine bind_congr fun kept' => ?_
      exact ih (fun other hother => h other (.tail _ hother)) kept'

/-! ### The order of the quotes -/

omit hinvalid in
/-- Whether some quote is rejected does not depend on the order. -/
theorem rejected_perm {other : List CanonicalQuote} (hperm : decoded.Perm other) :
    (∃ quote ∈ other, Rejected checkPrices snapshot valuationAt priceUnit quote) ↔
      ∃ quote ∈ decoded, Rejected checkPrices snapshot valuationAt priceUnit quote := by
  simp only [hperm.mem_iff]

variable (snapshot valuationAt priceUnit) in
omit hinvalid in
/-- **What a choice of prices is for.**  It does not depend on the order of the quotes; the quote of
    an instrument is the only latest one; and without a rejected quote it fails only when the latest
    quotes of some instrument are of the same times. -/
def ChoosesLatest (checkPrices : CanonicalQuote → Except ApplicationError Unit)
    (choose : List CanonicalQuote → Except ApplicationError (VersionRef → Option CanonicalQuote))
    (decoded : List CanonicalQuote) : Prop :=
  (∀ other, decoded.Perm other → choose other = choose decoded) ∧
    (∀ quotes, choose decoded = .ok quotes →
      (∀ instrument quote, quotes instrument = some quote → quote.instrument = instrument ∧
        UniqueGreatest CanonicalQuote.instrument CanonicalQuote.times
          (admissible snapshot valuationAt priceUnit decoded) quote) ∧
      ∀ instrument, quotes instrument = none →
        ∀ quote ∈ admissible snapshot valuationAt priceUnit decoded, quote.instrument ≠ instrument) ∧
    ∀ error, choose decoded = .error error →
      (∃ quote ∈ decoded, Rejected checkPrices snapshot valuationAt priceUnit quote) ∨
        GreatestShared CanonicalQuote.instrument CanonicalQuote.times
          (admissible snapshot valuationAt priceUnit decoded)

variable (checkPrices snapshot valuationAt priceUnit decoded) in
omit hinvalid in
/-- When the order of the quotes does not matter: a quote is rejected anyway, the latest quotes of an
    instrument are of the same times, or no two of its quotes are. -/
def OrderIrrelevant : Prop :=
  (∃ quote ∈ decoded, Rejected checkPrices snapshot valuationAt priceUnit quote) ∨
    GreatestShared CanonicalQuote.instrument CanonicalQuote.times
      (admissible snapshot valuationAt priceUnit decoded) ∨
    RanksDistinct CanonicalQuote.instrument CanonicalQuote.times
      (admissible snapshot valuationAt priceUnit decoded)

/-- **When a choice of prices does what it is for**: two quotes of the same times that are not the
    latest fail the choice in some orders only. -/
theorem choosesLatest_iff :
    ChoosesLatest snapshot valuationAt priceUnit checkPrices
        (latestQuotes checkPrices snapshot valuationAt priceUnit) decoded ↔
      OrderIrrelevant checkPrices snapshot valuationAt priceUnit decoded := by
  unfold OrderIrrelevant
  by_cases hrejected : ∃ quote ∈ decoded, Rejected checkPrices snapshot valuationAt priceUnit quote
  · refine iff_of_true ⟨fun other hperm => ?_, fun quotes hok => ?_, fun _ _ => .inl hrejected⟩
      (.inl hrejected)
    · rw [latestQuotes_of_rejected hinvalid hrejected,
        latestQuotes_of_rejected hinvalid ((rejected_perm hperm).mpr hrejected)]
    · rw [latestQuotes_of_rejected hinvalid hrejected] at hok
      cases hok
  · have haccepted : ∀ {other : List CanonicalQuote}, decoded.Perm other →
        latestQuotes checkPrices snapshot valuationAt priceUnit other =
          runGreatest CanonicalQuote.instrument CanonicalQuote.times invalid
            (admissible snapshot valuationAt priceUnit other) := by
      intro other hperm
      refine latestQuotes_of_accepted fun quote hmem hquote => hrejected ?_
      exact (rejected_perm hperm).mp ⟨quote, hmem, hquote⟩
    have hself := haccepted (List.Perm.refl decoded)
    rw [or_iff_right hrejected, ← runGreatest_perm_iff invalid]
    constructor
    · rintro ⟨horder, -, herror⟩
      refine ⟨fun rows hrows => ?_, fun error hfailed => ?_⟩
      · -- the admissible quotes in another order, and then the others
        have hperm : decoded.Perm
            (rows ++ decoded.filter fun quote => Skipped snapshot valuationAt priceUnit quote) := by
          refine (List.filter_append_perm
            (fun quote => decide (¬Skipped snapshot valuationAt priceUnit quote))
            decoded).symm.trans ?_
          simp only [decide_not, Bool.not_not]
          exact (by simpa [admissible] using hrows : List.Perm _ rows).append_right _
        have hall : ∀ quote ∈ rows, ¬Skipped snapshot valuationAt priceUnit quote := by
          intro quote hmem
          have hquote := hrows.mem_iff.mpr hmem
          exact of_decide_eq_true (List.mem_filter.mp hquote).2
        have hrest : admissible snapshot valuationAt priceUnit
            (rows ++ decoded.filter fun quote => Skipped snapshot valuationAt priceUnit quote) =
              rows := by
          unfold admissible
          rw [List.filter_append, List.filter_eq_self.mpr fun quote hmem =>
            decide_eq_true (hall quote hmem), List.filter_filter]
          simp
        have hsame := horder _ hperm
        rw [haccepted hperm, hself, hrest] at hsame
        exact hsame
      · rw [← hself] at hfailed
        exact (herror error hfailed).resolve_left hrejected
    · rintro ⟨horder, herror⟩
      refine ⟨fun other hperm => ?_, fun quotes hok => ?_, fun error hfailed => ?_⟩
      · rw [haccepted hperm, hself]
        exact horder _ (hperm.filter _)
      · rw [hself] at hok
        exact runGreatest_ok hok
      · rw [hself] at hfailed
        exact .inr (herror error hfailed)

end Choice

end Ficant.Futures
