import Ficant.Analytics.Errors
import Ficant.Application.FingerprintBinding
import Ficant.Futures.DeliverableInput
import Ficant.Futures.Quotes

namespace Ficant.Futures

open Lib Analytics Fingerprint

/-!
# Delivery baskets

The bonds that can be delivered into one contract are calculated one by one, and the cheapest of them
is selected (`CalculateFuturesDeliveryBasket` in
`ficant-application/src/use_cases/futures_delivery.rs`).

* `CalculateFuturesDeliveryBasket.execute` — with an engine for one bond;
* `execute_eq_ok` — what is calculated;
* `execute_perm` — the order of the bonds does not matter.
-/

/-- `FuturesDeliveryEngine::calculate`. -/
abbrev FuturesDeliveryEngine := FuturesDeliverableInput → Except AnalyticsError FuturesDeliveryResult

/-- The identity that a basket holds one candidate of. -/
def FuturesDeliveryResult.bondId (result : FuturesDeliveryResult) : Ulid :=
  result.input.bond.versionRef.id

/-- `FuturesDeliveryBasketResult`. -/
structure FuturesDeliveryBasketResult where
  candidates : List FuturesDeliveryResult
  ctdIndex : ℕ
  index_lt : ctdIndex < candidates.length
  bonds_distinct : (candidates.map FuturesDeliveryResult.bondId).Nodup
  deriving DecidableEq

/-- `FuturesDeliveryBasketResult::new`. -/
def FuturesDeliveryBasketResult.new (candidates : List FuturesDeliveryResult) (ctdIndex : ℕ) :
    Except DomainErrorCode FuturesDeliveryBasketResult :=
  if h : ctdIndex < candidates.length ∧ (candidates.map FuturesDeliveryResult.bondId).Nodup then
    .ok ⟨candidates, ctdIndex, h.1, h.2⟩
  else .error .invalidValue

/-- `ctd`. -/
def FuturesDeliveryBasketResult.ctd (self : FuturesDeliveryBasketResult) : FuturesDeliveryResult :=
  self.candidates.get ⟨self.ctdIndex, self.index_lt⟩

/-- The comparison of `select_ctd`. -/
def cheaper (candidate incumbent : FuturesDeliveryResult) : Bool :=
  incumbent.measures.impliedRepoRate.scaled < candidate.measures.impliedRepoRate.scaled ||
    candidate.measures.impliedRepoRate.scaled = incumbent.measures.impliedRepoRate.scaled &&
      (candidate.measures.netBasis.scaled < incumbent.measures.netBasis.scaled ||
        candidate.measures.netBasis.scaled = incumbent.measures.netBasis.scaled &&
          candidate.bondId < incumbent.bondId)

/-- `select_ctd`. -/
def selectCtd (candidates : List FuturesDeliveryResult) : ℕ := bestIndex cheaper candidates

/-- The two inputs differ in the bond and its price only. -/
def SameContract (input first : FuturesDeliverableInput) : Prop :=
  input.owner = first.owner ∧ input.futuresContract = first.futuresContract ∧
    input.rulePack = first.rulePack ∧ input.snapshot = first.snapshot ∧
    input.valuationAt = first.valuationAt ∧ input.purchaseDate = first.purchaseDate ∧
    input.deliveryMonthFirst = first.deliveryMonthFirst ∧
    input.deliveryDate = first.deliveryDate ∧ input.product = first.product ∧
    input.rule = first.rule ∧ input.futuresCleanPrice = first.futuresCleanPrice ∧
    input.financingRate = first.financingRate

instance (input first : FuturesDeliverableInput) : Decidable (SameContract input first) :=
  inferInstanceAs (Decidable (_ ∧ _ ∧ _ ∧ _ ∧ _ ∧ _ ∧ _ ∧ _ ∧ _ ∧ _ ∧ _ ∧ _))

namespace CalculateFuturesDeliveryBasket

/-- One candidate. -/
def calculate (engine : FuturesDeliveryEngine) (input : FuturesDeliverableInput) :
    Except ApplicationError FuturesDeliveryResult := do
  let result ← (engine input).mapError mapAnalyticsError
  (result.validateAgainst input).mapError mapDomainError
  return result

/-- `execute`. -/
def execute (engine : FuturesDeliveryEngine) (inputs : List FuturesDeliverableInput) :
    Except ApplicationError FuturesDeliveryBasketResult :=
  match inputs with
  | [] => .error (mapDomainError .invalidValue)
  | first :: rest => do
    rejectIf (∃ input ∈ rest, ¬SameContract input first) (mapDomainError .brokenLineage)
    let candidates ← (first :: rest).mapM (calculate engine)
    (FuturesDeliveryBasketResult.new candidates (selectCtd candidates)).mapError mapDomainError

end CalculateFuturesDeliveryBasket

/-! ### What is selected -/

/-- The order of the selection: the greatest implied repo, then the least net basis, then the least
    identity. -/
def FuturesDeliveryResult.order (result : FuturesDeliveryResult) : ℤᵒᵈ ×ₗ ℤ ×ₗ Ulid :=
  toLex (OrderDual.toDual result.measures.impliedRepoRate.scaled,
    toLex (result.measures.netBasis.scaled, result.bondId))

/-- A candidate is cheaper exactly when it comes earlier in the order. -/
theorem cheaper_iff (candidate incumbent : FuturesDeliveryResult) :
    cheaper candidate incumbent = true ↔ candidate.order < incumbent.order := by
  unfold cheaper FuturesDeliveryResult.order
  rw [Prod.Lex.toLex_lt_toLex, Prod.Lex.toLex_lt_toLex, OrderDual.toDual_lt_toDual,
    OrderDual.toDual_inj]
  simp only [Bool.or_eq_true, Bool.and_eq_true, decide_eq_true_eq]

/-- The order tells the candidates of a basket apart. -/
theorem FuturesDeliveryResult.bondId_eq_of_order {a b : FuturesDeliveryResult}
    (h : a.order = b.order) : a.bondId = b.bondId :=
  (Prod.mk.inj (toLex_inj.mp (Prod.mk.inj (toLex_inj.mp h)).2)).2

namespace CalculateFuturesDeliveryBasket

variable {engine : FuturesDeliveryEngine} {inputs other : List FuturesDeliverableInput}

/-- Being about one contract is symmetric. -/
theorem sameContract_symm {a b : FuturesDeliverableInput} (h : SameContract a b) :
    SameContract b a := by
  obtain ⟨h₁, h₂, h₃, h₄, h₅, h₆, h₇, h₈, h₉, h₁₀, h₁₁, h₁₂⟩ := h
  exact ⟨h₁.symm, h₂.symm, h₃.symm, h₄.symm, h₅.symm, h₆.symm, h₇.symm, h₈.symm, h₉.symm, h₁₀.symm,
    h₁₁.symm, h₁₂.symm⟩

/-- Being about one contract is transitive. -/
theorem sameContract_trans {a b c : FuturesDeliverableInput} (h : SameContract a b)
    (h' : SameContract b c) : SameContract a c := by
  unfold SameContract at *
  simp only [h, h', and_self]

/-- A result is accepted when the engine gives it for that input. -/
theorem calculate_eq_ok {input : FuturesDeliverableInput} {result : FuturesDeliveryResult} :
    calculate engine input = .ok result ↔ engine input = .ok result ∧ result.input = input := by
  unfold calculate
  rw [bind_eq_ok]
  simp only [mapError_eq_ok]
  constructor
  · rintro ⟨calculated, hengine, h⟩
    obtain ⟨⟨⟩, hinput, h⟩ := bind_eq_ok.mp h
    obtain rfl := Except.ok.inj h
    rw [mapError_eq_ok, FuturesDeliveryResult.validateAgainst, rejectIf_eq_ok, not_not] at hinput
    exact ⟨hengine, hinput⟩
  · rintro ⟨hengine, hinput⟩
    refine ⟨result, hengine, bind_eq_ok.mpr ⟨(), ?_, rfl⟩⟩
    rw [mapError_eq_ok, FuturesDeliveryResult.validateAgainst, rejectIf_eq_ok, not_not]
    exact hinput

/-- **What is calculated**: the inputs are of one contract, each candidate is the engine's for its
    input, no bond occurs twice, and the index is the selected one. -/
theorem execute_eq_ok {basket : FuturesDeliveryBasketResult} :
    execute engine inputs = .ok basket ↔
      (∀ a ∈ inputs, ∀ b ∈ inputs, SameContract a b) ∧
        List.Forall₂ (fun input result => engine input = .ok result ∧ result.input = input) inputs
          basket.candidates ∧ basket.ctdIndex = selectCtd basket.candidates := by
  cases inputs with
  | nil =>
    refine iff_of_false (fun h => nomatch h) ?_
    rintro ⟨-, hcandidates, -⟩
    have hlt := basket.index_lt
    rw [List.forall₂_nil_left_iff.mp hcandidates] at hlt
    exact Nat.not_lt_zero _ hlt
  | cons first rest =>
    -- Comparing every input with the first one compares them all pairwise.
    have hsame : (¬∃ input ∈ rest, ¬SameContract input first) ↔
        ∀ a ∈ first :: rest, ∀ b ∈ first :: rest, SameContract a b := by
      constructor
      · intro h
        have hfirst : ∀ a ∈ first :: rest, SameContract a first := by
          intro a ha
          rcases List.mem_cons.mp ha with rfl | ha
          · simp [SameContract]
          · exact not_not.mp fun hne => h ⟨a, ha, hne⟩
        intro a ha b hb
        exact sameContract_trans (hfirst a ha) (sameContract_symm (hfirst b hb))
      · rintro h ⟨input, hmem, hne⟩
        exact hne (h input (.tail _ hmem) first (.head _))
    show (rejectIf _ _ >>= fun _ => _) = _ ↔ _
    rw [bind_eq_ok, ← hsame]
    simp only [rejectIf_eq_ok]
    constructor
    · rintro ⟨-, hcontract, h⟩
      -- The engine is asked once for each input, in order.
      obtain ⟨candidates, hcandidates, h⟩ := bind_eq_ok.mp h
      rw [mapM_eq_ok] at hcandidates
      simp only [calculate_eq_ok] at hcandidates
      rw [mapError_eq_ok] at h
      unfold FuturesDeliveryBasketResult.new at h
      split at h
      · obtain rfl := Except.ok.inj h
        exact ⟨hcontract, hcandidates, rfl⟩
      · cases h
    · rintro ⟨hcontract, hcandidates, hindex⟩
      refine ⟨(), hcontract, bind_eq_ok.mpr ⟨basket.candidates, ?_, ?_⟩⟩
      · rw [mapM_eq_ok]
        simpa only [calculate_eq_ok] using hcandidates
      · rw [mapError_eq_ok, FuturesDeliveryBasketResult.new,
          dif_pos ⟨hindex ▸ basket.index_lt, basket.bonds_distinct⟩]
        congr 1
        obtain ⟨_, _, _, _⟩ := basket
        simp only [FuturesDeliveryBasketResult.mk.injEq, true_and]
        exact hindex.symm

/-- The selected candidate comes first in the order of the selection. -/
theorem ctd_least {basket : FuturesDeliveryBasketResult} (h : execute engine inputs = .ok basket) :
    basket.ctd ∈ basket.candidates ∧ ∀ result ∈ basket.candidates,
    basket.ctd.order ≤ result.order := by
  refine ⟨List.getElem_mem _, ?_⟩
  have hne : basket.candidates ≠ [] := by
    intro hnil
    have hlt := basket.index_lt
    rw [hnil] at hlt
    exact Nat.not_lt_zero _ hlt
  obtain ⟨_, hleast⟩ := bestIndex_spec cheaper_iff hne
  intro result hresult
  have hindex : basket.ctdIndex = bestIndex cheaper basket.candidates := (execute_eq_ok.mp h).2.2
  unfold FuturesDeliveryBasketResult.ctd
  simp only [hindex]
  exact hleast result hresult

/-- **The order of the bonds does not matter**: in another order the calculation succeeds too, and the
    same candidate is selected. -/
theorem execute_perm {basket : FuturesDeliveryBasketResult} (hperm : inputs.Perm other)
    (h : execute engine inputs = .ok basket) :
    ∃ basket', execute engine other = .ok basket' ∧ basket'.ctd = basket.ctd := by
  obtain ⟨hcontract, hcandidates, -⟩ := execute_eq_ok.mp h
  -- the candidates of the other order
  obtain ⟨candidates, hother, hsame⟩ := List.perm_comp_forall₂ hperm.symm hcandidates
  have hdistinct : (candidates.map FuturesDeliveryResult.bondId).Nodup :=
    (hsame.map _).nodup_iff.mpr basket.bonds_distinct
  have hne : candidates ≠ [] := by
    rintro rfl
    have hlt := basket.index_lt
    rw [hsame.nil_eq.symm] at hlt
    exact Nat.not_lt_zero _ hlt
  obtain ⟨hlt, -⟩ := bestIndex_spec cheaper_iff hne
  let basket' : FuturesDeliveryBasketResult := ⟨candidates, selectCtd candidates, hlt, hdistinct⟩
  have hexecute : execute engine other = .ok basket' := by
    refine execute_eq_ok.mpr ⟨fun a ha b hb => ?_, hother, rfl⟩
    exact hcontract a (hperm.mem_iff.mpr ha) b (hperm.mem_iff.mpr hb)
  refine ⟨basket', hexecute, ?_⟩
  -- both selected candidates come first
  obtain ⟨hmem, hleast⟩ := ctd_least h
  obtain ⟨hmem', hleast'⟩ := ctd_least hexecute
  have horder : basket'.ctd.order = basket.ctd.order :=
    le_antisymm (hleast' _ (hsame.mem_iff.mpr hmem)) (hleast _ (hsame.mem_iff.mp hmem'))
  exact List.inj_on_of_nodup_map basket.bonds_distinct (hsame.mem_iff.mp hmem') hmem
    (FuturesDeliveryResult.bondId_eq_of_order horder)

variable (engine inputs) in
/-- **What a basket is for.**  In every order of the bonds it succeeds or in none, with the same
    selected candidate, which comes first in the order of the selection. -/
def SelectsCheapest : Prop :=
  (∀ other, inputs.Perm other →
    ((∃ basket, execute engine other = .ok basket) ↔ ∃ basket, execute engine inputs = .ok basket)) ∧
    ∀ basket, execute engine inputs = .ok basket →
      (basket.ctd ∈ basket.candidates ∧ ∀ result ∈ basket.candidates,
        basket.ctd.order ≤ result.order) ∧
        ∀ other basket', inputs.Perm other → execute engine other = .ok basket' →
          basket'.ctd = basket.ctd

/-- The basket selects the first of the candidates in their order. -/
theorem selectsCheapest (engine : FuturesDeliveryEngine) (inputs : List FuturesDeliverableInput) :
    SelectsCheapest engine inputs := by
  refine ⟨fun other hperm => ⟨?_, ?_⟩, fun basket h => ⟨ctd_least h, ?_⟩⟩
  · rintro ⟨basket, h⟩
    obtain ⟨basket', h', -⟩ := execute_perm hperm.symm h
    exact ⟨basket', h'⟩
  · rintro ⟨basket, h⟩
    obtain ⟨basket', h', -⟩ := execute_perm hperm h
    exact ⟨basket', h'⟩
  · intro other basket' hperm h'
    obtain ⟨found, hfound, hctd⟩ := execute_perm hperm h
    obtain rfl := Except.ok.inj (hfound.symm.trans h')
    exact hctd

end CalculateFuturesDeliveryBasket

/-! ### Prices and the cheapest bond -/

section Choice

variable (snapshot : DataSnapshot) (valuationAt : MarketTime) (priceUnit : UnitRef)
  (bindings : PriceBindings) (decoded : List CanonicalQuote) (engine : FuturesDeliveryEngine)
  (inputs : List FuturesDeliverableInput)

/-- Neither the prices nor the cheapest bond depends on an order. -/
def ChoicesOrderIndependent : Prop :=
  ChoosesLatest snapshot valuationAt priceUnit checkMidpoint
      (exactMidpointQuotes snapshot valuationAt priceUnit) decoded ∧
    ChoosesLatest snapshot bindings.valuationAt bindings.priceUnit checkRequest
      (exactRequestQuotes snapshot bindings) decoded ∧
    CalculateFuturesDeliveryBasket.SelectsCheapest engine inputs

/-- **When neither the prices nor the cheapest bond depends on an order.**  The bonds never do; the
    quotes do when two of one instrument have the same times and a later one is there. -/
theorem choices_order_independent_iff :
    ChoicesOrderIndependent snapshot valuationAt priceUnit bindings decoded engine inputs ↔
      OrderIrrelevant checkMidpoint snapshot valuationAt priceUnit decoded ∧
        OrderIrrelevant checkRequest snapshot bindings.valuationAt bindings.priceUnit decoded := by
  have hmidpoint : ChoosesLatest snapshot valuationAt priceUnit checkMidpoint
      (exactMidpointQuotes snapshot valuationAt priceUnit) decoded ↔ _ :=
    choosesLatest_iff @checkMidpoint_error
  have hrequest : ChoosesLatest snapshot bindings.valuationAt bindings.priceUnit checkRequest
      (exactRequestQuotes snapshot bindings) decoded ↔ _ := choosesLatest_iff @checkRequest_error
  have hbasket := CalculateFuturesDeliveryBasket.selectsCheapest engine inputs
  constructor
  · rintro ⟨hfirst, hsecond, -⟩
    exact ⟨hmidpoint.mp hfirst, hrequest.mp hsecond⟩
  · rintro ⟨hfirst, hsecond⟩
    exact ⟨hmidpoint.mpr hfirst, hrequest.mpr hsecond, hbasket⟩

end Choice

/-- A quote of the samples. -/
def sampleQuote (observedAt : MarketTime) (price : FixedDecimal) : CanonicalQuote :=
  ⟨sampleRef, observedAt, observedAt, observedAt.localTradingDate, some price, some price,
    ⟨⟨1⟩, .first⟩⟩

/-- A second later. -/
def laterTime : MarketTime := sampleInstant 60 (by decide) (by decide)

/-- A snapshot that knows both times. -/
def sampleSnapshot : DataSnapshot :=
  ⟨⟨3⟩, sampleOwner, laterTime, laterTime, sampleHash, sampleHash, sampleHash, [sampleLineage]⟩

/-- A calculation at the earlier time. -/
def sampleBindings : PriceBindings := ⟨sampleTime, ⟨⟨1⟩, .first⟩⟩

/-- Two quotes of the same times, and the latest one. -/
def supersededTie : List CanonicalQuote :=
  [sampleQuote sampleTime FixedDecimal.one, sampleQuote sampleTime (.ofScaled 3000000000000),
    sampleQuote laterTime FixedDecimal.one]

/-- The latest quote last, the choice fails; the latest first, it does not. -/
theorem superseded_tie_fails : ¬∃ engine, ChoicesOrderIndependent sampleSnapshot
    sampleBindings.valuationAt sampleBindings.priceUnit sampleBindings supersededTie engine [] := by
  rintro ⟨engine, ⟨horder, -⟩, -⟩
  have hsame : (exactMidpointQuotes sampleSnapshot sampleBindings.valuationAt
      sampleBindings.priceUnit supersededTie.reverse).toOption.isSome =
      (exactMidpointQuotes sampleSnapshot
        sampleBindings.valuationAt sampleBindings.priceUnit supersededTie).toOption.isSome := by
    rw [horder supersededTie.reverse (List.reverse_perm _).symm]
  clear horder
  revert hsame
  clear engine
  decide

end Ficant.Futures
