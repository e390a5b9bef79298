import Ficant.Overview.Averages

namespace Ficant.Overview

open Lib

/-!
# Weighted averages are exact

What `weighted_averages` returns is the exact mean of each measure, rounded once at its output scale.

* `weightedAverages_eq_ok_iff` — the results in terms of the weights, whose common divisors only decide
  what overflows;
* `weightedAverages_error_iff` — what fails is a unit, the sign of a weight or the size of a number;
* `weighted_averages_exact` — so neither the order of the positions nor a common factor of the weights
  matters, and each result lies between the rounded inputs.
-/

/-! ### What a result is -/

namespace WeightedMetric

/-- The common divisor of the weights. -/
def divisor (metric : WeightedMetric) (l : List Participant) : ℤ :=
  Multiset.gcd ((l.map metric.rawWeight : List ℤ) : Multiset ℤ)

/-- The weights without their common divisor, and the values. -/
def terms (metric : WeightedMetric) (l : List Participant) : List (ℤ × FixedDecimal) :=
  l.map fun p => (metric.rawWeight p / metric.divisor l, metric.value p.2)

/-- The numerator of an average. -/
def numerator (metric : WeightedMetric) (l : List Participant) : ℤ :=
  RawWeightedAverage.products (metric.terms l)

/-- The denominator of an average. -/
def denominator (metric : WeightedMetric) (l : List Participant) : ℤ :=
  RawWeightedAverage.weights (metric.terms l)

end WeightedMetric

/-- What the positions of an average must be. -/
structure Admissible (units : PortfolioWeightedMetricUnits) (l : List Participant) : Prop where
  nonempty : l ≠ []
  sameUnits : ∀ p ∈ l, p.2.units = units
  market : ∀ p ∈ l, 0 < p.1.market.scaled
  notional : ∀ p ∈ l, 0 < p.1.signedNotional.scaled
  products : ∀ p ∈ l, InI128 (p.1.market.scaled * p.2.modifiedDuration.scaled)
  numerators : ∀ metric : WeightedMetric, InI128 (metric.numerator l)
  denominators : ∀ metric : WeightedMetric, InI128 (metric.denominator l)

/-- Every weight is positive. -/
theorem rawWeight_pos {l : List Participant} (hmarket : ∀ p ∈ l, 0 < p.1.market.scaled)
    (hnotional : ∀ p ∈ l, 0 < p.1.signedNotional.scaled) (metric : WeightedMetric) :
    ∀ p ∈ l, 0 < metric.rawWeight p := by
  intro p hp
  cases metric with
  | ytm => exact mul_pos (hmarket p hp) p.2.positive.2.1
  | duration => exact hmarket p hp
  | convexity => exact hmarket p hp
  | couponRate => exact hnotional p hp
  | remainingYears => exact hnotional p hp

/-- The divisor of positive weights is positive. -/
theorem divisor_pos {l : List Participant} {metric : WeightedMetric} (hne : l ≠ [])
    (hpos : ∀ p ∈ l, 0 < metric.rawWeight p) : 0 < metric.divisor l := by
  apply gcd_pos_of_pos
  · rwa [ne_eq, List.map_eq_nil_iff]
  · intro v hv
    obtain ⟨p, hp, rfl⟩ := List.mem_map.mp hv
    exact hpos p hp

/-- The divisor divides every weight. -/
theorem divisor_dvd {l : List Participant} {metric : WeightedMetric} {p : Participant} (hp : p ∈ l) :
    metric.divisor l ∣ metric.rawWeight p :=
  Multiset.gcd_dvd (List.mem_map_of_mem hp)

/-- Every reduced weight is positive. -/
theorem weight_pos {l : List Participant} {metric : WeightedMetric} (hne : l ≠ [])
    (hpos : ∀ p ∈ l, 0 < metric.rawWeight p) {p : Participant} (hp : p ∈ l) :
    0 < metric.rawWeight p / metric.divisor l :=
  Int.ediv_pos_of_pos_of_dvd (hpos p hp) (divisor_pos hne hpos).le (divisor_dvd hp)

/-- The raw weights of a position. -/
def rawOf (p : Participant) : RawWeightedPosition :=
  ⟨p.1.market.scaled, p.1.signedNotional.scaled, p.1.market.scaled * p.2.modifiedDuration.scaled, p.2⟩

/-- A metric reads from the raw position what it reads from the participant. -/
@[simp] theorem ofRaw_rawOf (metric : WeightedMetric) (p : Participant) :
    metric.ofRaw (rawOf p) = metric.rawWeight p := by
  cases metric <;> rfl

/-- A raw position is built from matching units, a positive market value and a product in range. -/
theorem rawWeightedPosition_eq_ok {units : PortfolioWeightedMetricUnits} {p : Participant}
    {position : RawWeightedPosition} :
    rawWeightedPosition units p = .ok position ↔ (p.2.units = units ∧ 0 < p.1.market.scaled ∧
      InI128 (p.1.market.scaled * p.2.modifiedDuration.scaled)) ∧ position = rawOf p := by
  have hduration := p.2.positive.2.1
  unfold rawWeightedPosition checkedRawProduct
  rw [p.1.decimalToFixed_marketValue]
  constructor
  · intro h
    obtain ⟨⟨⟩, hunits, h⟩ := bind_eq_ok.mp h
    rw [ok_bind] at h
    obtain ⟨product, hproduct, h⟩ := bind_eq_ok.mp h
    obtain ⟨⟨⟩, hpos, hproduct⟩ := bind_eq_ok.mp hproduct
    rw [rejectIf_eq_ok, not_not] at hunits
    rw [rejectIf_eq_ok] at hpos
    obtain ⟨hrange, rfl⟩ := checkedI128_eq_ok.mp hproduct
    exact ⟨⟨hunits, by omega, hrange⟩, (Except.ok.inj h).symm⟩
  · rintro ⟨⟨hunits, hpos, hrange⟩, rfl⟩
    rw [rejectIf_of_not (not_not.mpr hunits), ok_bind, ok_bind, rejectIf_of_not (by omega), ok_bind,
      checkedI128_of_inI128 hrange]
    rfl

/-- The raw weights of all positions. -/
theorem mapM_rawWeightedPosition_eq_ok {units : PortfolioWeightedMetricUnits} {l : List Participant}
    {positions : List RawWeightedPosition} :
    l.mapM (rawWeightedPosition units) = .ok positions ↔ (∀ p ∈ l, p.2.units = units ∧
      0 < p.1.market.scaled ∧ InI128 (p.1.market.scaled * p.2.modifiedDuration.scaled)) ∧
      positions = l.map rawOf := by
  rw [mapM_eq_ok]
  induction l generalizing positions with
  | nil => simp
  | cons p l ih =>
    rw [List.forall₂_cons_left_iff, List.forall_mem_cons, List.map_cons]
    constructor
    · rintro ⟨position, rest, hp, hrest, rfl⟩
      obtain ⟨hgood, rfl⟩ := rawWeightedPosition_eq_ok.mp hp
      obtain ⟨hall, rfl⟩ := ih.mp hrest
      exact ⟨⟨hgood, hall⟩, rfl⟩
    · rintro ⟨⟨hgood, hall⟩, rfl⟩
      exact ⟨_, _, rawWeightedPosition_eq_ok.mpr ⟨hgood, rfl⟩, ih.mpr ⟨hall, rfl⟩, rfl⟩

/-- The divisors of all positions. -/
def divisorsOf (l : List Participant) : WeightDivisors :=
  ⟨WeightedMetric.duration.divisor l, WeightedMetric.couponRate.divisor l,
    WeightedMetric.ytm.divisor l⟩

/-- The terms of the loop are the weights without their common divisor. -/
theorem map_term {l : List Participant} {metric : WeightedMetric}
    (hpos : ∀ p ∈ l, 0 < metric.rawWeight p) :
    (l.map rawOf).map (metric.term (divisorsOf l)) = metric.terms l := by
  unfold WeightedMetric.terms
  rw [List.map_map]
  apply List.map_congr_left
  intro p hp
  have hdivisor : metric.divisorOf (divisorsOf l) = metric.divisor l := by
    cases metric <;> rfl
  show ((metric.ofRaw (rawOf p)).tdiv (metric.divisorOf (divisorsOf l)), metric.value p.2) = _
  rw [ofRaw_rawOf, hdivisor, Int.tdiv_eq_ediv_of_nonneg (hpos p hp).le]

/-- The five loops end in the numerators and the denominators. -/
theorem sums_eq_ok {l : List Participant} {metric : WeightedMetric} (hne : l ≠ [])
    (hpos : ∀ p ∈ l, 0 < metric.rawWeight p) {sum : RawWeightedAverage} :
    (metric.terms l).foldlM (fun (sum : RawWeightedAverage) p => sum.add p.1 p.2) ⟨0, 0⟩ = .ok sum ↔
      InI128 (metric.numerator l) ∧ InI128 (metric.denominator l) ∧
      sum = ⟨metric.numerator l, metric.denominator l⟩ := by
  have hvalues : ∀ p ∈ metric.terms l, 0 ≤ p.2.scaled := by
    intro p hp
    obtain ⟨q, -, rfl⟩ := List.mem_map.mp hp
    exact metric.value_nonneg q.2
  have hweights : ∀ p ∈ metric.terms l, 0 < p.1 := by
    intro p hp
    obtain ⟨q, hq, rfl⟩ := List.mem_map.mp hp
    exact weight_pos hne hpos hq
  rw [RawWeightedAverage.foldlM_add_eq_ok hvalues ⟨by decide, le_rfl⟩ ⟨by decide, le_rfl⟩, zero_add,
    zero_add]
  exact and_iff_right hweights

/-- **A result of `weighted_averages`**: the positions are admissible, and each average is what its
    numerator and its denominator make. -/
theorem weightedAverages_eq_ok_iff {l : List Participant} {outputScales : PortfolioMetricOutputScales}
    {result : WeightedAverages} :
    weightedAverages l outputScales = .ok result ↔ ∃ units, Admissible units l ∧
      ∀ metric : WeightedMetric, rationalWeightedAverageToDecimal (metric.numerator l)
        (metric.denominator l) (metric.outputScale outputScales) (metric.unit units) =
          .ok (result.get metric) := by
  cases l with
  | nil => exact iff_of_false (fun h => nomatch h) (fun ⟨_, h, _⟩ => h.nonempty rfl)
  | cons p rest =>
    have hne : p :: rest ≠ [] := List.cons_ne_nil p rest
    unfold weightedAverages
    simp only
    constructor
    · intro h
      obtain ⟨positions, hpositions, h⟩ := bind_eq_ok.mp h
      obtain ⟨hgood, rfl⟩ := mapM_rawWeightedPosition_eq_ok.mp hpositions
      obtain ⟨marketDivisor, hmarket, h⟩ := bind_eq_ok.mp h
      obtain ⟨notionalDivisor, hnotional, h⟩ := bind_eq_ok.mp h
      obtain ⟨ytmDivisor, hytm, h⟩ := bind_eq_ok.mp h
      rw [List.map_map] at hmarket hnotional hytm
      obtain ⟨-, -, rfl⟩ := commonPositiveDivisor_eq_ok.mp hmarket
      obtain ⟨-, hnotionalPos, rfl⟩ := commonPositiveDivisor_eq_ok.mp hnotional
      obtain ⟨-, -, rfl⟩ := commonPositiveDivisor_eq_ok.mp hytm
      have hmarketPos : ∀ q ∈ p :: rest, 0 < q.1.market.scaled := fun q hq => (hgood q hq).2.1
      have hnotionalPos : ∀ q ∈ p :: rest, 0 < q.1.signedNotional.scaled := fun q hq =>
        hnotionalPos _ (List.mem_map_of_mem hq)
      rw [List.map_cons] at h
      obtain ⟨first, hfirst, h⟩ := bind_eq_ok.mp h
      obtain ⟨sums, hsums, h⟩ := bind_eq_ok.mp h
      change RawWeightedAverages.new (divisorsOf (p :: rest)) (rawOf p) = .ok first at hfirst
      change (rest.map rawOf).foldlM (RawWeightedAverages.add p.2.units (divisorsOf (p :: rest)))
        first = .ok sums at hsums
      rw [RawWeightedAverages.new_eq_ok] at hfirst
      rw [foldlM_add_eq_ok] at hsums
      rw [intoDecimals_eq_ok] at h
      -- the first position and the others together make one loop
      have hloop : ∀ metric : WeightedMetric, InI128 (metric.numerator (p :: rest)) ∧
          InI128 (metric.denominator (p :: rest)) ∧
          sums.get metric = ⟨metric.numerator (p :: rest), metric.denominator (p :: rest)⟩ := by
        intro metric
        have hpos := rawWeight_pos hmarketPos hnotionalPos metric
        rw [← sums_eq_ok hne hpos, ← map_term hpos, List.map_cons, List.map_cons, List.foldlM_cons,
          hfirst metric, ok_bind]
        exact hsums.2 metric
      refine ⟨p.2.units, ⟨hne, fun q hq => (hgood q hq).1, hmarketPos, hnotionalPos,
        fun q hq => (hgood q hq).2.2, fun metric => (hloop metric).1,
        fun metric => (hloop metric).2.1⟩, ?_⟩
      intro metric
      have hresult := h metric
      rw [(hloop metric).2.2] at hresult
      exact hresult
    · rintro ⟨units, hadm, hresults⟩
      obtain rfl := hadm.sameUnits p List.mem_cons_self
      have hloop : ∀ metric : WeightedMetric, ((p :: rest).map rawOf |>.map
          (metric.term (divisorsOf (p :: rest)))).foldlM
            (fun (sum : RawWeightedAverage) p => sum.add p.1 p.2) ⟨0, 0⟩ =
          .ok ⟨metric.numerator (p :: rest), metric.denominator (p :: rest)⟩ := by
        intro metric
        have hpos := rawWeight_pos hadm.market hadm.notional metric
        rw [map_term hpos]
        exact (sums_eq_ok hne hpos).mpr ⟨hadm.numerators metric, hadm.denominators metric, rfl⟩
      have hsteps : ∀ metric : WeightedMetric, ∃ first,
          RawWeightedAverage.add ⟨0, 0⟩ (metric.term (divisorsOf (p :: rest)) (rawOf p)).1
            (metric.term (divisorsOf (p :: rest)) (rawOf p)).2 = .ok first ∧
          ((rest.map rawOf).map (metric.term (divisorsOf (p :: rest)))).foldlM
            (fun (sum : RawWeightedAverage) p => sum.add p.1 p.2) first =
          .ok ⟨metric.numerator (p :: rest), metric.denominator (p :: rest)⟩ := by
        intro metric
        have h := hloop metric
        rw [List.map_cons, List.map_cons, List.foldlM_cons] at h
        exact bind_eq_ok.mp h
      choose first hfirst hrest using hsteps
      have hpositions := mapM_rawWeightedPosition_eq_ok.mpr
        ⟨fun q hq => ⟨hadm.sameUnits q hq, hadm.market q hq, hadm.products q hq⟩, rfl⟩
      have hdivisor : ∀ (metric : WeightedMetric) (f : RawWeightedPosition → ℤ),
          f ∘ rawOf = metric.rawWeight →
          commonPositiveDivisor (((p :: rest).map rawOf).map f) =
          .ok (metric.divisor (p :: rest)) := by
        intro metric f hf
        rw [List.map_map, hf, commonPositiveDivisor_eq_ok]
        refine ⟨List.cons_ne_nil _ _, fun v hv => ?_, rfl⟩
        obtain ⟨q, hq, rfl⟩ := List.mem_map.mp hv
        exact rawWeight_pos hadm.market hadm.notional metric q hq
      rw [hpositions, ok_bind, hdivisor .duration _ rfl, ok_bind, hdivisor .couponRate _ rfl, ok_bind,
        hdivisor .ytm _ rfl, ok_bind, List.map_cons]
      refine bind_eq_ok.mpr ⟨RawWeightedAverages.ofGet first, ?_,
        bind_eq_ok.mpr ⟨RawWeightedAverages.ofGet
        fun metric => ⟨metric.numerator (p :: rest), metric.denominator (p :: rest)⟩, ?_, ?_⟩⟩
      · apply RawWeightedAverages.new_eq_ok.mpr
        intro metric
        rw [RawWeightedAverages.get_ofGet]
        exact hfirst metric
      · rw [foldlM_add_eq_ok, RawWeightedAverages.get_ofGet, RawWeightedAverages.get_ofGet]
        refine ⟨fun position hposition => ?_, hrest⟩
        obtain ⟨q, hq, rfl⟩ := List.mem_map.mp hposition
        exact hadm.sameUnits q (List.mem_cons_of_mem _ hq)
      · rw [intoDecimals_eq_ok, RawWeightedAverages.get_ofGet]
        exact hresults

/-! ### Exact means -/

/-- The exact mean of a measure. -/
def WeightedMetric.mean (metric : WeightedMetric) (l : List Participant) : ℚ :=
  weightedMean (l.map fun p => ((metric.rawWeight p : ℚ), (metric.value p.2).toRat))

/-- The numerator over the denominator is the mean: the common divisor cancels. -/
theorem numerator_div_denominator {l : List Participant} {metric : WeightedMetric} (hne : l ≠ [])
    (hpos : ∀ p ∈ l, 0 < metric.rawWeight p) :
    (metric.numerator l : ℚ) / metric.denominator l / 10 ^ 12 = metric.mean l := by
  have hdivisor := divisor_pos hne hpos
  have hdivisorQ : (metric.divisor l : ℚ) ≠ 0 := by exact_mod_cast hdivisor.ne'
  have hnumerator : (metric.numerator l : ℚ) =
    ((l.map fun p => (((metric.rawWeight p / metric.divisor l : ℤ) : ℚ),
      ((metric.value p.2).scaled : ℚ))).map fun q => q.1 * q.2).sum := by
    unfold WeightedMetric.numerator WeightedMetric.terms RawWeightedAverage.products
    rw [Int.cast_list_sum, List.map_map, List.map_map, List.map_map]
    congr 1
    apply List.map_congr_left
    intro p _
    exact Int.cast_mul _ _
  have hdenominator : (metric.denominator l : ℚ) = ((l.map fun p =>
      (((metric.rawWeight p / metric.divisor l : ℤ) : ℚ), ((metric.value p.2).scaled : ℚ))).map
      Prod.fst).sum := by
    unfold WeightedMetric.denominator WeightedMetric.terms RawWeightedAverage.weights
    rw [Int.cast_list_sum, List.map_map, List.map_map, List.map_map]
    rfl
  -- Dividing every weight by the divisor leaves the mean as it is.
  have hscaled : (l.map fun p => ((metric.rawWeight p : ℚ), (metric.value p.2).toRat)) =
      (l.map fun p => (((metric.rawWeight p / metric.divisor l : ℤ) : ℚ),
        (metric.value p.2).toRat)).map fun q => ((metric.divisor l : ℚ) * q.1, q.2) := by
    rw [List.map_map]
    apply List.map_congr_left
    intro p hp
    show _ = ((metric.divisor l : ℚ) * ((metric.rawWeight p / metric.divisor l : ℤ) : ℚ), _)
    rw [← Int.cast_mul, Int.mul_ediv_cancel' (divisor_dvd hp)]
  unfold WeightedMetric.mean
  rw [hnumerator, hdenominator, hscaled, weightedMean_scale hdivisorQ]
  show weightedMean _ / 10 ^ 12 = _
  rw [← weightedMean_div, List.map_map]
  rfl

/-- The numerator and the denominator of an average, without their signs. -/
theorem numerator_nonneg {l : List Participant} {metric : WeightedMetric} (hne : l ≠ [])
    (hpos : ∀ p ∈ l, 0 < metric.rawWeight p) : 0 ≤ metric.numerator l ∧ 0 < metric.denominator l := by
  constructor
  · apply List.sum_nonneg
    intro x hx
    obtain ⟨t, ht, rfl⟩ := List.mem_map.mp hx
    obtain ⟨p, hp, rfl⟩ := List.mem_map.mp ht
    exact mul_nonneg (weight_pos hne hpos hp).le (metric.value_nonneg p.2)
  · apply List.sum_pos
    · intro x hx
      obtain ⟨t, ht, rfl⟩ := List.mem_map.mp hx
      obtain ⟨p, hp, rfl⟩ := List.mem_map.mp ht
      exact weight_pos hne hpos hp
    · unfold WeightedMetric.terms
      rwa [ne_eq, List.map_eq_nil_iff, List.map_eq_nil_iff]

/-- The coefficient of an average: its mean, rounded once. -/
theorem averageCoefficient_eq_mean {l : List Participant} {metric : WeightedMetric} (hne : l ≠ [])
    (hpos : ∀ p ∈ l, 0 < metric.rawWeight p) (s : ℕ) :
    averageCoefficient (metric.numerator l).toNat (metric.denominator l).toNat s =
      Decimal.nearestEven (metric.mean l * 10 ^ s) := by
  obtain ⟨hn, hd⟩ := numerator_nonneg hne hpos
  have hncast : (((metric.numerator l).toNat : ℕ) : ℚ) = (metric.numerator l : ℚ) := by
    exact_mod_cast Int.toNat_of_nonneg hn
  have hdcast : (((metric.denominator l).toNat : ℕ) : ℚ) = (metric.denominator l : ℚ) := by
    exact_mod_cast Int.toNat_of_nonneg hd.le
  unfold averageCoefficient
  rw [hncast, hdcast, numerator_div_denominator hne hpos]

/-! ### What fails -/

/-- Two positions of different units. -/
def UnitMismatch (l : List Participant) : Prop := ∃ p ∈ l, ∃ q ∈ l, p.2.units ≠ q.2.units

/-- A position whose market value or notional is not positive. -/
def NonPositiveWeight (l : List Participant) : Prop :=
  ∃ p ∈ l, p.1.market.scaled ≤ 0 ∨ p.1.signedNotional.scaled ≤ 0

/-- A product of a market value and a duration, a sum or an average that cannot be represented. -/
def AveragesOverflow (l : List Participant) (outputScales : PortfolioMetricOutputScales) : Prop :=
  (∃ p ∈ l, ¬ InI128 (p.1.market.scaled * p.2.modifiedDuration.scaled)) ∨
  ∃ metric : WeightedMetric, ¬ InI128 (metric.numerator l) ∨ ¬ InI128 (metric.denominator l) ∨
    AverageOverflows (metric.numerator l).toNat (metric.denominator l).toNat
    (metric.outputScale outputScales)

/-- The averages of admissible positions: each is rounded once, and what fails is an overflow. -/
theorem rationalWeightedAverage_eq_ok {units : PortfolioWeightedMetricUnits} {l : List Participant}
    (hadm : Admissible units l) (metric : WeightedMetric) {s : ℕ} (hs : s ≤ 28) {unit : UnitRef} :
    (∀ v, rationalWeightedAverageToDecimal (metric.numerator l) (metric.denominator l) s unit = .ok v →
      newDecimal (Decimal.nearestEven (metric.mean l * 10 ^ s)) s unit = .ok v) ∧
    ((∃ v, rationalWeightedAverageToDecimal (metric.numerator l) (metric.denominator l) s unit =
      .ok v) ↔ ¬ AverageOverflows (metric.numerator l).toNat (metric.denominator l).toNat s) := by
  have hpos := rawWeight_pos hadm.market hadm.notional metric
  obtain ⟨hn, hd⟩ := numerator_nonneg hadm.nonempty hpos
  have hmean := averageCoefficient_eq_mean hadm.nonempty hpos s
  have hnrange := hadm.numerators metric
  have hdrange := hadm.denominators metric
  -- Numerator and denominator are natural numbers, as the weights are positive.
  obtain ⟨n, hncast⟩ := Int.eq_ofNat_of_zero_le hn
  obtain ⟨d, hdcast⟩ := Int.eq_ofNat_of_zero_le hd.le
  rw [hncast, hdcast, Int.toNat_natCast, Int.toNat_natCast] at hmean ⊢
  rw [hncast] at hnrange
  rw [hdcast] at hdrange hd
  have hdpos : 0 < d := by omega
  constructor
  · intro v h
    rw [← hmean]
    exact (of_rationalWeightedAverageToDecimal hnrange hdpos h).1
  · constructor
    · rintro ⟨v, h⟩
      exact (of_rationalWeightedAverageToDecimal hnrange hdpos h).2
    · exact rationalWeightedAverageToDecimal_of_not_overflows unit hnrange hdpos hdrange hs

/-- **What fails**: a unit, the sign of a weight or the size of a number. -/
theorem weightedAverages_error_iff {l : List Participant} (hne : l ≠ [])
    {outputScales : PortfolioMetricOutputScales} :
    (∃ error, weightedAverages l outputScales = .error error) ↔
      UnitMismatch l ∨ NonPositiveWeight l ∨ AveragesOverflow l outputScales := by
  -- A computation fails exactly when it does not succeed.
  have hflip : (∃ error, weightedAverages l outputScales = .error error) ↔
      ¬ ∃ result, weightedAverages l outputScales = .ok result := by
    cases weightedAverages l outputScales with
    | error e => simp
    | ok r => simp
  rw [hflip, not_iff_comm]
  constructor
  · intro hnone
    rw [not_or, not_or] at hnone
    obtain ⟨hunits, hweights, hoverflow⟩ := hnone
    unfold AveragesOverflow at hoverflow
    rw [not_or] at hoverflow
    obtain ⟨hproducts, hmetrics⟩ := hoverflow
    obtain ⟨p, hp⟩ := List.exists_mem_of_ne_nil l hne
    have hsame : ∀ q ∈ l, q.2.units = p.2.units := by
      intro q hq
      by_contra hdiff
      exact hunits ⟨q, hq, p, hp, hdiff⟩
    have hpositive : ∀ q ∈ l, 0 < q.1.market.scaled ∧ 0 < q.1.signedNotional.scaled := by
      intro q hq
      by_contra hbad
      exact hweights ⟨q, hq, by omega⟩
    have hmetric : ∀ metric : WeightedMetric, InI128 (metric.numerator l) ∧
      InI128 (metric.denominator l) ∧
        ¬ AverageOverflows (metric.numerator l).toNat (metric.denominator l).toNat
          (metric.outputScale outputScales) := by
      intro metric
      have h := not_exists.mp hmetrics metric
      rwa [not_or, not_or, not_not, not_not] at h
    -- With nothing wrong the positions are admissible, and each average fits.
    have hadm : Admissible p.2.units l := ⟨hne, hsame, fun q hq => (hpositive q hq).1,
      fun q hq => (hpositive q hq).2, fun q hq => by_contra fun hbad => hproducts ⟨q, hq, hbad⟩,
      fun metric => (hmetric metric).1, fun metric => (hmetric metric).2.1⟩
    have hresults : ∀ metric : WeightedMetric, ∃ v,
      rationalWeightedAverageToDecimal (metric.numerator l)
        (metric.denominator l) (metric.outputScale outputScales) (metric.unit p.2.units) = .ok v :=
      fun metric => (rationalWeightedAverage_eq_ok hadm metric
        (metric.outputScale_le outputScales)).2.mpr
        (hmetric metric).2.2
    choose f hf using hresults
    refine ⟨⟨f .ytm, f .duration, f .convexity, f .couponRate, f .remainingYears⟩,
      weightedAverages_eq_ok_iff.mpr ⟨p.2.units, hadm, fun metric => ?_⟩⟩
    rw [WeightedAverages.get_ofGet]
    exact hf metric
  · rintro ⟨result, h⟩
    obtain ⟨units, hadm, hresults⟩ := weightedAverages_eq_ok_iff.mp h
    -- Conversely, each of the four reasons contradicts a success.
    rintro (⟨p, hp, q, hq, hdiff⟩ | ⟨p, hp, hbad⟩ | ⟨p, hp, hbad⟩ | ⟨metric, hbad⟩)
    · exact hdiff ((hadm.sameUnits p hp).trans (hadm.sameUnits q hq).symm)
    · have := hadm.market p hp
      have := hadm.notional p hp
      omega
    · exact hbad (hadm.products p hp)
    · have hfits := (rationalWeightedAverage_eq_ok hadm metric
        (metric.outputScale_le outputScales)).2.mp
        ⟨_, hresults metric⟩
      rcases hbad with hbad | hbad | hbad
      · exact hbad (hadm.numerators metric)
      · exact hbad (hadm.denominators metric)
      · exact hfits hbad

/-! ### Orders and factors -/

/-- Positions in another order are as admissible, and make the same sums. -/
theorem Admissible.perm {units : PortfolioWeightedMetricUnits} {l l' : List Participant}
    (hadm : Admissible units l) (h : l.Perm l') : Admissible units l' ∧
      ∀ metric : WeightedMetric, metric.numerator l' = metric.numerator l ∧
        metric.denominator l' = metric.denominator l := by
  -- The sums do not depend on the order.
  have hsums : ∀ metric : WeightedMetric, metric.numerator l' = metric.numerator l ∧
      metric.denominator l' = metric.denominator l := by
    intro metric
    have hdivisor : metric.divisor l' = metric.divisor l := by
      unfold WeightedMetric.divisor
      rw [Multiset.coe_eq_coe.mpr (h.map metric.rawWeight)]
    have hterms : (metric.terms l').Perm (metric.terms l) := by
      unfold WeightedMetric.terms
      rw [hdivisor]
      exact h.symm.map _
    exact ⟨(hterms.map _).sum_eq, (hterms.map _).sum_eq⟩
  refine ⟨⟨?_, fun p hp => hadm.sameUnits p (h.mem_iff.mpr hp),
    fun p hp => hadm.market p (h.mem_iff.mpr hp),
    fun p hp => hadm.notional p (h.mem_iff.mpr hp), fun p hp => hadm.products p (h.mem_iff.mpr hp),
    fun metric => ?_, fun metric => ?_⟩, hsums⟩
  · intro hnil
    rw [hnil] at h
    exact hadm.nonempty h.eq_nil
  · rw [(hsums metric).1]
    exact hadm.numerators metric
  · rw [(hsums metric).2]
    exact hadm.denominators metric

/-- A position with its market value and its notional multiplied. -/
def Rescaled (c d : ℤ) (p q : Participant) : Prop :=
  q.1.market.scaled = c * p.1.market.scaled ∧
  q.1.signedNotional.scaled = d * p.1.signedNotional.scaled ∧ q.2 = p.2

/-- The factor of the weights of an average. -/
def WeightedMetric.factor (metric : WeightedMetric) (c d : ℤ) : ℤ :=
  match metric with
  | ytm | duration | convexity => c
  | couponRate | remainingYears => d

/-- Rescaling the participants multiplies every weight by one factor. -/
theorem Rescaled.rawWeight {c d : ℤ} {p q : Participant} (h : Rescaled c d p q)
    (metric : WeightedMetric) :
    metric.rawWeight q = metric.factor c d * metric.rawWeight p := by
  obtain ⟨hmarket, hnotional, hmetrics⟩ := h
  cases metric with
  | ytm =>
    show q.1.market.scaled * q.2.modifiedDuration.scaled =
      c * (p.1.market.scaled * p.2.modifiedDuration.scaled)
    rw [hmarket, hmetrics, mul_assoc]
  | duration => exact hmarket
  | convexity => exact hmarket
  | couponRate => exact hnotional
  | remainingYears => exact hnotional

/-- A common factor of the weights goes into their common divisor. -/
theorem terms_rescaled {c d : ℤ} (hc : 0 < c) (hd : 0 < d) {l l' : List Participant}
    (h : List.Forall₂ (Rescaled c d) l l') (metric : WeightedMetric) :
    metric.terms l' = metric.terms l := by
  have hfactor : 0 < metric.factor c d := by
    cases metric with
    | ytm => exact hc
    | duration => exact hc
    | convexity => exact hc
    | couponRate => exact hd
    | remainingYears => exact hd
  -- Every weight has the factor, so their divisor has it too and it cancels.
  have hweights : l'.map metric.rawWeight = (l.map metric.rawWeight).map (metric.factor c d * ·) := by
    induction h with
    | nil => rfl
    | cons hpq _ ih => rw [List.map_cons, List.map_cons, List.map_cons, ih, hpq.rawWeight metric]
  have hdivisor : metric.divisor l' = metric.factor c d * metric.divisor l := by
    unfold WeightedMetric.divisor
    rw [hweights, gcd_scale hfactor.le]
  unfold WeightedMetric.terms
  rw [hdivisor]
  generalize metric.divisor l = g
  clear hweights hdivisor
  induction h with
  | nil => rfl
  | cons hpq _ ih =>
    rw [List.map_cons, List.map_cons, hpq.rawWeight metric, hpq.2.2,
      Int.mul_ediv_mul_of_pos _ _ hfactor]
    congr 1

/-- Multiplied positions are as admissible, and make the same sums, where the products can be
    represented. -/
theorem Admissible.rescaled {units : PortfolioWeightedMetricUnits} {c d : ℤ} (hc : 0 < c) (hd : 0 < d)
    {l l' : List Participant} (hadm : Admissible units l) (h : List.Forall₂ (Rescaled c d) l l')
    (hproducts : ∀ p ∈ l', InI128 (p.1.market.scaled * p.2.modifiedDuration.scaled)) :
    Admissible units l' ∧ ∀ metric : WeightedMetric, metric.numerator l' = metric.numerator l ∧
      metric.denominator l' = metric.denominator l := by
  have hsums : ∀ metric : WeightedMetric, metric.numerator l' = metric.numerator l ∧
      metric.denominator l' = metric.denominator l := by
    intro metric
    unfold WeightedMetric.numerator WeightedMetric.denominator
    rw [terms_rescaled hc hd h metric]
    exact ⟨rfl, rfl⟩
  -- each multiplied position comes from one of the list
  have hfrom : ∀ q ∈ l', ∃ p ∈ l, Rescaled c d p q := by
    intro q hq
    obtain ⟨i, hi, rfl⟩ := List.mem_iff_getElem.mp hq
    have hi' : i < l.length := h.length_eq ▸ hi
    exact ⟨l[i], List.getElem_mem hi', (List.forall₂_iff_get.mp h).2 i hi' hi⟩
  refine ⟨⟨?_, fun q hq => ?_, fun q hq => ?_, fun q hq => ?_, hproducts, fun metric => ?_,
    fun metric => ?_⟩, hsums⟩
  · rintro rfl
    exact hadm.nonempty (List.forall₂_nil_right_iff.mp h)
  · obtain ⟨p, hp, hpq⟩ := hfrom q hq
    rw [hpq.2.2]
    exact hadm.sameUnits p hp
  · obtain ⟨p, hp, hpq⟩ := hfrom q hq
    rw [hpq.1]
    exact mul_pos hc (hadm.market p hp)
  · obtain ⟨p, hp, hpq⟩ := hfrom q hq
    rw [hpq.2.1]
    exact mul_pos hd (hadm.notional p hp)
  · rw [(hsums metric).1]
    exact hadm.numerators metric
  · rw [(hsums metric).2]
    exact hadm.denominators metric

/-- The same sums make the same results. -/
theorem weightedAverages_of_sums {l l' : List Participant} {outputScales : PortfolioMetricOutputScales}
    {result : WeightedAverages} (h : weightedAverages l outputScales = .ok result)
    (hsame : ∀ units, Admissible units l → Admissible units l' ∧ ∀ metric : WeightedMetric,
      metric.numerator l' = metric.numerator l ∧ metric.denominator l' = metric.denominator l) :
    weightedAverages l' outputScales = .ok result := by
  obtain ⟨units, hadm, hresults⟩ := weightedAverages_eq_ok_iff.mp h
  obtain ⟨hadm', hsums⟩ := hsame units hadm
  refine weightedAverages_eq_ok_iff.mpr ⟨units, hadm', fun metric => ?_⟩
  rw [(hsums metric).1, (hsums metric).2]
  exact hresults metric

/-! ### Bounds -/

/-- Rounding to a number of places is rounding the shifted value to the nearest even integer. -/
theorem roundTiesEven_coe (places : ℕ) (q : ℚ) :
    ((Decimal.roundTiesEven places q : Decimal) : ℚ) =
    Decimal.nearestEven (q * 10 ^ places) / 10 ^ places :=
  rfl

/-- A larger number never rounds to a smaller one, at any scale. -/
theorem roundTiesEven_mono (places : ℕ) {p q : ℚ} (h : p ≤ q) :
    ((Decimal.roundTiesEven places p : Decimal) : ℚ) ≤ Decimal.roundTiesEven places q := by
  have hround : Decimal.nearestEven (p * 10 ^ places) ≤ Decimal.nearestEven (q * 10 ^ places) := by
    apply Decimal.nearestEven_mono
    gcongr
  rw [roundTiesEven_coe, roundTiesEven_coe]
  gcongr

/-- The mean lies between the smallest and the largest value. -/
theorem mean_bounds {l : List Participant} {metric : WeightedMetric} (hne : l ≠ [])
    (hpos : ∀ p ∈ l, 0 < metric.rawWeight p) :
    ∃ p ∈ l, ∃ q ∈ l, (∀ x ∈ l, (metric.value p.2).toRat ≤ (metric.value x.2).toRat ∧
      (metric.value x.2).toRat ≤ (metric.value q.2).toRat) ∧
      (metric.value p.2).toRat ≤ metric.mean l ∧ metric.mean l ≤ (metric.value q.2).toRat := by
  have hfinset : l.toFinset.Nonempty := by rwa [List.toFinset_nonempty_iff]
  -- The least and the greatest value among the positions.
  obtain ⟨p, hp, hmin⟩ := l.toFinset.exists_min_image (fun x => (metric.value x.2).toRat) hfinset
  obtain ⟨q, hq, hmax⟩ := l.toFinset.exists_max_image (fun x => (metric.value x.2).toRat) hfinset
  simp only [List.mem_toFinset] at hp hq hmin hmax
  have hweights : ∀ t ∈ l.map fun p => ((metric.rawWeight p : ℚ), (metric.value p.2).toRat),
    0 < t.1 := by
    intro t ht
    obtain ⟨x, hx, rfl⟩ := List.mem_map.mp ht
    show (0 : ℚ) < (metric.rawWeight x : ℚ)
    exact_mod_cast hpos x hx
  have hmapped : (l.map fun p => ((metric.rawWeight p : ℚ), (metric.value p.2).toRat)) ≠ [] := by
    rwa [ne_eq, List.map_eq_nil_iff]
  refine ⟨p, hp, q, hq, fun x hx => ⟨hmin x hx, hmax x hx⟩, ?_, ?_⟩
  · apply le_weightedMean hmapped hweights
    intro t ht
    obtain ⟨x, hx, rfl⟩ := List.mem_map.mp ht
    exact hmin x hx
  · apply weightedMean_le hmapped hweights
    intro t ht
    obtain ⟨x, hx, rfl⟩ := List.mem_map.mp ht
    exact hmax x hx

/-! ### Exactness -/

/-- **Weighted averages are exact.** Each result is the exact mean of its measure (the yields
    weighted with market values times durations, durations and convexities with market values,
    coupons and remaining years with notionals), rounded once, half to even, at its output scale,
    with the unit of the positions.  It is the same for the positions in any order, and for market
    values and notionals that are multiplied by positive integers as long as the products with the
    durations can be represented; and it lies between the rounded smallest and largest value.  What
    fails is a unit, the sign of a weight or the size of a number. -/
theorem weighted_averages_exact {l : List Participant} (hne : l ≠ [])
    (outputScales : PortfolioMetricOutputScales) :
    (∀ result, weightedAverages l outputScales = .ok result →
      (∀ metric : WeightedMetric, rational (result.get metric) =
        Decimal.roundTiesEven (metric.outputScale outputScales) (metric.mean l) ∧
        ∀ p ∈ l, (result.get metric).unit = metric.unit p.2.units) ∧
      (∀ l', l.Perm l' → weightedAverages l' outputScales = .ok result) ∧
      (∀ c d : ℤ, 0 < c → 0 < d → ∀ l', List.Forall₂ (Rescaled c d) l l' →
        (∀ p ∈ l', InI128 (p.1.market.scaled * p.2.modifiedDuration.scaled)) →
        weightedAverages l' outputScales = .ok result) ∧
      ∀ metric : WeightedMetric, ∃ p ∈ l, ∃ q ∈ l,
        (∀ x ∈ l, (metric.value p.2).toRat ≤ (metric.value x.2).toRat ∧
          (metric.value x.2).toRat ≤ (metric.value q.2).toRat) ∧
        (Decimal.roundTiesEven (metric.outputScale outputScales) (metric.value p.2).toRat : ℚ) ≤
          rational (result.get metric) ∧
        rational (result.get metric) ≤
          Decimal.roundTiesEven (metric.outputScale outputScales) (metric.value q.2).toRat) ∧
    ((∃ error, weightedAverages l outputScales = .error error) ↔
      UnitMismatch l ∨ NonPositiveWeight l ∨ AveragesOverflow l outputScales) := by
  refine ⟨fun result h => ?_, weightedAverages_error_iff hne⟩
  obtain ⟨units, hadm, hresults⟩ := weightedAverages_eq_ok_iff.mp h
  -- Each average is the mean, rounded once.
  have hexact : ∀ metric : WeightedMetric, rational (result.get metric) =
      Decimal.roundTiesEven (metric.outputScale outputScales) (metric.mean l) ∧
      (result.get metric).unit = metric.unit units := by
    intro metric
    have hnew := (rationalWeightedAverage_eq_ok hadm metric (metric.outputScale_le outputScales)).1 _
      (hresults metric)
    obtain ⟨-, -, hunit, hvalue⟩ := of_newDecimal hnew
    exact ⟨hvalue, hunit⟩
  refine ⟨fun metric => ⟨(hexact metric).1, fun p hp => ?_⟩, fun l' hperm => ?_,
    fun c d hc hd l' hscaled hproducts => ?_, fun metric => ?_⟩
  · rw [(hexact metric).2, hadm.sameUnits p hp]
  · exact weightedAverages_of_sums h fun units hadm => hadm.perm hperm
  · exact weightedAverages_of_sums h fun units hadm => hadm.rescaled hc hd hscaled hproducts
  · obtain ⟨p, hp, q, hq, hall, hlow, hhigh⟩ :=
      mean_bounds hne (rawWeight_pos hadm.market hadm.notional metric)
    refine ⟨p, hp, q, hq, hall, ?_, ?_⟩
    · rw [(hexact metric).1]
      exact roundTiesEven_mono _ hlow
    · rw [(hexact metric).1]
      exact roundTiesEven_mono _ hhigh

/-- The measures of a bond. -/
def sampleMetrics (duration : FixedDecimal) (h : 0 < duration.scaled) : PortfolioBondMetricFacts where
  yieldToMaturity := FixedDecimal.one
  modifiedDuration := duration
  convexity := FixedDecimal.one
  couponRate := FixedDecimal.zero
  remainingYears := FixedDecimal.one
  units := ⟨DecimalValue.sampleUnit, DecimalValue.sampleUnit, DecimalValue.sampleUnit,
    DecimalValue.sampleUnit, DecimalValue.sampleUnit⟩
  positive := ⟨by decide, h, by decide, by decide, by decide⟩

/-- An amount without decimal places. -/
def sampleAmount (coefficient : ℤ) (h : coefficient.natAbs < 10 ^ 28) : StoredDecimal :=
  ⟨⟨coefficient, 0, DecimalValue.sampleUnit⟩, ⟨h, Nat.zero_le 28, fun _ => .inl rfl⟩⟩

/-- Nothing. -/
def zeroAmount : StoredDecimal := sampleAmount 0 (by decide)

theorem zeroAmount_fixed : (decimalToFixed zeroAmount).toOption.isSome = true := by decide

/-- Two bonds worth 1 and 3, with durations of 2 and of 4 years. -/
def sampleParticipants : List Participant :=
  [(⟨⟨0⟩, sampleAmount 1 (by decide), zeroAmount, FixedDecimal.one, .missingBondMetric, rfl,
      by decide, zeroAmount_fixed⟩, sampleMetrics (.ofScaled 2000000000000) (by decide)),
   (⟨⟨1⟩, sampleAmount 3 (by decide), zeroAmount, FixedDecimal.one, .missingBondMetric, rfl,
      by decide, zeroAmount_fixed⟩, sampleMetrics (.ofScaled 4000000000000) (by decide))]

/-- Their mean duration of three and a half years is rounded to four. -/
theorem weighted_averages_exact_sample :
    sampleParticipants ≠ [] ∧ ∃ result,
      weightedAverages sampleParticipants ⟨0, 0, 0, 0, 0, by decide⟩ = .ok result ∧
      rational result.duration = 4 ∧
      rational result.duration = Decimal.roundTiesEven 0
      (WeightedMetric.duration.mean sampleParticipants) ∧
      weightedAverages sampleParticipants.reverse ⟨0, 0, 0, 0, 0, by decide⟩ = .ok result := by
  have hne : sampleParticipants ≠ [] := List.cons_ne_nil _ _
  have hsome : (weightedAverages sampleParticipants ⟨0, 0, 0, 0, 0, by decide⟩).toOption.any
      (fun result => result.duration.coefficient = 4 ∧ result.duration.scale = 0) = true := by
    decide +kernel
  obtain ⟨result, hresult, hduration⟩ := exists_ok_of_any hsome
  obtain ⟨hcoefficient, hscale⟩ := of_decide_eq_true hduration
  obtain ⟨hexact, hperm, -, -⟩ :=
    (weighted_averages_exact hne ⟨0, 0, 0, 0, 0, by decide⟩).1 result hresult
  refine ⟨hne, result, hresult, ?_, (hexact .duration).1, hperm _ (List.reverse_perm _).symm⟩
  unfold rational
  rw [hcoefficient, hscale]
  norm_num

end Ficant.Overview
