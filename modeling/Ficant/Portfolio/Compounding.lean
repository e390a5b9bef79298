import Ficant.Portfolio.Performance

namespace Ficant

open Lib

/-!
# Compounded returns

How far the compounded returns of a series are from the exact ones, and when they are lost.

* `roundedRun_of_points` — the running factors of an accepted series round each day's factor and
  each product once;
* `daily_performance_compounds` — the error of every cumulative return, and what the points say
  about flows, prefixes and multiples of the series;
* `cumulative_return_gt_iff` — a cumulative return stays above minus one as long as no product of
  a day is half a unit or less.
-/

/-! ### Exact and rounded factors -/

/-- The exact factor of the day that starts at session `n`: `(ending NAV - flow) / opening NAV`. -/
def exactFactor (portfolio : List PortfolioSessionAggregate) (n : ℕ) : ℚ :=
  match portfolio[n]?, portfolio[n + 1]? with
  | some opening, some closing =>
    ((closing.netAssetValue.scaled - closing.netExternalFlow.scaled : ℤ) : ℚ)
      / opening.netAssetValue.scaled
  | _, _ => 1

/-- The exact factor of the benchmark over that day. -/
def exactLevelFactor (benchmark : List BenchmarkSessionLevel) (n : ℕ) : ℚ :=
  match benchmark[n]?, benchmark[n + 1]? with
  | some opening, some closing => (closing.level.scaled : ℚ) / opening.level.scaled
  | _, _ => 1

/-- One plus a return of point `n`. -/
def onePlus (points : List PortfolioDailyPerformancePoint)
    (ret : PortfolioDailyPerformancePoint → FixedDecimal) (n : ℕ) : ℚ :=
  match points[n]? with
  | some point => 1 + (ret point).toRat
  | none => 1

/-- The running factor after `n` days, read off the cumulative return. -/
def factorAfter (points : List PortfolioDailyPerformancePoint)
    (cumulative : PortfolioDailyPerformancePoint → FixedDecimal) : ℕ → ℚ
  | 0 => 1
  | n + 1 => onePlus points cumulative n

/-- The growth of one day, read from the point at its place. -/
theorem onePlus_of_getElem {points : List PortfolioDailyPerformancePoint}
    {ret : PortfolioDailyPerformancePoint → FixedDecimal} {n : ℕ}
    {point : PortfolioDailyPerformancePoint} (h : points[n]? = some point) :
    onePlus points ret n = (1000000000000 + (ret point).scaled : ℤ) / 10 ^ 12 := by
  unfold onePlus
  rw [h]
  show 1 + (ret point).toRat = _
  unfold FixedDecimal.toRat
  push_cast
  ring

/-- The columns of points that one running factor fills: every point compounds the factor that the
    point before it ended with. -/
def Column (points : List PortfolioDailyPerformancePoint)
    (ret cumulative : PortfolioDailyPerformancePoint → FixedDecimal) (p : ℕ → ℚ) : Prop :=
  ∀ n point, points[n]? = some point → ∃ before after opening closing,
    Compounds before opening closing (ret point) after ∧ p n = (closing : ℚ) / opening ∧
    after.scaled = 1000000000000 + (cumulative point).scaled ∧
    (n = 0 → before = .one) ∧
    ∀ m earlier, n = m + 1 → points[m]? = some earlier →
      before.scaled = 1000000000000 + (cumulative earlier).scaled

section
variable {before after dailyReturn : FixedDecimal} {opening closing : ℤ}

/-- The rounded factor of a day is within half a unit of the exact one. -/
theorem Compounds.factor_error (h : Compounds before opening closing dailyReturn after) :
    |((1000000000000 + dailyReturn.scaled : ℤ) : ℚ) / 10 ^ 12 - (closing : ℚ) / opening|
      ≤ 1 / 10 ^ 12 / 2 := by
  obtain ⟨hle, -⟩ := Decimal.nearestEven_spec (((closing - opening : ℤ) : ℚ) * 10 ^ 12 / opening)
  rw [← h.rounded] at hle
  have hopening : (opening : ℚ) ≠ 0 := by exact_mod_cast h.opening_pos.ne'
  have hsplit : ((1000000000000 + dailyReturn.scaled : ℤ) : ℚ) / 10 ^ 12 - (closing : ℚ) / opening
      = -(((closing - opening : ℤ) : ℚ) * 10 ^ 12 / opening - dailyReturn.scaled) / 10 ^ 12 := by
    push_cast
    field_simp
    ring
  rw [hsplit, abs_div, abs_neg, abs_of_pos (by positivity : (0 : ℚ) < 10 ^ 12)]
  calc |((closing - opening : ℤ) : ℚ) * 10 ^ 12 / opening - dailyReturn.scaled| / 10 ^ 12
      ≤ 1 / 2 / 10 ^ 12 := by
        apply div_le_div_of_nonneg_right hle (by positivity)
    _ = 1 / 10 ^ 12 / 2 := by ring

/-- A positive rounded factor is at least one unit, so that the exact one is positive too. -/
theorem Compounds.exact_pos (h : Compounds before opening closing dailyReturn after) :
    0 < (closing : ℚ) / opening := by
  have herror := (abs_le.mp h.factor_error).2
  have hunit : (1 : ℚ) / 10 ^ 12 ≤ ((1000000000000 + dailyReturn.scaled : ℤ) : ℚ) / 10 ^ 12 := by
    apply div_le_div_of_nonneg_right _ (by positivity)
    exact_mod_cast h.factor_pos
  have hhalf : (0 : ℚ) < 1 / 10 ^ 12 / 2 := by positivity
  linarith

/-- The running factor after a day is within half a unit of the product. -/
theorem Compounds.product_error (h : Compounds before opening closing dailyReturn after) :
    |(after.scaled : ℚ) / 10 ^ 12
      - before.scaled / 10 ^ 12 * (((1000000000000 + dailyReturn.scaled : ℤ) : ℚ) / 10 ^ 12)|
      ≤ 1 / 10 ^ 12 / 2 := by
  set factor : ℤ := 1000000000000 + dailyReturn.scaled with hfactor
  obtain ⟨hle, -⟩ := Decimal.nearestEven_spec ((before.scaled : ℚ) * (factor : ℚ) / 10 ^ 12)
  rw [hfactor, ← h.after_eq, ← hfactor] at hle
  have hsplit : (after.scaled : ℚ) / 10 ^ 12 - before.scaled / 10 ^ 12 * ((factor : ℚ) / 10 ^ 12)
      = -((before.scaled : ℚ) * factor / 10 ^ 12 - after.scaled) / 10 ^ 12 := by
    ring
  rw [hsplit, abs_div, abs_neg, abs_of_pos (by positivity : (0 : ℚ) < 10 ^ 12)]
  calc |(before.scaled : ℚ) * factor / 10 ^ 12 - after.scaled| / 10 ^ 12
      ≤ 1 / 2 / 10 ^ 12 := by
        apply div_le_div_of_nonneg_right hle (by positivity)
    _ = 1 / 10 ^ 12 / 2 := by ring

end

/-- The factor a point starts from is the running factor before it. -/
theorem factorAfter_eq {points : List PortfolioDailyPerformancePoint}
    {cumulative : PortfolioDailyPerformancePoint → FixedDecimal} {before : FixedDecimal} {n : ℕ}
    (hn : n < points.length) (hstart : n = 0 → before = .one)
    (hearlier : ∀ m earlier, n = m + 1 → points[m]? = some earlier →
      before.scaled = 1000000000000 + (cumulative earlier).scaled) :
    factorAfter points cumulative n = (before.scaled : ℚ) / 10 ^ 12 := by
  cases n with
  | zero =>
    rw [hstart rfl, FixedDecimal.scaled_one]
    norm_num [factorAfter]
  | succ m =>
    have hget : points[m]? = some points[m] := List.getElem?_eq_getElem (by omega)
    rw [hearlier m _ rfl hget]
    exact onePlus_of_getElem hget

/-- **A column rounds twice a day.** -/
theorem Column.roundedRun {points : List PortfolioDailyPerformancePoint}
    {ret cumulative : PortfolioDailyPerformancePoint → FixedDecimal} {p : ℕ → ℚ}
    (h : Column points ret cumulative p) :
    RoundedRun (1 / 10 ^ 12) p (onePlus points ret) (factorAfter points cumulative)
      points.length where
  start := rfl
  factor_pos n hn := by
    have hget := List.getElem?_eq_getElem hn
    obtain ⟨before, after, opening, closing, hday, -⟩ := h n _ hget
    rw [onePlus_of_getElem hget]
    apply div_pos _ (by positivity)
    exact_mod_cast hday.factor_pos
  exact_nonneg n hn := by
    obtain ⟨before, after, opening, closing, hday, hp, -⟩ := h n _ (List.getElem?_eq_getElem hn)
    rw [hp]
    exact hday.exact_pos.le
  factor_error n hn := by
    have hget := List.getElem?_eq_getElem hn
    obtain ⟨before, after, opening, closing, hday, hp, -⟩ := h n _ hget
    rw [onePlus_of_getElem hget, hp]
    exact hday.factor_error
  product_error n hn := by
    have hget := List.getElem?_eq_getElem hn
    obtain ⟨before, after, opening, closing, hday, -, hafter, hstart, hearlier⟩ := h n _ hget
    rw [factorAfter_eq hn hstart hearlier, onePlus_of_getElem hget]
    show |onePlus points cumulative n - _| ≤ _
    rw [onePlus_of_getElem hget, ← hafter]
    exact hday.product_error

section
variable {portfolio : List PortfolioSessionAggregate} {benchmark : List BenchmarkSessionLevel}
  {points : List PortfolioDailyPerformancePoint}

/-- Every point of an accepted series, with its two sessions and the factors before it. -/
theorem dayOf_of_getElem (h : calculateDailyPerformance portfolio benchmark = .ok points) {n : ℕ}
    {point : PortfolioDailyPerformancePoint} (hn : points[n]? = some point) :
    ∃ before opening closing after,
      portfolio[n]? = some opening.1 ∧ portfolio[n + 1]? = some closing.1 ∧
      benchmark[n]? = some opening.2 ∧ benchmark[n + 1]? = some closing.2 ∧
      DayOf before opening closing point after ∧ (n = 0 → before = (.one, .one)) ∧
      ∀ m earlier, n = m + 1 → points[m]? = some earlier → FactorsAfter earlier before := by
  obtain ⟨-, -, -, first, rest, hsessions, hdays⟩ := calculateDailyPerformance_eq_ok.mp h
  obtain ⟨before, opening, closing, after, hopening, hclosing, hof, hstart, hearlier⟩ :=
    performanceDays_getElem hdays hn
  rw [← hsessions] at hopening hclosing
  obtain ⟨hportfolio, hbenchmark⟩ := List.getElem?_zip_eq_some.mp hopening
  obtain ⟨hportfolio', hbenchmark'⟩ := List.getElem?_zip_eq_some.mp hclosing
  exact ⟨before, opening, closing, after, hportfolio, hportfolio', hbenchmark, hbenchmark', hof,
    hstart, hearlier⟩

/-- The factors of the portfolio fill a column. -/
theorem portfolioColumn (h : calculateDailyPerformance portfolio benchmark = .ok points) :
    Column points (·.dailyReturn) (·.cumulativeReturn) (exactFactor portfolio) := by
  intro n point hn
  obtain ⟨before, opening, closing, after, ho, hc, -, -, hof, hstart, hearlier⟩ :=
    dayOf_of_getElem h hn
  refine ⟨before.1, after.1, _, _, hof.portfolio, ?_, hof.factorsAfter.1, ?_, ?_⟩
  · rw [exactFactor, ho, hc]
  · intro hzero
    rw [hstart hzero]
  · intro m earlier hm hget
    exact (hearlier m earlier hm hget).1

/-- So do those of the benchmark. -/
theorem benchmarkColumn (h : calculateDailyPerformance portfolio benchmark = .ok points) :
    Column points (·.benchmarkReturn) (·.benchmarkCumulativeReturn)
      (exactLevelFactor benchmark) := by
  intro n point hn
  obtain ⟨before, opening, closing, after, -, -, ho, hc, hof, hstart, hearlier⟩ :=
    dayOf_of_getElem h hn
  refine ⟨before.2, after.2, _, _, hof.benchmark, ?_, hof.factorsAfter.2, ?_, ?_⟩
  · rw [exactLevelFactor, ho, hc]
  · intro hzero
    rw [hstart hzero]
  · intro m earlier hm hget
    exact (hearlier m earlier hm hget).2

end

/-! ### Flows -/

/-- What the days of a loop add to the net asset value. -/
theorem performanceDays_telescope {factors : RunningFactors} {previous : PerformanceSession}
    {sessions : List PerformanceSession} {points : List PortfolioDailyPerformancePoint}
    (h : performanceDays factors previous sessions = .ok points) {last : PerformanceSession}
    (hlast : (previous :: sessions).getLast? = some last) :
    previous.1.netAssetValue.scaled
      + (points.map fun point => point.economicPnl.scaled + point.netExternalFlow.scaled).sum
      = last.1.netAssetValue.scaled := by
  induction sessions generalizing factors previous points with
  | nil =>
    obtain rfl := Except.ok.inj h
    rw [List.getLast?_singleton] at hlast
    obtain rfl := Option.some.inj hlast
    rw [List.map_nil, List.sum_nil, add_zero]
  | cons session rest ih =>
    obtain ⟨⟨point, after⟩, hday, h⟩ := bind_eq_ok.mp h
    obtain ⟨tail, htail, h⟩ := bind_eq_ok.mp h
    obtain rfl := Except.ok.inj h
    have hof := dayOf_of_performanceDay hday
    rw [List.getLast?_cons_cons] at hlast
    have hrest := ih htail hlast
    have hpnl := hof.economicPnl
    rw [List.map_cons, List.sum_cons, hof.netExternalFlow]
    omega

/-! ### Multiples of a series -/

/-- A session whose value and flow are `m` times those of another. -/
structure MultipleOf (m : ℤ) (session session' : PortfolioSessionAggregate) : Prop where
  valuationAt : session'.valuationAt = session.valuationAt
  netAssetValue : session'.netAssetValue.scaled = m * session.netAssetValue.scaled
  netExternalFlow : session'.netExternalFlow.scaled = m * session.netExternalFlow.scaled

/-- Both series at one session, the portfolio multiplied and the benchmark the same. -/
def SessionMultiple (m : ℤ) (session session' : PerformanceSession) : Prop :=
  MultipleOf m session.1 session'.1 ∧ session'.2 = session.2

/-- The differences of one day still fit after multiplication. -/
def DifferencesFit (m : ℤ) (opening closing : PortfolioSessionAggregate) : Prop :=
  InI128 (m * (closing.netAssetValue.scaled - closing.netExternalFlow.scaled)) ∧
  InI128 (m * (closing.netAssetValue.scaled - closing.netExternalFlow.scaled
    - opening.netAssetValue.scaled))

/-- Two points with the same time and the same returns. -/
structure SameReturns (point point' : PortfolioDailyPerformancePoint) : Prop where
  valuationAt : point'.valuationAt = point.valuationAt
  dailyReturn : point'.dailyReturn = point.dailyReturn
  benchmarkReturn : point'.benchmarkReturn = point.benchmarkReturn
  activeReturn : point'.activeReturn = point.activeReturn
  cumulativeReturn : point'.cumulativeReturn = point.cumulativeReturn
  benchmarkCumulativeReturn : point'.benchmarkCumulativeReturn = point.benchmarkCumulativeReturn
  activeCumulativeReturn : point'.activeCumulativeReturn = point.activeCumulativeReturn

/-- A day is determined by the ratio of its values. -/
theorem Compounds.unique {before after after' dailyReturn dailyReturn' : FixedDecimal}
    {opening closing opening' closing' m : ℤ} (hm : m ≠ 0) (hopening : opening' = m * opening)
    (hclosing : closing' = m * closing) (h : Compounds before opening closing dailyReturn after)
    (h' : Compounds before opening' closing' dailyReturn' after') :
    dailyReturn' = dailyReturn ∧ after' = after := by
  have hmq : (m : ℚ) ≠ 0 := by exact_mod_cast hm
  have hreturn : dailyReturn' = dailyReturn := by
    apply FixedDecimal.ext
    rw [h.rounded, h'.rounded, hopening, hclosing, ← mul_sub]
    push_cast
    rw [mul_assoc, mul_div_mul_left _ _ hmq]
  refine ⟨hreturn, FixedDecimal.ext ?_⟩
  rw [h.after_eq, h'.after_eq, hreturn]

section
variable {m : ℤ} {factors after : RunningFactors}
    {previous previous' session session' : PerformanceSession}
  {point : PortfolioDailyPerformancePoint}

/-- **The returns of a multiple.** -/
theorem sameReturns_of_dayOf (hm : 0 < m) (hprevious : SessionMultiple m previous previous')
    (hsession : SessionMultiple m session session') {after' : RunningFactors}
    {point' : PortfolioDailyPerformancePoint} (h : DayOf factors previous session point after)
    (h' : DayOf factors previous' session' point' after') :
    SameReturns point point' ∧ after' = after := by
  obtain ⟨hdaily, hafter⟩ := h.portfolio.unique hm.ne' hprevious.1.netAssetValue
    (by rw [hsession.1.netAssetValue, hsession.1.netExternalFlow, mul_sub]) h'.portfolio
  obtain ⟨hbenchmark, hafter'⟩ := h.benchmark.unique one_ne_zero
    (by rw [hprevious.2, one_mul]) (by rw [hsession.2, one_mul]) h'.benchmark
  have hcumulative : point'.cumulativeReturn = point.cumulativeReturn := by
    apply FixedDecimal.ext
    rw [h.cumulative, h'.cumulative, hafter]
  have hbenchmarkCumulative : point'.benchmarkCumulativeReturn = point.benchmarkCumulativeReturn := by
    apply FixedDecimal.ext
    rw [h.benchmarkCumulative, h'.benchmarkCumulative, hafter']
  refine ⟨⟨?_, hdaily, hbenchmark, ?_, hcumulative, hbenchmarkCumulative, ?_⟩,
    Prod.ext hafter hafter'⟩
  · rw [h.valuationAt, h'.valuationAt, hsession.1.valuationAt]
  · apply FixedDecimal.ext
    rw [h.active, h'.active, hdaily, hbenchmark]
  · apply FixedDecimal.ext
    rw [h.activeCumulative, h'.activeCumulative, hcumulative, hbenchmarkCumulative]

/-- A day whose differences still fit is accepted after multiplication. -/
theorem performanceDay_multiple (hm : 0 < m) (hprevious : SessionMultiple m previous previous')
    (hsession : SessionMultiple m session session') (hfit : DifferencesFit m previous.1 session.1)
    (h : performanceDay factors previous session = .ok (point, after)) :
    ∃ point', performanceDay factors previous' session' = .ok (point', after) := by
  obtain ⟨beforeFlow, hflow, h⟩ := bind_eq_ok.mp h
  obtain ⟨pnl, hpnl, h⟩ := bind_eq_ok.mp h
  obtain ⟨⟨r, f⟩, hday, h⟩ := bind_eq_ok.mp h
  rw [FixedDecimal.checkedSub_eq_ok] at hflow hpnl
  -- the two differences are the old ones, multiplied
  obtain ⟨beforeFlow', hbefore⟩ : ∃ x : FixedDecimal, x.scaled
      = m * (session.1.netAssetValue.scaled - session.1.netExternalFlow.scaled) := ⟨⟨_, hfit.1⟩, rfl⟩
  obtain ⟨pnl', hpnlScaled⟩ : ∃ x : FixedDecimal, x.scaled
      = m * (session.1.netAssetValue.scaled - session.1.netExternalFlow.scaled
        - previous.1.netAssetValue.scaled) := ⟨⟨_, hfit.2⟩, rfl⟩
  have hflow' : session'.1.netAssetValue.checkedSub session'.1.netExternalFlow = .ok beforeFlow' := by
    rw [FixedDecimal.checkedSub_eq_ok, hsession.1.netAssetValue, hsession.1.netExternalFlow, hbefore,
      mul_sub]
  have hpnl' : beforeFlow'.checkedSub previous'.1.netAssetValue = .ok pnl' := by
    rw [FixedDecimal.checkedSub_eq_ok, hprevious.1.netAssetValue, hbefore, hpnlScaled, ← mul_sub]
  have hday' : dailyFactor pnl' previous'.1.netAssetValue = .ok (r, f) := by
    have hmultiple : pnl'.scaled = m * pnl.scaled := by rw [hpnlScaled, hpnl, hflow]
    rw [← hday, dailyFactor, dailyFactor,
      FixedDecimal.divRoundTiesEven_scale hm hmultiple hprevious.1.netAssetValue]
  obtain ⟨levelPnl, hlevel, h⟩ := bind_eq_ok.mp h
  obtain ⟨⟨r', f'⟩, hlevelDay, h⟩ := bind_eq_ok.mp h
  obtain ⟨cumulative, hcumulative, h⟩ := bind_eq_ok.mp h
  obtain ⟨cumulative', hcumulative', h⟩ := bind_eq_ok.mp h
  obtain ⟨ret, hret, h⟩ := bind_eq_ok.mp h
  obtain ⟨ret', hret', h⟩ := bind_eq_ok.mp h
  obtain ⟨active, hactive, h⟩ := bind_eq_ok.mp h
  obtain ⟨active', hactive', h⟩ := bind_eq_ok.mp h
  obtain ⟨-, rfl⟩ := Prod.mk.inj (Except.ok.inj h)
  rw [← hsession.2, ← hprevious.2] at hlevel
  rw [← hprevious.2] at hlevelDay
  refine ⟨⟨session'.1.valuationAt, previous'.1.netAssetValue, session'.1.netAssetValue,
    session'.1.netExternalFlow, pnl', r, r', active, ret, ret', active'⟩, ?_⟩
  unfold performanceDay
  simp only [hflow', hpnl', hday', hlevel, hlevelDay, hcumulative, hcumulative', hret, hret',
    hactive, hactive', ok_bind]
  rfl

end

/-- The loop over a multiple of a series. -/
theorem performanceDays_multiple {m : ℤ} (hm : 0 < m) {factors : RunningFactors}
    {previous previous' : PerformanceSession} {sessions sessions' : List PerformanceSession}
    {points : List PortfolioDailyPerformancePoint}
    (hprevious : SessionMultiple m previous previous')
    (hsessions : List.Forall₂ (SessionMultiple m) sessions sessions')
    (h : performanceDays factors previous sessions = .ok points) :
    (∀ points', performanceDays factors previous' sessions' = .ok points' →
      List.Forall₂ SameReturns points points') ∧
    ((∀ pair ∈ (previous :: sessions).zip sessions, DifferencesFit m pair.1.1 pair.2.1) →
      ∃ points', performanceDays factors previous' sessions' = .ok points') := by
  induction hsessions generalizing factors previous previous' points with
  | nil =>
    obtain rfl := Except.ok.inj h
    refine ⟨fun points' h' => ?_, fun _ => ⟨[], rfl⟩⟩
    obtain rfl := Except.ok.inj h'
    exact .nil
  | cons hsession hrest ih =>
    obtain ⟨⟨point, after⟩, hday, h⟩ := bind_eq_ok.mp h
    obtain ⟨tail, htail, h⟩ := bind_eq_ok.mp h
    obtain rfl := Except.ok.inj h
    obtain ⟨hsame, hexists⟩ := ih hsession htail
    constructor
    · intro points' h'
      obtain ⟨⟨point', after'⟩, hday', h'⟩ := bind_eq_ok.mp h'
      obtain ⟨tail', htail', h'⟩ := bind_eq_ok.mp h'
      obtain rfl := Except.ok.inj h'
      obtain ⟨hpoint, rfl⟩ := sameReturns_of_dayOf hm hprevious hsession
        (dayOf_of_performanceDay hday) (dayOf_of_performanceDay hday')
      exact .cons hpoint (hsame tail' htail')
    · intro hfit
      rw [List.zip_cons_cons, List.forall_mem_cons] at hfit
      obtain ⟨point', hday'⟩ := performanceDay_multiple hm hprevious hsession hfit.1 hday
      obtain ⟨tail', htail'⟩ := hexists hfit.2
      exact ⟨point' :: tail', bind_eq_ok.mpr ⟨_, hday', bind_eq_ok.mpr ⟨tail', htail', rfl⟩⟩⟩

/-! ### Aligned sessions -/

/-- Sessions are aligned when the first two are and the others are. -/
theorem sessionsAligned_cons_cons {first second : PerformanceSession}
    {rest : List PerformanceSession} :
    SessionsAligned (first :: second :: rest) ↔ first.1.valuationAt = first.2.valuationAt ∧
      first.1.valuationAt.instant < second.1.valuationAt.instant ∧
      SessionsAligned (second :: rest) := by
  simp only [SessionsAligned, List.forall_mem_cons, List.tail_cons, List.zip_cons_cons]
  exact ⟨fun ⟨⟨h, hs⟩, ht, hts⟩ => ⟨h, ht, hs, hts⟩, fun ⟨h, ht, hs, hts⟩ => ⟨⟨h, hs⟩, ht, hts⟩⟩

/-- One session is aligned when both its sides are valued at one time. -/
theorem sessionsAligned_singleton {session : PerformanceSession} :
    SessionsAligned [session] ↔ session.1.valuationAt = session.2.valuationAt := by
  simp [SessionsAligned]

/-- The first of some aligned sessions are aligned. -/
theorem sessionsAligned_take {sessions : List PerformanceSession} (h : SessionsAligned sessions)
    (k : ℕ) : SessionsAligned (sessions.take k) := by
  induction sessions generalizing k with
  | nil =>
    rw [List.take_nil]
    exact h
  | cons first rest ih =>
    cases rest with
    | nil =>
      cases k with
      | zero => exact ⟨by simp, by simp⟩
      | succ k => rwa [List.take_succ_cons, List.take_nil]
    | cons second rest =>
      obtain ⟨hequal, hless, hrest⟩ := sessionsAligned_cons_cons.mp h
      match k with
      | 0 => exact ⟨by simp, by simp⟩
      | 1 => exact sessionsAligned_singleton.mpr hequal
      | k + 2 => exact sessionsAligned_cons_cons.mpr ⟨hequal, hless, ih hrest (k + 1)⟩

/-- What the series are multiplied to has the same times. -/
theorem sessionsAligned_multiple {m : ℤ} {sessions sessions' : List PerformanceSession}
    (h : List.Forall₂ (SessionMultiple m) sessions sessions') (haligned : SessionsAligned sessions) :
    SessionsAligned sessions' := by
  induction h with
  | nil => exact haligned
  | cons hsession hrest ih =>
    cases hrest with
    | nil =>
      rw [sessionsAligned_singleton] at haligned ⊢
      rw [hsession.1.valuationAt, hsession.2, haligned]
    | cons hnext hrest =>
      rw [sessionsAligned_cons_cons] at haligned ⊢
      obtain ⟨hequal, hless, haligned⟩ := haligned
      refine ⟨?_, ?_, ih haligned⟩
      · rw [hsession.1.valuationAt, hsession.2, hequal]
      · rw [hsession.1.valuationAt, hnext.1.valuationAt]
        exact hless

/-- Multiples of the portfolio's sessions are multiples beside any benchmark. -/
theorem forall₂_zip_multiple {m : ℤ} {portfolio portfolio' : List PortfolioSessionAggregate}
    (h : List.Forall₂ (MultipleOf m) portfolio portfolio') (benchmark : List BenchmarkSessionLevel) :
    List.Forall₂ (SessionMultiple m) (portfolio.zip benchmark) (portfolio'.zip benchmark) := by
  induction h generalizing benchmark with
  | nil => exact .nil
  | cons hsession hrest ih =>
    cases benchmark with
    | nil => exact .nil
    | cons level benchmark => exact .cons ⟨hsession, rfl⟩ (ih benchmark)

/-! ### What the points of an accepted series say -/

/-- What a point says of the two sessions of its day: the values and the flow are theirs, the profit is
    what the flow does not explain, and each return is the exact factor less one, rounded once. -/
structure PointOf (opening closing : PerformanceSession) (point : PortfolioDailyPerformancePoint) :
    Prop where
  valuationAt : point.valuationAt = closing.1.valuationAt
  openingNav : point.openingNav = opening.1.netAssetValue
  endingNav : point.endingNav = closing.1.netAssetValue
  netExternalFlow : point.netExternalFlow = closing.1.netExternalFlow
  economicPnl : point.economicPnl.scaled = closing.1.netAssetValue.scaled
    - closing.1.netExternalFlow.scaled - opening.1.netAssetValue.scaled
  dailyReturn : point.dailyReturn.scaled = Decimal.nearestEven
    ((((closing.1.netAssetValue.scaled - closing.1.netExternalFlow.scaled : ℤ) : ℚ)
      / opening.1.netAssetValue.scaled - 1) * 10 ^ 12)
  benchmarkReturn : point.benchmarkReturn.scaled = Decimal.nearestEven
    (((closing.2.level.scaled : ℚ) / opening.2.level.scaled - 1) * 10 ^ 12)
  activeReturn : point.activeReturn.scaled = point.dailyReturn.scaled - point.benchmarkReturn.scaled
  activeCumulativeReturn : point.activeCumulativeReturn.scaled
    = point.cumulativeReturn.scaled - point.benchmarkCumulativeReturn.scaled

/-- The return of a day, from the exact factor of the day. -/
theorem Compounds.return_eq {before after dailyReturn : FixedDecimal} {opening closing : ℤ}
    (h : Compounds before opening closing dailyReturn after) :
    dailyReturn.scaled = Decimal.nearestEven (((closing : ℚ) / opening - 1) * 10 ^ 12) := by
  have hopening : (opening : ℚ) ≠ 0 := by exact_mod_cast h.opening_pos.ne'
  rw [h.rounded]
  congr 1
  push_cast
  field_simp

/-- The day's running factors aside, a day is what its point states. -/
theorem DayOf.pointOf {factors after : RunningFactors} {previous session : PerformanceSession}
    {point : PortfolioDailyPerformancePoint} (h : DayOf factors previous session point after) :
    PointOf previous session point where
  valuationAt := h.valuationAt
  openingNav := h.openingNav
  endingNav := h.endingNav
  netExternalFlow := h.netExternalFlow
  economicPnl := h.economicPnl
  dailyReturn := h.portfolio.return_eq
  benchmarkReturn := h.benchmark.return_eq
  activeReturn := h.active
  activeCumulativeReturn := h.activeCumulative

/-- **Daily performance compounds within rounding.** There is a point for every day, made from the
    two sessions of its day; the cumulative return of every day, and that of the benchmark, is
    within the bound of the exact product; the first value, the profits and the flows add up to the
    last value; the points of the first sessions are the first points; and a multiple of the
    portfolio has the same returns, and is accepted when its differences fit. -/
theorem daily_performance_compounds {portfolio : List PortfolioSessionAggregate}
    {benchmark : List BenchmarkSessionLevel} {points : List PortfolioDailyPerformancePoint}
    (h : calculateDailyPerformance portfolio benchmark = .ok points) :
    points.length + 1 = portfolio.length ∧
    (∀ n point, points[n]? = some point → ∃ opening closing,
      (portfolio.zip benchmark)[n]? = some opening ∧
      (portfolio.zip benchmark)[n + 1]? = some closing ∧ PointOf opening closing point) ∧
    (∀ n < portfolio.length, |factorAfter points (·.cumulativeReturn) n
        - ∏ i ∈ Finset.range n, exactFactor portfolio i|
      ≤ errorBound (1 / 10 ^ 12) (exactFactor portfolio) (onePlus points (·.dailyReturn)) n) ∧
    (∀ n < portfolio.length, |factorAfter points (·.benchmarkCumulativeReturn) n
        - ∏ i ∈ Finset.range n, exactLevelFactor benchmark i|
      ≤ errorBound (1 / 10 ^ 12) (exactLevelFactor benchmark)
          (onePlus points (·.benchmarkReturn)) n) ∧
    (∀ first last, portfolio.head? = some first → portfolio.getLast? = some last →
      first.netAssetValue.scaled
        + (points.map fun point => point.economicPnl.scaled + point.netExternalFlow.scaled).sum
        = last.netAssetValue.scaled) ∧
    (∀ k, 2 ≤ k → calculateDailyPerformance (portfolio.take k) (benchmark.take k)
      = .ok (points.take (k - 1))) ∧
    (∀ m : ℤ, 0 < m → ∀ portfolio', List.Forall₂ (MultipleOf m) portfolio portfolio' →
      (∀ points', calculateDailyPerformance portfolio' benchmark = .ok points' →
        List.Forall₂ SameReturns points points') ∧
      ((∀ pair ∈ portfolio.zip portfolio.tail, DifferencesFit m pair.1 pair.2) →
        ∃ points', calculateDailyPerformance portfolio' benchmark = .ok points')) := by
  obtain ⟨hlength, hequal, haligned, first, rest, hsessions, hdays⟩ :=
    calculateDailyPerformance_eq_ok.mp h
  -- The first session opens the series, every later one closes a day.
  have hcount : points.length + 1 = portfolio.length := by
    have hzip := congrArg List.length hsessions
    rw [List.length_zip, ← hequal, min_self, List.length_cons] at hzip
    rw [length_performanceDays hdays, hzip]
  have hportfolio : portfolio = (first :: rest).map (·.1) := by
    rw [← hsessions, List.map_fst_zip hequal.le]
  refine ⟨hcount, ?_, ?_, ?_, ?_, ?_, ?_⟩
  · intro n point hn
    obtain ⟨before, opening, closing, after, hopening, hclosing, hlevel, hlevel', hof, -⟩ :=
      dayOf_of_getElem h hn
    exact ⟨opening, closing, List.getElem?_zip_eq_some.mpr ⟨hopening, hlevel⟩,
      List.getElem?_zip_eq_some.mpr ⟨hclosing, hlevel'⟩, hof.pointOf⟩
  · intro n hn
    exact ((portfolioColumn h).roundedRun.mono (by omega)).error_le
  · intro n hn
    exact ((benchmarkColumn h).roundedRun.mono (by omega)).error_le
  · intro firstSession lastSession hfirst hlast
    rw [hportfolio] at hfirst hlast
    obtain rfl := Option.some.inj hfirst
    rw [List.getLast?_map] at hlast
    obtain ⟨last, hend, rfl⟩ := Option.map_eq_some_iff.mp hlast
    exact performanceDays_telescope hdays hend
  -- Fewer sessions give the first days of the same series.
  · intro k hk
    rw [calculateDailyPerformance_eq_ok]
    have hzip : (portfolio.take k).zip (benchmark.take k) = (portfolio.zip benchmark).take k := by
      rw [List.zip_eq_zipWith, List.zip_eq_zipWith, List.take_zipWith]
    rw [hzip, List.length_take, List.length_take, hsessions]
    refine ⟨by omega, by omega, ?_, first, rest.take (k - 1), ?_, performanceDays_take hdays (k - 1)⟩
    · rw [← hsessions]
      exact sessionsAligned_take haligned k
    · obtain ⟨k, rfl⟩ : ∃ j, k = j + 1 := ⟨k - 1, by omega⟩
      rfl
  -- Multiplying every amount changes no return, as long as the differences fit.
  · intro m hm portfolio' hmultiple
    have hzip := forall₂_zip_multiple hmultiple benchmark
    rw [hsessions] at hzip
    obtain ⟨first', rest', hfirst, hrest, hsessions'⟩ := List.forall₂_cons_left_iff.mp hzip
    obtain ⟨hsame, hexists⟩ := performanceDays_multiple hm hfirst hrest hdays
    constructor
    · intro points' h'
      obtain ⟨-, -, -, f, r, hfr, hdays'⟩ := calculateDailyPerformance_eq_ok.mp h'
      rw [hsessions'] at hfr
      obtain ⟨rfl, rfl⟩ := List.cons.inj hfr
      exact hsame points' hdays'
    · intro hfit
      have hdifferences : ∀ pair ∈ (first :: rest).zip rest, DifferencesFit m pair.1.1 pair.2.1 := by
        intro pair hpair
        obtain ⟨n, hn⟩ := List.mem_iff_getElem?.mp hpair
        obtain ⟨hopening, hclosing⟩ := List.getElem?_zip_eq_some.mp hn
        have hclosing' : (first :: rest)[n + 1]? = some pair.2 := hclosing
        rw [← hsessions] at hopening hclosing'
        apply hfit (pair.1.1, pair.2.1)
        apply List.mem_iff_getElem?.mpr
        refine ⟨n, List.getElem?_zip_eq_some.mpr ⟨(List.getElem?_zip_eq_some.mp hopening).1, ?_⟩⟩
        rw [List.getElem?_tail]
        exact (List.getElem?_zip_eq_some.mp hclosing').1
      obtain ⟨points', hdays'⟩ := hexists hdifferences
      refine ⟨points', calculateDailyPerformance_eq_ok.mpr
        ⟨?_, ?_, ?_, first', rest', hsessions', hdays'⟩⟩
      · rw [← hmultiple.length_eq]
        exact hlength
      · rw [← hmultiple.length_eq]
        exact hequal
      · exact sessionsAligned_multiple (forall₂_zip_multiple hmultiple benchmark) haligned

/-- The close of a day of January 2026. -/
def sessionClose (day : ℕ) (h : 1 ≤ day ∧ day ≤ 28) : MarketTime :=
  ⟨.ofSeconds (1767225600 + day * 86400) (by omega) (by omega), "UTC",
    ⟨2026, 1, day, by decide, by decide, NaiveDate.epoch.month_ge, NaiveDate.epoch.month_le, h.1, by
      have := h.2
      show day ≤ 31
      omega⟩⟩

/-- The closes of the first three days. -/
def firstClose : MarketTime := sessionClose 1 (by decide)

def secondClose : MarketTime := sessionClose 2 (by decide)

def thirdClose : MarketTime := sessionClose 3 (by decide)

/-- A portfolio that gains a tenth twice: half of the first is paid in, and some of the second is
    paid out. -/
def samplePortfolio : List PortfolioSessionAggregate :=
  [⟨firstClose, .ofScaled 100000000000000, .zero, by decide⟩,
    ⟨secondClose, .ofScaled 110000000000000, .ofScaled 5000000000000, by decide⟩,
    ⟨thirdClose, .ofScaled 121000000000000, ⟨-1000000000000, by decide⟩, by decide⟩]

/-- A benchmark that goes from three to four and to five. -/
def sampleBenchmark : List BenchmarkSessionLevel :=
  [⟨firstClose, .ofScaled 3000000000000, by decide⟩,
    ⟨secondClose, .ofScaled 4000000000000, by decide⟩,
    ⟨thirdClose, .ofScaled 5000000000000, by decide⟩]

/-- Their two days: `0.333333333333` and `1.666666666666` are rounded, and so are `12 / 110` and its
    product. -/
def samplePoints : List PortfolioDailyPerformancePoint :=
  [⟨secondClose, .ofScaled 100000000000000, .ofScaled 110000000000000,
    .ofScaled 5000000000000, .ofScaled 5000000000000, ⟨50000000000, by decide⟩,
    ⟨333333333333, by decide⟩, ⟨-283333333333, by decide⟩, ⟨50000000000, by decide⟩,
    ⟨333333333333, by decide⟩, ⟨-283333333333, by decide⟩⟩,
   ⟨thirdClose, .ofScaled 110000000000000, .ofScaled 121000000000000,
    ⟨-1000000000000, by decide⟩, .ofScaled 12000000000000, ⟨109090909091, by decide⟩,
    ⟨250000000000, by decide⟩, ⟨-140909090909, by decide⟩, ⟨164545454546, by decide⟩,
    ⟨666666666666, by decide⟩, ⟨-502121212120, by decide⟩⟩]

/-- The two days are what the sessions make. -/
theorem calculateDailyPerformance_sample :
    calculateDailyPerformance samplePortfolio sampleBenchmark = .ok samplePoints := by
  decide +kernel

theorem daily_performance_compounds_sample :
    ∃ points, calculateDailyPerformance samplePortfolio sampleBenchmark = .ok points ∧
      points.length = 2 ∧
      |factorAfter points (·.cumulativeReturn) 2 - ∏ i ∈ Finset.range 2, exactFactor samplePortfolio i|
        ≤ errorBound (1 / 10 ^ 12) (exactFactor samplePortfolio) (onePlus points (·.dailyReturn)) 2 ∧
      |factorAfter points (·.benchmarkCumulativeReturn) 2
          - ∏ i ∈ Finset.range 2, exactLevelFactor sampleBenchmark i|
        ≤ errorBound (1 / 10 ^ 12) (exactLevelFactor sampleBenchmark)
            (onePlus points (·.benchmarkReturn)) 2 ∧
      100000000000000 + (points.map fun point =>
        point.economicPnl.scaled + point.netExternalFlow.scaled).sum = 121000000000000 := by
  obtain ⟨hcount, -, hportfolio, hbenchmark, hsum, -⟩ :=
    daily_performance_compounds calculateDailyPerformance_sample
  exact ⟨samplePoints, calculateDailyPerformance_sample, Nat.succ.inj hcount,
    hportfolio 2 (by decide), hbenchmark 2 (by decide), hsum _ _ rfl rfl⟩

/-! ### When a cumulative return reaches minus one -/

/-- The rounded factor, in units of `10⁻¹²`, of a day that goes from `opening` to `closing`. -/
def roundedFactor (opening closing : ℤ) : ℤ :=
  1000000000000 + Decimal.nearestEven (((closing - opening : ℤ) : ℚ) * 10 ^ 12 / opening)

/-- Where the days of a portfolio go from and to, flows taken out. -/
def portfolioDays (portfolio : List PortfolioSessionAggregate) : List (ℤ × ℤ) :=
  List.zipWith (fun opening closing => (opening.netAssetValue.scaled,
    closing.netAssetValue.scaled - closing.netExternalFlow.scaled)) portfolio portfolio.tail

/-- Where the days of a benchmark go from and to. -/
def benchmarkDays (benchmark : List BenchmarkSessionLevel) : List (ℤ × ℤ) :=
  List.zipWith (fun opening closing => (opening.level.scaled, closing.level.scaled)) benchmark
    benchmark.tail

/-- No day takes the running factor, in units, to half a unit or less: the factor before the day
    times the factor of the day is more than half a unit. -/
def KeepsHalfUnit : ℤ → List (ℤ × ℤ) → Prop
  | _, [] => True
  | before, (opening, closing) :: days =>
    10 ^ 12 < 2 * (before * roundedFactor opening closing) ∧
    KeepsHalfUnit
      (Decimal.nearestEven ((before : ℚ) * roundedFactor opening closing / 10 ^ 12)) days

/-- A number is rounded to a positive one when it is above one half. -/
theorem nearestEven_pos_iff {q : ℚ} : 0 < Decimal.nearestEven q ↔ 1 / 2 < q := by
  obtain ⟨hle, htie⟩ := Decimal.nearestEven_spec q
  obtain ⟨hlow, hhigh⟩ := abs_le.mp hle
  constructor
  · intro hpos
    have hone : (1 : ℚ) ≤ Decimal.nearestEven q := by exact_mod_cast hpos
    by_contra hhalf
    -- then `q` is one half and has been rounded to one, which is odd
    have hq : q = 1 / 2 := by linarith
    have hrounded : Decimal.nearestEven q = 1 := by
      have hupper : (Decimal.nearestEven q : ℚ) ≤ 1 := by linarith
      have : Decimal.nearestEven q ≤ 1 := by exact_mod_cast hupper
      omega
    rw [hrounded, hq] at htie
    have heven := htie (by norm_num [abs_of_neg])
    exact absurd heven (by decide)
  · intro hhalf
    by_contra hnot
    have hzero : (Decimal.nearestEven q : ℚ) ≤ 0 := by exact_mod_cast not_lt.mp hnot
    linarith

/-- A day keeps the running factor positive when the product is more than half a unit. -/
theorem Compounds.after_pos_iff {before after dailyReturn : FixedDecimal} {opening closing : ℤ}
    (h : Compounds before opening closing dailyReturn after) :
    0 < after.scaled ↔ 10 ^ 12 < 2 * (before.scaled * roundedFactor opening closing) := by
  have hfactor : roundedFactor opening closing = 1000000000000 + dailyReturn.scaled := by
    rw [roundedFactor, h.rounded]
  rw [h.after_eq, nearestEven_pos_iff, hfactor, lt_div_iff₀ (by positivity)]
  constructor
  · intro hlt
    have hdouble : (10 : ℚ) ^ 12
        < 2 * (before.scaled * ((1000000000000 + dailyReturn.scaled : ℤ) : ℚ)) := by
      linarith
    exact_mod_cast hdouble
  · intro hlt
    have hdouble : (10 : ℚ) ^ 12
        < 2 * (before.scaled * ((1000000000000 + dailyReturn.scaled : ℤ) : ℚ)) := by
      exact_mod_cast hlt
    linarith

/-- The running factor after a day, from its inputs. -/
theorem Compounds.after_scaled {before after dailyReturn : FixedDecimal} {opening closing : ℤ}
    (h : Compounds before opening closing dailyReturn after) :
    after.scaled
      = Decimal.nearestEven ((before.scaled : ℚ) * roundedFactor opening closing / 10 ^ 12) := by
  rw [h.after_eq, roundedFactor, h.rounded]

/-- The cumulative returns of a loop stay above minus one as long as no day loses the factor. -/
theorem performanceDays_gt_iff {factors : RunningFactors} {previous : PerformanceSession}
    {sessions : List PerformanceSession} {points : List PortfolioDailyPerformancePoint}
    (h : performanceDays factors previous sessions = .ok points) :
    ((∀ point ∈ points, -1000000000000 < point.cumulativeReturn.scaled) ↔
      KeepsHalfUnit factors.1.scaled (portfolioDays ((previous :: sessions).map (·.1)))) ∧
    ((∀ point ∈ points, -1000000000000 < point.benchmarkCumulativeReturn.scaled) ↔
      KeepsHalfUnit factors.2.scaled (benchmarkDays ((previous :: sessions).map (·.2)))) := by
  -- The running factor is positive after a day exactly when it keeps half a unit.
  induction sessions generalizing factors previous points with
  | nil =>
    obtain rfl := Except.ok.inj h
    exact ⟨iff_of_true (by simp) trivial, iff_of_true (by simp) trivial⟩
  | cons session rest ih =>
    obtain ⟨⟨point, after⟩, hday, h⟩ := bind_eq_ok.mp h
    obtain ⟨tail, htail, h⟩ := bind_eq_ok.mp h
    obtain rfl := Except.ok.inj h
    obtain ⟨hportfolio, hbenchmark⟩ := ih htail
    have hof := dayOf_of_performanceDay hday
    rw [List.forall_mem_cons, List.forall_mem_cons, hportfolio, hbenchmark]
    constructor
    · show _ ↔ _ ∧ KeepsHalfUnit _ _
      rw [hof.portfolio.after_scaled, ← hof.portfolio.after_pos_iff, hof.cumulative]
      exact and_congr_left' ⟨fun _ => by omega, fun _ => by omega⟩
    · show _ ↔ _ ∧ KeepsHalfUnit _ _
      rw [hof.benchmark.after_scaled, ← hof.benchmark.after_pos_iff, hof.benchmarkCumulative]
      exact and_congr_left' ⟨fun _ => by omega, fun _ => by omega⟩

/-- A factor that is lost stays lost. -/
theorem Compounds.after_eq_zero {before after dailyReturn : FixedDecimal} {opening closing : ℤ}
    (h : Compounds before opening closing dailyReturn after) (hzero : before.scaled = 0) :
    after.scaled = 0 := by
  rw [h.after_eq, hzero]
  have hnearest : Decimal.nearestEven 0 = 0 :=
    Decimal.nearestEven_eq_iff.mpr ⟨by norm_num, fun _ => by decide⟩
  rw [Int.cast_zero, zero_mul, zero_div, hnearest]

/-- **When a cumulative return reaches minus one.** The cumulative returns of an accepted series
    all stay above minus one exactly when no day takes a running factor to half a unit or less;
    and a return of minus one is kept by the next day. -/
theorem cumulative_return_gt_iff {portfolio : List PortfolioSessionAggregate}
    {benchmark : List BenchmarkSessionLevel} {points : List PortfolioDailyPerformancePoint}
    (h : calculateDailyPerformance portfolio benchmark = .ok points) :
    ((∀ point ∈ points, -1 < point.cumulativeReturn.toRat ∧
        -1 < point.benchmarkCumulativeReturn.toRat) ↔
      KeepsHalfUnit 1000000000000 (portfolioDays portfolio) ∧
      KeepsHalfUnit 1000000000000 (benchmarkDays benchmark)) ∧
    (∀ (n : ℕ) (point next : PortfolioDailyPerformancePoint),
      points[n]? = some point → points[n + 1]? = some next →
      (point.cumulativeReturn.toRat = -1 → next.cumulativeReturn.toRat = -1) ∧
      (point.benchmarkCumulativeReturn.toRat = -1 →
        next.benchmarkCumulativeReturn.toRat = -1)) := by
  -- Both conditions are about the scaled integers.
  have hgt : ∀ x : FixedDecimal, -1 < x.toRat ↔ -1000000000000 < x.scaled := by
    intro x
    rw [FixedDecimal.toRat, lt_div_iff₀ (by positivity)]
    constructor
    · intro hlt
      have hlt' : ((-1000000000000 : ℤ) : ℚ) < x.scaled := by
        push_cast
        linarith
      exact_mod_cast hlt'
    · intro hlt
      have hlt' : ((-1000000000000 : ℤ) : ℚ) < x.scaled := by exact_mod_cast hlt
      push_cast at hlt'
      linarith
  have hlost : ∀ x : FixedDecimal, x.toRat = -1 ↔ x.scaled = -1000000000000 := by
    intro x
    rw [FixedDecimal.toRat, div_eq_iff (by positivity)]
    constructor
    · intro heq
      have heq' : (x.scaled : ℚ) = ((-1000000000000 : ℤ) : ℚ) := by
        rw [heq]
        norm_num
      exact_mod_cast heq'
    · intro heq
      rw [heq]
      norm_num
  constructor
  · obtain ⟨-, hequal, -, first, rest, hsessions, hdays⟩ := calculateDailyPerformance_eq_ok.mp h
    obtain ⟨hportfolio, hbenchmark⟩ := performanceDays_gt_iff hdays
    rw [← hsessions, List.map_fst_zip hequal.le, FixedDecimal.scaled_one] at hportfolio
    rw [← hsessions, List.map_snd_zip hequal.ge, FixedDecimal.scaled_one] at hbenchmark
    simp only [hgt]
    rw [← hportfolio, ← hbenchmark]
    exact ⟨fun hall => ⟨fun p hp => (hall p hp).1, fun p hp => (hall p hp).2⟩,
      fun hall p hp => ⟨hall.1 p hp, hall.2 p hp⟩⟩
  -- A factor that has reached zero stays there.
  · intro n point next hpoint hnext
    obtain ⟨before, opening, closing, after, -, -, -, -, hof, -, hearlier⟩ := dayOf_of_getElem h hnext
    obtain ⟨hfirst, hsecond⟩ := hearlier n point rfl hpoint
    have hcumulative := hof.cumulative
    have hbenchmark := hof.benchmarkCumulative
    simp only [hlost]
    constructor
    · intro hminus
      have hzero := hof.portfolio.after_eq_zero (by omega)
      omega
    · intro hminus
      have hzero := hof.benchmark.after_eq_zero (by omega)
      omega

/-- A portfolio that twice loses all but one unit of its value. -/
def vanishingPortfolio : List PortfolioSessionAggregate :=
  [⟨firstClose, ⟨1000000000000000000000000, by decide⟩, .zero, by decide⟩,
    ⟨secondClose, .one, .zero, by decide⟩,
    ⟨thirdClose, ⟨1, by decide⟩, .zero, by decide⟩]

/-- A benchmark that stays where it is. -/
def flatBenchmark : List BenchmarkSessionLevel :=
  [⟨firstClose, .one, by decide⟩, ⟨secondClose, .one, by decide⟩,
    ⟨thirdClose, .one, by decide⟩]

/-- **A return of minus one** from two days that each pass the check on their factor. -/
theorem vanishing_portfolio_lost :
    ∃ points, calculateDailyPerformance vanishingPortfolio flatBenchmark = .ok points ∧
      points.map (fun point => point.cumulativeReturn.toRat)
        = [-999999999999 / 1000000000000, -1] ∧
      ¬ ∀ point ∈ points, -1 < point.cumulativeReturn.toRat := by
  -- The two days, evaluated.
  have hrun : (calculateDailyPerformance vanishingPortfolio flatBenchmark).toOption.map
      (fun points => points.map fun point => point.cumulativeReturn.toRat)
      = some [-999999999999 / 1000000000000, -1] := by
    decide +kernel
  cases hpoints : calculateDailyPerformance vanishingPortfolio flatBenchmark with
  | error code =>
    rw [hpoints] at hrun
    cases hrun
  | ok points =>
    rw [hpoints] at hrun
    have hreturns : points.map (fun point => point.cumulativeReturn.toRat)
        = [-999999999999 / 1000000000000, -1] := Option.some.inj hrun
    refine ⟨points, rfl, hreturns, fun hall => ?_⟩
    have hmem : (-1 : ℚ) ∈ points.map fun point => point.cumulativeReturn.toRat := by
      rw [hreturns]
      exact List.mem_cons_of_mem _ List.mem_cons_self
    obtain ⟨point, hpoint, hlost⟩ := List.mem_map.mp hmem
    have hgreater := hall point hpoint
    rw [hlost] at hgreater
    exact lt_irrefl _ hgreater

theorem cumulative_return_gt_iff_sample :
    calculateDailyPerformance samplePortfolio sampleBenchmark = .ok samplePoints ∧
    KeepsHalfUnit 1000000000000 (portfolioDays samplePortfolio) ∧
    KeepsHalfUnit 1000000000000 (benchmarkDays sampleBenchmark) := by
  refine ⟨calculateDailyPerformance_sample,
    (cumulative_return_gt_iff calculateDailyPerformance_sample).1.mp ?_⟩
  decide +kernel

end Ficant
