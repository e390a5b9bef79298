import Ficant.Lib.RoundedProduct
import Ficant.Primitives.FixedArithmetic

namespace Ficant

open Lib

/-!
# Daily performance

Daily time-weighted returns and their compounding (`ficant-domain/src/portfolio/performance.rs`).

* `PortfolioSessionAggregate`, `BenchmarkSessionLevel` — what is known at the close of a session;
* `performanceDay` — one pass of the loop: the returns of a day and the running factors after it;
* `calculateDailyPerformance` — the checks on the two series and the loop;
* `performanceDays_getElem` — the pass that made a point, and the point before it;
* `Compounds` — the portfolio and the benchmark alike: a rounded daily factor and a rounded
  running product.

The convention and the snapshots the series are read from are not modelled here.
-/

/-! ### The series -/

/-- `PortfolioSessionAggregate`. -/
structure PortfolioSessionAggregate where
  valuationAt : MarketTime
  netAssetValue : FixedDecimal
  netExternalFlow : FixedDecimal
  positive : netAssetValue.isPositive = true
  deriving DecidableEq

/-- `PortfolioSessionAggregate::new`. -/
def PortfolioSessionAggregate.new (valuationAt : MarketTime)
    (netAssetValue netExternalFlow : FixedDecimal) :
    Except DomainErrorCode PortfolioSessionAggregate :=
  if h : netAssetValue.isPositive = true then .ok ⟨valuationAt, netAssetValue, netExternalFlow, h⟩
  else .error .invalidValue

/-- `BenchmarkSessionLevel`. -/
structure BenchmarkSessionLevel where
  valuationAt : MarketTime
  level : FixedDecimal
  positive : level.isPositive = true
  deriving DecidableEq

/-- `BenchmarkSessionLevel::new`. -/
def BenchmarkSessionLevel.new (valuationAt : MarketTime) (level : FixedDecimal) :
    Except DomainErrorCode BenchmarkSessionLevel :=
  if h : level.isPositive = true then .ok ⟨valuationAt, level, h⟩ else .error .invalidValue

/-- `PortfolioDailyPerformancePoint`. -/
structure PortfolioDailyPerformancePoint where
  valuationAt : MarketTime
  openingNav : FixedDecimal
  endingNav : FixedDecimal
  netExternalFlow : FixedDecimal
  economicPnl : FixedDecimal
  dailyReturn : FixedDecimal
  benchmarkReturn : FixedDecimal
  activeReturn : FixedDecimal
  cumulativeReturn : FixedDecimal
  benchmarkCumulativeReturn : FixedDecimal
  activeCumulativeReturn : FixedDecimal
  deriving DecidableEq

/-! ### The loop -/

/-- Both series at one session. -/
abbrev PerformanceSession := PortfolioSessionAggregate × BenchmarkSessionLevel

/-- The running factors of the portfolio and of the benchmark. -/
abbrev RunningFactors := FixedDecimal × FixedDecimal

/-- A return over a day and the factor it makes, which must be positive. -/
def dailyFactor (pnl opening : FixedDecimal) :
    Except DomainErrorCode (FixedDecimal × FixedDecimal) := do
  let dailyReturn ← pnl.divRoundTiesEven opening
  let factor ← FixedDecimal.one.checkedAdd dailyReturn
  rejectIf (factor.isPositive = false) .invalidValue
  return (dailyReturn, factor)

/-- One pass of the loop of `calculate_daily_performance`. -/
def performanceDay (factors : RunningFactors) (previous session : PerformanceSession) :
    Except DomainErrorCode (PortfolioDailyPerformancePoint × RunningFactors) := do
  let openingNav := previous.1.netAssetValue
  let endingNav := session.1.netAssetValue
  let flow := session.1.netExternalFlow
  let beforeFlow ← endingNav.checkedSub flow
  let economicPnl ← beforeFlow.checkedSub openingNav
  let (dailyReturn, factor) ← dailyFactor economicPnl openingNav
  let openingLevel := previous.2.level
  let benchmarkPnl ← session.2.level.checkedSub openingLevel
  let (benchmarkReturn, benchmarkFactor) ← dailyFactor benchmarkPnl openingLevel
  let cumulativeFactor ← factors.1.checkedMulRoundTiesEven factor
  let benchmarkCumulativeFactor ← factors.2.checkedMulRoundTiesEven benchmarkFactor
  let cumulativeReturn ← cumulativeFactor.checkedSub .one
  let benchmarkCumulativeReturn ← benchmarkCumulativeFactor.checkedSub .one
  let activeReturn ← dailyReturn.checkedSub benchmarkReturn
  let activeCumulativeReturn ← cumulativeReturn.checkedSub benchmarkCumulativeReturn
  return (⟨session.1.valuationAt, openingNav, endingNav, flow, economicPnl, dailyReturn,
    benchmarkReturn, activeReturn, cumulativeReturn, benchmarkCumulativeReturn,
    activeCumulativeReturn⟩, (cumulativeFactor, benchmarkCumulativeFactor))

/-- The loop of `calculate_daily_performance`, after the session `previous`. -/
def performanceDays (factors : RunningFactors) (previous : PerformanceSession) :
    List PerformanceSession → Except DomainErrorCode (List PortfolioDailyPerformancePoint)
  | [] => .ok []
  | session :: rest => do
    let (point, factors) ← performanceDay factors previous session
    let points ← performanceDays factors session rest
    return point :: points

/-- What the first loop of `calculate_daily_performance` checks: both series have the same times,
    and the times increase. -/
def SessionsAligned (sessions : List PerformanceSession) : Prop :=
  (∀ session ∈ sessions, session.1.valuationAt = session.2.valuationAt) ∧
  ∀ pair ∈ sessions.zip sessions.tail,
    pair.1.1.valuationAt.instant < pair.2.1.valuationAt.instant

instance (sessions : List PerformanceSession) : Decidable (SessionsAligned sessions) :=
  inferInstanceAs (Decidable (_ ∧ _))

/-- `calculate_daily_performance`. -/
def calculateDailyPerformance (portfolio : List PortfolioSessionAggregate)
    (benchmark : List BenchmarkSessionLevel) :
    Except DomainErrorCode (List PortfolioDailyPerformancePoint) := do
  rejectIf (portfolio.length < 2 ∨ portfolio.length ≠ benchmark.length) .invalidValue
  rejectIf (¬ SessionsAligned (portfolio.zip benchmark)) .invalidEffectiveTime
  match portfolio.zip benchmark with
  | [] => .ok []
  | first :: rest => performanceDays (.one, .one) first rest

/-! ### One day -/

/-- What a day does to one running factor, `before` and `after` it: the value went from `opening`
    to `closing` over the day, flows taken out. -/
structure Compounds (before : FixedDecimal) (opening closing : ℤ) (dailyReturn after : FixedDecimal) :
    Prop where
  opening_pos : 0 < opening
  rounded : dailyReturn.scaled
    = Decimal.nearestEven (((closing - opening : ℤ) : ℚ) * 10 ^ 12 / opening)
  factor_pos : 0 < 1000000000000 + dailyReturn.scaled
  after_eq : after.scaled
    = Decimal.nearestEven ((before.scaled : ℚ) * (1000000000000 + dailyReturn.scaled : ℤ) / 10 ^ 12)

theorem dailyFactor_eq_ok {pnl opening dailyReturn factor : FixedDecimal}
    (h : dailyFactor pnl opening = .ok (dailyReturn, factor)) :
    dailyReturn.scaled = pnl.quotient opening ∧
    factor.scaled = 1000000000000 + dailyReturn.scaled ∧ 0 < factor.scaled := by
  obtain ⟨r, hr, h⟩ := bind_eq_ok.mp h
  obtain ⟨f, hf, h⟩ := bind_eq_ok.mp h
  obtain ⟨⟨⟩, hpos, h⟩ := bind_eq_ok.mp h
  obtain ⟨rfl, rfl⟩ := Prod.mk.inj (Except.ok.inj h)
  rw [FixedDecimal.divRoundTiesEven_eq_ok] at hr
  rw [FixedDecimal.checkedAdd_eq_ok] at hf
  rw [rejectIf_eq_ok, Bool.not_eq_false, FixedDecimal.isPositive_iff] at hpos
  exact ⟨hr.2, hf, hpos⟩

/-- What a pass of the loop leaves in a point. -/
structure DayOf (factors : RunningFactors) (previous session : PerformanceSession)
    (point : PortfolioDailyPerformancePoint) (after : RunningFactors) : Prop where
  valuationAt : point.valuationAt = session.1.valuationAt
  openingNav : point.openingNav = previous.1.netAssetValue
  endingNav : point.endingNav = session.1.netAssetValue
  netExternalFlow : point.netExternalFlow = session.1.netExternalFlow
  economicPnl : point.economicPnl.scaled = session.1.netAssetValue.scaled
    - session.1.netExternalFlow.scaled - previous.1.netAssetValue.scaled
  portfolio : Compounds factors.1 previous.1.netAssetValue.scaled
    (session.1.netAssetValue.scaled - session.1.netExternalFlow.scaled) point.dailyReturn after.1
  benchmark : Compounds factors.2 previous.2.level.scaled session.2.level.scaled
    point.benchmarkReturn after.2
  cumulative : point.cumulativeReturn.scaled = after.1.scaled - 1000000000000
  benchmarkCumulative : point.benchmarkCumulativeReturn.scaled = after.2.scaled - 1000000000000
  active : point.activeReturn.scaled = point.dailyReturn.scaled - point.benchmarkReturn.scaled
  activeCumulative : point.activeCumulativeReturn.scaled
    = point.cumulativeReturn.scaled - point.benchmarkCumulativeReturn.scaled

/-- The rounded factor of a day, compounded. -/
theorem compounds_of {before opening pnl dailyReturn factor after : FixedDecimal} {closing : ℤ}
    (hpositive : opening.isPositive = true) (hpnl : pnl.scaled = closing - opening.scaled)
    (hday : dailyFactor pnl opening = .ok (dailyReturn, factor))
    (hafter : before.checkedMulRoundTiesEven factor = .ok after) :
    Compounds before opening.scaled closing dailyReturn after := by
  obtain ⟨hreturn, hfactor, hpos⟩ := dailyFactor_eq_ok hday
  have hproduct := (FixedDecimal.checkedMulRoundTiesEven_eq_ok.mp hafter).2
  refine ⟨FixedDecimal.isPositive_iff.mp hpositive, ?_, ?_, ?_⟩
  · rw [hreturn, FixedDecimal.quotient, hpnl]
  · rw [← hfactor]
    exact hpos
  · rw [hproduct, FixedDecimal.product, hfactor]

/-- **One day.** -/
theorem dayOf_of_performanceDay {factors after : RunningFactors}
    {previous session : PerformanceSession}
    {point : PortfolioDailyPerformancePoint}
    (h : performanceDay factors previous session = .ok (point, after)) :
    DayOf factors previous session point after := by
  obtain ⟨beforeFlow, hflow, h⟩ := bind_eq_ok.mp h
  obtain ⟨pnl, hpnl, h⟩ := bind_eq_ok.mp h
  obtain ⟨⟨r, f⟩, hday, h⟩ := bind_eq_ok.mp h
  obtain ⟨levelPnl, hlevel, h⟩ := bind_eq_ok.mp h
  obtain ⟨⟨r', f'⟩, hday', h⟩ := bind_eq_ok.mp h
  obtain ⟨cumulative, hcumulative, h⟩ := bind_eq_ok.mp h
  obtain ⟨cumulative', hcumulative', h⟩ := bind_eq_ok.mp h
  obtain ⟨ret, hret, h⟩ := bind_eq_ok.mp h
  obtain ⟨ret', hret', h⟩ := bind_eq_ok.mp h
  obtain ⟨active, hactive, h⟩ := bind_eq_ok.mp h
  obtain ⟨active', hactive', h⟩ := bind_eq_ok.mp h
  obtain ⟨rfl, rfl⟩ := Prod.mk.inj (Except.ok.inj h)
  -- Every difference that was taken is exact.
  rw [FixedDecimal.checkedSub_eq_ok] at hflow hpnl hlevel hret hret' hactive hactive'
  rw [hflow] at hpnl
  exact {
    valuationAt := rfl
    openingNav := rfl
    endingNav := rfl
    netExternalFlow := rfl
    economicPnl := hpnl
    portfolio := compounds_of previous.1.positive hpnl hday hcumulative
    benchmark := compounds_of previous.2.positive hlevel hday' hcumulative'
    cumulative := hret
    benchmarkCumulative := hret'
    active := hactive
    activeCumulative := hactive' }

/-! ### A whole series -/

/-- The running factors after a point. -/
def FactorsAfter (point : PortfolioDailyPerformancePoint) (factors : RunningFactors) : Prop :=
  factors.1.scaled = 1000000000000 + point.cumulativeReturn.scaled ∧
  factors.2.scaled = 1000000000000 + point.benchmarkCumulativeReturn.scaled

theorem DayOf.factorsAfter {factors after : RunningFactors} {previous session : PerformanceSession}
    {point : PortfolioDailyPerformancePoint} (h : DayOf factors previous session point after) :
    FactorsAfter point after := by
  have hcumulative := h.cumulative
  have hbenchmark := h.benchmarkCumulative
  constructor <;> omega

theorem length_performanceDays {factors : RunningFactors} {previous : PerformanceSession}
    {sessions : List PerformanceSession} {points : List PortfolioDailyPerformancePoint}
    (h : performanceDays factors previous sessions = .ok points) :
    points.length = sessions.length := by
  induction sessions generalizing factors previous points with
  | nil =>
    obtain rfl := Except.ok.inj h
    rfl
  | cons session rest ih =>
    obtain ⟨⟨point, after⟩, -, h⟩ := bind_eq_ok.mp h
    obtain ⟨tail, htail, h⟩ := bind_eq_ok.mp h
    obtain rfl := Except.ok.inj h
    rw [List.length_cons, List.length_cons, ih htail]

/-- **The pass that made a point.** It starts from the two sessions of its day, and from the
    factors the point before it ended with. -/
theorem performanceDays_getElem {factors : RunningFactors} {previous : PerformanceSession}
    {sessions : List PerformanceSession} {points : List PortfolioDailyPerformancePoint}
    (h : performanceDays factors previous sessions = .ok points) {n : ℕ}
    {point : PortfolioDailyPerformancePoint} (hn : points[n]? = some point) :
    ∃ before opening closing after, (previous :: sessions)[n]? = some opening ∧
      (previous :: sessions)[n + 1]? = some closing ∧ DayOf before opening closing point after ∧
      (n = 0 → before = factors) ∧
      ∀ m earlier, n = m + 1 → points[m]? = some earlier → FactorsAfter earlier before := by
  induction sessions generalizing factors previous points n with
  | nil =>
    obtain rfl := Except.ok.inj h
    cases hn
  | cons session rest ih =>
    obtain ⟨⟨first, after⟩, hday, h⟩ := bind_eq_ok.mp h
    obtain ⟨tail, htail, h⟩ := bind_eq_ok.mp h
    obtain rfl := Except.ok.inj h
    have hfirst := dayOf_of_performanceDay hday
    cases n with
    | zero =>
      obtain rfl := Option.some.inj hn
      exact ⟨factors, previous, session, after, rfl, rfl, hfirst, fun _ => rfl, by omega⟩
    | succ n =>
      obtain ⟨before, opening, closing, after', hopening, hclosing, hof, hstart, hearlier⟩ :=
        ih htail hn
      refine ⟨before, opening, closing, after', hopening, hclosing, hof, by omega, ?_⟩
      intro m earlier hm hget
      obtain rfl : n = m := by omega
      -- the point before is the first one, or an earlier one of the rest
      cases n with
      | zero =>
        obtain rfl := Option.some.inj hget
        rw [hstart rfl]
        exact hfirst.factorsAfter
      | succ m => exact hearlier m earlier rfl hget

/-- The loop over a shorter series makes the first of the points. -/
theorem performanceDays_take {factors : RunningFactors} {previous : PerformanceSession}
    {sessions : List PerformanceSession} {points : List PortfolioDailyPerformancePoint}
    (h : performanceDays factors previous sessions = .ok points) (n : ℕ) :
    performanceDays factors previous (sessions.take n) = .ok (points.take n) := by
  induction sessions generalizing factors previous points n with
  | nil =>
    obtain rfl := Except.ok.inj h
    rw [List.take_nil, List.take_nil]
    rfl
  | cons session rest ih =>
    obtain ⟨⟨first, after⟩, hday, h⟩ := bind_eq_ok.mp h
    obtain ⟨tail, htail, h⟩ := bind_eq_ok.mp h
    obtain rfl := Except.ok.inj h
    cases n with
    | zero => rfl
    | succ n =>
      rw [List.take_succ_cons, List.take_succ_cons]
      apply bind_eq_ok.mpr
      refine ⟨(first, after), hday, bind_eq_ok.mpr ⟨tail.take n, ih htail n, rfl⟩⟩

/-- The steps of an accepted series. -/
theorem calculateDailyPerformance_eq_ok {portfolio : List PortfolioSessionAggregate}
    {benchmark : List BenchmarkSessionLevel} {points : List PortfolioDailyPerformancePoint} :
    calculateDailyPerformance portfolio benchmark = .ok points ↔
      2 ≤ portfolio.length ∧ portfolio.length = benchmark.length ∧
      SessionsAligned (portfolio.zip benchmark) ∧
      ∃ first rest, portfolio.zip benchmark = first :: rest ∧
        performanceDays (.one, .one) first rest = .ok points := by
  unfold calculateDailyPerformance
  rw [bind_eq_ok]
  simp only [bind_eq_ok, rejectIf_eq_ok, not_or, not_lt, not_not]
  constructor
  · rintro ⟨⟨⟩, ⟨hlength, hequal⟩, ⟨⟩, haligned, h⟩
    refine ⟨hlength, hequal, haligned, ?_⟩
    -- At least two sessions were asked for, so there is a first one.
    cases hsessions : portfolio.zip benchmark with
    | nil =>
      have hzero := congrArg List.length hsessions
      rw [List.length_zip, ← hequal, min_self, List.length_nil] at hzero
      omega
    | cons first rest =>
      rw [hsessions] at h
      exact ⟨first, rest, rfl, h⟩
  · rintro ⟨hlength, hequal, haligned, first, rest, hsessions, h⟩
    refine ⟨(), ⟨hlength, hequal⟩, (), haligned, ?_⟩
    rw [hsessions]
    exact h

end Ficant
