import Ficant.Catalog.Hierarchy

namespace Ficant.Overview

open Catalog

/-!
# What a portfolio overview is asked for

The request of one overview (`ficant-application/src/ports/portfolio.rs`), and what the calculations
of `portfolio_aggregation.rs` share.

* `NormalizedPortfolioContext` — the request: a scope, two times, a benchmark and a convention;
* `validation` — the error of every refused calculation.
-/

/-- The errors `invalid_unit` and `validation`. -/
def validation : ApplicationError := ⟨.validationFailed, false⟩

/-- `MAX_DECIMAL_SCALE`. -/
def maxDecimalScale : ℕ := 28

/-! ### The request -/

/-- `ExactPortfolioScope`. -/
structure ExactPortfolioScope where
  selected : ExactScope
  memberPortfolios : List LineageRef
  deriving DecidableEq

/-- `PortfolioCurrencyMode`. -/
inductive CurrencyMode
  | original | cny
  deriving DecidableEq, Repr

/-- `PortfolioPeriodPreset`. -/
inductive PeriodPreset
  | oneDay | sevenDays | thirtyDays | yearToDate | oneYear
  deriving DecidableEq, Repr

/-- `NormalizedPortfolioContext`. -/
structure NormalizedPortfolioContext where
  owner : OwnerRef
  subjectRef : VersionRef
  scope : ExactPortfolioScope
  valuationAt : MarketTime
  knowledgeAt : MarketTime
  currency : CurrencyMode
  currencyUnit : UnitRef
  lookThrough : LookThrough
  benchmark : HashedRef
  period : PeriodPreset
  periodFrom : MarketTime
  periodTo : MarketTime
  metricConvention : HashedRef
  deriving DecidableEq

end Ficant.Overview
