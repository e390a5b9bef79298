import Ficant.Primitives

namespace Ficant.Analytics

/-!
# Failures of calculations

`AnalyticsError` in `ficant-domain/src/analytics.rs`, and what an application makes of it.
-/

/-- `AnalyticsError`. -/
inductive AnalyticsError
  | invalidInput | abiMismatch | bufferTooSmall | noBracket | notConverged | nonFinite
  | calendarCoverageMissing | internal
  deriving DecidableEq, Repr

/-- `map_analytics_error`. -/
def mapAnalyticsError : AnalyticsError → ApplicationError
  | .internal => ⟨.stateConflict, false⟩
  | _ => ⟨.validationFailed, false⟩

end Ficant.Analytics
