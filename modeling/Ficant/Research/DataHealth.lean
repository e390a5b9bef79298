import Ficant.Application.FingerprintBinding
import Ficant.Research.Coverage

namespace Ficant

open Lib

/-!
# Data health

The health of a position snapshot at a time, against the limits of a profile
(`ficant-domain/src/research/data_health.rs`).

* `DataHealthThresholdProfile`, `DataHealthIssue` — with the checks of their constructors;
* `evaluatePositionSnapshot` — the issues of a snapshot; `none` stands for a panic, which
  `TimeDelta::seconds` makes outside its range;
* `position_health_total_iff` — when the evaluation returns what the profile asks for.

The report that combines an evaluation with price evidence is not modelled here.
-/

variable {digest : List UInt8 → ContentHash}

/-! ### Profiles -/

/-- `DataHealthThresholdProfileInput`. -/
structure DataHealthThresholdProfileInput where
  profileSnapshotId : Ulid
  owner : OwnerRef
  profileRef : VersionRef
  visibleAt : MarketTime
  effectiveFrom : MarketTime
  effectiveTo : MarketTime
  maxPositionSnapshotAgeSeconds : UInt64
  unknownAccountingWarningBasisPoints : UInt32
  maxDataSnapshotAgeSeconds : UInt64
  modelValuationWarningBasisPoints : UInt32
  contentHash : ContentHash
  lineage : List LineageRef
  deriving DecidableEq

namespace DataHealthThresholdProfileInput

/-- `append_time`, as the values it appends. -/
def timeValues (time : MarketTime) : List (List UInt8) :=
  [secondsBytes time.instant, nanosBytes time.instant, utf8 time.marketTimezone,
    utf8 time.localTradingDate.text]

/-- `append_lineage`, as the values it appends. -/
def lineageValues (reference : LineageRef) : List (List UInt8) :=
  utf8 reference.objectId.text ::
    ((match reference.version with
      | some version => [[1], bigEndian 8 version.value]
      | none => [[0]]) ++
    (match reference.contentHash with
      | some hash => [[1], hash.bytes]
      | none => [[0]]))

/-- `profile_canonical_bytes`. -/
def canonicalBytes (i : DataHealthThresholdProfileInput) : List UInt8 :=
  joinChunks ([utf8 "ficant.research.data-health-threshold-profile.v1",
    utf8 i.profileSnapshotId.text, utf8 i.owner.tenantId.text, utf8 i.owner.ownerId.text,
    utf8 i.profileRef.id.text, bigEndian 8 i.profileRef.version.value] ++
    timeValues i.visibleAt ++ timeValues i.effectiveFrom ++ timeValues i.effectiveTo ++
    [bigEndian 8 i.maxPositionSnapshotAgeSeconds.toNat,
      bigEndian 4 i.unknownAccountingWarningBasisPoints.toNat,
      bigEndian 8 i.maxDataSnapshotAgeSeconds.toNat,
      bigEndian 4 i.modelValuationWarningBasisPoints.toNat] ++
    i.lineage.flatMap lineageValues)

/-- The checks of `DataHealthThresholdProfile::new`. -/
def check (digest : List UInt8 → ContentHash) (i : DataHealthThresholdProfileInput) :
    Except DomainErrorCode Unit := do
  rejectIf (¬ (1 ≤ i.unknownAccountingWarningBasisPoints ∧
      i.unknownAccountingWarningBasisPoints ≤ 10000) ∨
    ¬ (1 ≤ i.modelValuationWarningBasisPoints ∧ i.modelValuationWarningBasisPoints ≤ 10000) ∨
    i.effectiveTo.instant ≤ i.effectiveFrom.instant ∨
    i.effectiveTo.instant ≤ i.visibleAt.instant) .invalidValue
  rejectIf (digest i.canonicalBytes ≠ i.contentHash) .contentHashMismatch

end DataHealthThresholdProfileInput

/-- `DataHealthThresholdProfile`. -/
structure DataHealthThresholdProfile (digest : List UInt8 → ContentHash) where
  input : DataHealthThresholdProfileInput
  valid : input.check digest = .ok ()

/-! ### Issues -/

/-- `DataHealthIssueCode`. -/
inductive DataHealthIssueCode
  | emptyPositions | unknownAccountingClassification | stalePositionSnapshot | untypedPriceSource
  | modelValuationShare | staleDataSnapshot
  deriving DecidableEq, Repr

/-- `DataHealthIssue`. -/
structure DataHealthIssue where
  code : DataHealthIssueCode
  affectedPositionIds : List Ulid
  dataSourceRef : Option VersionRef
  recordCount : UInt64
  ratioBasisPoints : UInt32
  observedAgeSeconds : UInt64
  deriving DecidableEq

/-- What `DataHealthIssue::new` refuses for the code of an issue. -/
def DataHealthIssue.Inconsistent (i : DataHealthIssue) : Prop :=
  match i.code with
  | .emptyPositions =>
    i.affectedPositionIds ≠ [] ∨ i.dataSourceRef.isSome ∨ i.recordCount ≠ 0 ∨
      i.ratioBasisPoints ≠ 0 ∨ i.observedAgeSeconds ≠ 0
  | .unknownAccountingClassification =>
    i.affectedPositionIds = [] ∨ i.dataSourceRef.isSome ∨
      i.recordCount.toNat ≠ i.affectedPositionIds.length ∨ i.ratioBasisPoints = 0 ∨
      i.observedAgeSeconds ≠ 0
  | .stalePositionSnapshot =>
    i.affectedPositionIds ≠ [] ∨ i.dataSourceRef.isSome ∨ i.recordCount ≠ 0 ∨
      i.ratioBasisPoints ≠ 0 ∨ i.observedAgeSeconds = 0
  | .untypedPriceSource =>
    i.affectedPositionIds ≠ [] ∨ i.dataSourceRef.isNone ∨ i.recordCount = 0 ∨
      i.ratioBasisPoints ≠ 0 ∨ i.observedAgeSeconds ≠ 0
  | .modelValuationShare =>
    i.affectedPositionIds ≠ [] ∨ i.dataSourceRef.isNone ∨ i.recordCount = 0 ∨
      i.ratioBasisPoints = 0 ∨ i.observedAgeSeconds ≠ 0
  | .staleDataSnapshot =>
    i.affectedPositionIds ≠ [] ∨ i.dataSourceRef.isNone ∨ i.recordCount ≠ 0 ∨
      i.ratioBasisPoints ≠ 0 ∨ i.observedAgeSeconds = 0

instance (i : DataHealthIssue) : Decidable i.Inconsistent := by
  unfold DataHealthIssue.Inconsistent
  split <;> infer_instance

/-- `DataHealthIssue::new`. -/
def DataHealthIssue.new (code : DataHealthIssueCode) (affectedPositionIds : List Ulid)
    (dataSourceRef : Option VersionRef) (recordCount : UInt64) (ratioBasisPoints : UInt32)
    (observedAgeSeconds : UInt64) : Except DomainErrorCode DataHealthIssue := do
  let issue : DataHealthIssue := ⟨code, affectedPositionIds, dataSourceRef, recordCount,
    ratioBasisPoints, observedAgeSeconds⟩
  rejectIf (¬ affectedPositionIds.Pairwise (· < ·)) .invalidValue
  rejectIf issue.Inconsistent .invalidValue
  return issue

/-- What `compare_issues` compares: the code, the positions, the source. -/
def DataHealthIssue.key (i : DataHealthIssue) : Lex (ℕ × Lex (List ℕ × List ℕ)) :=
  toLex (i.code.ctorIdx, toLex (i.affectedPositionIds.map fun id => id.value.val,
    i.dataSourceRef.elim [] fun reference => [reference.id.value.val, reference.version.value]))

/-! ### Ratios and ages -/

/-- `ratio_reaches_threshold`. -/
def ratioReachesThreshold (count total : ℕ) (threshold : UInt32) : Except DomainErrorCode Bool := do
  rejectIf (total = 0) .invalidValue
  rejectIf (2 ^ 64 ≤ count ∨ 2 ^ 64 ≤ total) .invalidValue
  rejectIf (2 ^ 64 ≤ count * 10000) .invalidValue
  rejectIf (2 ^ 64 ≤ total * threshold.toNat) .invalidValue
  return decide (total * threshold.toNat ≤ count * 10000)

/-- `ratio_basis_points`. -/
def ratioBasisPoints (count total : ℕ) : Except DomainErrorCode UInt32 := do
  rejectIf (2 ^ 64 ≤ count ∨ 2 ^ 64 ≤ total) .invalidValue
  rejectIf (2 ^ 64 ≤ count * 10000) .invalidValue
  let value := count * 10000 / total
  rejectIf (2 ^ 32 ≤ value) .invalidValue
  return UInt32.ofNat value

/-- `TimeDelta::seconds`, in nanoseconds.  It panics beyond the milliseconds of an `i64`. -/
def timeDeltaSeconds (seconds : ℤ) : Option ℤ :=
  if -9223372036854775 ≤ seconds ∧ seconds ≤ 9223372036854775 then some (seconds * 1000000000)
  else none

/-- `ElapsedAge`, its duration in nanoseconds. -/
structure ElapsedAge where
  duration : ℤ
  displaySeconds : UInt64

/-- `ElapsedAge::exceeds`. -/
def ElapsedAge.exceeds (age : ElapsedAge) (thresholdSeconds : UInt64) : Option Bool :=
  if thresholdSeconds.toNat < 2 ^ 63 then do
    let limit ← timeDeltaSeconds thresholdSeconds.toNat
    return decide (limit < age.duration)
  else some false

/-- `elapsed_age`. -/
def elapsedAge (earlier later : MarketTime) : ExceptT DomainErrorCode Option ElapsedAge := do
  let duration := later.instant.signedDurationSince earlier.instant
  ExceptT.mk (some (rejectIf (duration < 0) .invalidEffectiveTime))
  let floorSeconds := duration.tdiv 1000000000
  let floorDuration ← (timeDeltaSeconds floorSeconds : Option ℤ)
  let displaySeconds := floorSeconds + (if floorDuration < duration then 1 else 0)
  ExceptT.mk (some (rejectIf (displaySeconds < 0 ∨ 2 ^ 63 ≤ displaySeconds) .invalidEffectiveTime))
  return ⟨duration, UInt64.ofNat displaySeconds.toNat⟩

/-! ### The evaluation -/

/-- `PositionSetState`. -/
inductive PositionSetState
  | nonEmpty | verifiedEmpty
  deriving DecidableEq, Repr

/-- `PositionHealthEvaluation`. -/
structure PositionHealthEvaluation where
  positionSnapshotHash : ContentHash
  evaluatedAt : MarketTime
  thresholdProfileRef : VersionRef
  thresholdProfileHash : ContentHash
  positionSetState : PositionSetState
  issues : List DataHealthIssue
  coverage : CoverageDeclaration
  deriving DecidableEq

/-- The identifiers of the positions whose accounting is not known. -/
def unknownIds (positions : List Position) : List Ulid :=
  (positions.filter fun position => position.accountingClassification.state = .unknown).map
    (·.positionId)

/-- The issue of positions whose accounting is not known, if there are enough of them. -/
def unknownIssues (positions : List Position) (threshold : UInt32) :
    Except DomainErrorCode (List DataHealthIssue) := do
  let ids := unknownIds positions
  if ids = [] then .ok []
  else
    let reached ← ratioReachesThreshold ids.length positions.length threshold
    if reached then
      let ratio ← ratioBasisPoints ids.length positions.length
      let issue ← DataHealthIssue.new .unknownAccountingClassification ids none
        (UInt64.ofNat ids.length) ratio 0
      return [issue]
    else .ok []

/-- The part of `evaluate_position_snapshot` that reads the positions. -/
def evaluatePositions (add : DecimalAdd) (positions : List Position) (threshold : UInt32) :
    Except DomainErrorCode (PositionSetState × CoverageDeclaration × List DataHealthIssue) := do
  if positions = [] then
    let issue ← DataHealthIssue.new .emptyPositions [] none 0 0 0
    return (.verifiedEmpty, .forVerifiedEmpty, [issue])
  else
    let issues ← unknownIssues positions threshold
    let coverage ← CoverageDeclaration.forCompletePositions add positions
      (positions.map (·.positionId)) none 0
    return (.nonEmpty, coverage, issues)

/-- The checks that `evaluate_position_snapshot` begins with. -/
def checkEvaluation (digest : List UInt8 → ContentHash) (snapshot : PositionSnapshotInput)
    (evaluatedAt : MarketTime) : Except DomainErrorCode Unit := do
  rejectIf (digest snapshot.canonicalBytes ≠ snapshot.contentHash) .contentHashMismatch
  rejectIf (evaluatedAt.instant < snapshot.visibleAt.instant ∨
    evaluatedAt.instant < snapshot.observedAt.instant) .invalidEffectiveTime

/-- The issue of an age that exceeds its limit. -/
def staleIssues (age : ElapsedAge) (exceeded : Bool) :
    Except DomainErrorCode (List DataHealthIssue) :=
  if exceeded then do
    let issue ← DataHealthIssue.new .stalePositionSnapshot [] none 0 0 age.displaySeconds
    return [issue]
  else .ok []

/-- `evaluate_position_snapshot`. -/
def evaluatePositionSnapshot (add : DecimalAdd) (snapshot : PositionSnapshot digest)
    (profile : DataHealthThresholdProfile digest) (evaluatedAt : MarketTime) :
    ExceptT DomainErrorCode Option PositionHealthEvaluation := do
  ExceptT.mk (some (checkEvaluation digest snapshot.input evaluatedAt))
  let (state, coverage, issues) ← ExceptT.mk (some (evaluatePositions add snapshot.input.positions
    profile.input.unknownAccountingWarningBasisPoints))
  let age ← elapsedAge snapshot.input.observedAt evaluatedAt
  let exceeded ← (age.exceeds profile.input.maxPositionSnapshotAgeSeconds : Option Bool)
  let stale ← ExceptT.mk (some (staleIssues age exceeded))
  return ⟨snapshot.input.contentHash, evaluatedAt, profile.input.profileRef,
    profile.input.contentHash, state,
    (issues ++ stale).insertionSort (fun a b => a.key ≤ b.key), coverage⟩

/-! ### Steps that can panic -/

section Steps

variable {α β : Type} {f : α → ExceptT DomainErrorCode Option β}

/-- A step that succeeds hands its value to the rest. -/
theorem step_ok {x : Except DomainErrorCode α} {a : α} (h : x = .ok a) :
    (ExceptT.mk (some x) >>= f) = f a := by
  rw [h]
  rfl

/-- A step that fails ends the evaluation with its error. -/
theorem step_error {x : Except DomainErrorCode α} {e : DomainErrorCode} (h : x = .error e) :
    (ExceptT.mk (some x) >>= f) = ExceptT.mk (some (.error e)) := by
  rw [h]
  rfl

/-- A value of chrono that exists is handed to the rest. -/
theorem step_some {x : Option α} {a : α} (h : x = some a) :
    ((liftM x : ExceptT DomainErrorCode Option α) >>= f) = f a := by
  rw [h]
  rfl

/-- A value of chrono that is missing ends the evaluation without an answer. -/
theorem step_none {x : Option α} (h : x = none) :
    ((liftM x : ExceptT DomainErrorCode Option α) >>= f) = ExceptT.mk none := by
  rw [h]
  rfl

end Steps

/-! ### Ages and their limits -/

/-- The time from one instant to a later one, in nanoseconds, where a minute has a leap second only if
    the earlier instant lies in it. -/
def exactAge (earlier later : MarketTime) : ℤ :=
  later.instant.timestampNanos - earlier.instant.timestampNanos +
    if earlier.instant.InLeapSecond ∧ earlier.instant.timestamp < later.instant.timestamp then
      1000000000
    else 0

/-- The seconds that `signed_duration_since` loses: it compares the times of day, and takes a leap
    second for one behind the other instant when a midnight lies between the two. -/
def lostSeconds (earlier later : MarketTime) : ℤ :=
  (if earlier.instant.InLeapSecond ∧ earlier.instant.timestamp < later.instant.timestamp ∧
      later.instant.timestamp % 86400 ≤ earlier.instant.timestamp % 86400 then 1 else 0) +
    if later.instant.InLeapSecond ∧
      later.instant.timestamp % 86400 < earlier.instant.timestamp % 86400 then 1 else 0

/-- The seconds that are lost neither make the age negative nor bring it down to the limit. -/
def AgeKept (earlier later : MarketTime) (limit : UInt64) : Prop :=
  lostSeconds earlier later * 1000000000 ≤ exactAge earlier later ∧
    ((limit.toNat : ℤ) * 1000000000 < exactAge earlier later →
      ((limit.toNat : ℤ) + lostSeconds earlier later) * 1000000000 < exactAge earlier later)

/-- Between two market times at most two leap seconds are lost. -/
theorem lostSeconds_bounds (earlier later : MarketTime) :
    0 ≤ lostSeconds earlier later ∧ lostSeconds earlier later ≤ 2 := by
  unfold lostSeconds
  split <;> split <;> omega

/-- An instant is at most its own leap second later than one after it. -/
theorem exactAge_bounds {earlier later : MarketTime} (h : earlier.instant ≤ later.instant) :
    0 ≤ exactAge earlier later ∧ exactAge earlier later ≤ 16544868105602000000000 := by
  have hl := earlier.instant.lower
  have hu := later.instant.upper
  have hearlier := earlier.instant.subsec_lt
  have hlater := later.instant.subsec_lt
  unfold exactAge DateTime.timestampNanos DateTime.InLeapSecond
  rw [DateTime.le_iff] at h
  split <;> omega

/-- What is measured is the age without the seconds that are lost. -/
theorem signedDurationSince_eq_exactAge {earlier later : MarketTime}
    (h : earlier.instant ≤ later.instant) :
    later.instant.signedDurationSince earlier.instant =
      exactAge earlier later - lostSeconds earlier later * 1000000000 := by
  rw [DateTime.le_iff] at h
  unfold DateTime.signedDurationSince exactAge lostSeconds DateTime.timestampNanos
  by_cases hearlier : earlier.instant.InLeapSecond
  · by_cases hlater : later.instant.InLeapSecond
    · simp only [hearlier, hlater, and_true, true_and]
      split <;> split <;> split <;> split <;> omega
    · simp only [hearlier, hlater, and_true, true_and, and_false, false_and, if_false]
      split <;> split <;> split <;> omega
  · by_cases hlater : later.instant.InLeapSecond
    · simp only [hearlier, hlater, and_true, true_and, and_false, false_and, if_false]
      split <;> omega
    · simp only [hearlier, hlater, and_false, false_and, if_false]
      omega

/-- `TimeDelta::seconds` takes the limit, or the limit is beyond `i64` and never compared. -/
def LimitFits (limit : UInt64) : Prop := limit.toNat ≤ 9223372036854775 ∨ 2 ^ 63 ≤ limit.toNat

/-- An age that the lost seconds do not make negative is what is left without them, and is shown in
    whole seconds, rounded up. -/
theorem elapsedAge_eq {earlier later : MarketTime} (h : earlier.instant ≤ later.instant)
    (hkept : lostSeconds earlier later * 1000000000 ≤ exactAge earlier later) :
    ∃ age, elapsedAge earlier later = ExceptT.mk (some (.ok age)) ∧
      age.duration = exactAge earlier later - lostSeconds earlier later * 1000000000 ∧
      age.duration ≤ 2 ^ 63 * 1000000000 ∧ (0 < age.duration → age.displaySeconds ≠ 0) := by
  have hmeasured := signedDurationSince_eq_exactAge h
  obtain ⟨-, hupper⟩ := exactAge_bounds h
  obtain ⟨hlost, -⟩ := lostSeconds_bounds earlier later
  generalize hd : exactAge earlier later - lostSeconds earlier later * 1000000000 = d at hmeasured
  have hage : 0 ≤ d := by omega
  have hbound : d ≤ 16544868105602000000000 := by omega
  have hfloor : d.tdiv 1000000000 = d / 1000000000 := Int.tdiv_eq_ediv_of_nonneg hage
  -- at most 16544868105602 seconds, far inside the range of `TimeDelta::seconds`
  have hdelta : timeDeltaSeconds (d.tdiv 1000000000) = some (d / 1000000000 * 1000000000) := by
    rw [hfloor]
    exact if_pos (by omega)
  let display := d / 1000000000 + (if d / 1000000000 * 1000000000 < d then 1 else 0)
  have hdisplay : 0 ≤ display ∧ display < 2 ^ 63 := by
    simp only [display]
    split <;> omega
  refine ⟨⟨d, UInt64.ofNat display.toNat⟩, ?_, rfl, hbound.trans (by norm_num), ?_⟩
  · unfold elapsedAge
    rw [hmeasured]
    rw [step_ok (rejectIf_of_not (not_lt.mpr hage)), step_some hdelta, hfloor]
    rw [step_ok (rejectIf_of_not (by omega))]
    rfl
  · intro hpos hzero
    have hpos : 0 < d := hpos
    have hne : 1 ≤ display := by
      simp only [display]
      split <;> omega
    have hnat := congrArg UInt64.toNat hzero
    rw [show (UInt64.ofNat display.toNat).toNat =
      display.toNat % 2 ^ 64 from UInt64.toNat_ofNat] at hnat
    have hmod : display.toNat % 2 ^ 64 = display.toNat := Nat.mod_eq_of_lt (by omega)
    rw [hmod] at hnat
    have : display.toNat = 0 := hnat
    omega

/-- An age that the lost seconds make negative is refused. -/
theorem elapsedAge_error {earlier later : MarketTime} (h : earlier.instant ≤ later.instant)
    (hlost : exactAge earlier later < lostSeconds earlier later * 1000000000) :
    elapsedAge earlier later = ExceptT.mk (some (.error .invalidEffectiveTime)) := by
  unfold elapsedAge
  rw [signedDurationSince_eq_exactAge h]
  exact step_error (if_pos (by omega))

/-- A limit that fits is compared exactly. -/
theorem exceeds_eq {age : ElapsedAge} {limit : UInt64} (hfits : LimitFits limit)
    (hage : age.duration ≤ 2 ^ 63 * 1000000000) :
    age.exceeds limit = some (decide ((limit.toNat : ℤ) * 1000000000 < age.duration)) := by
  unfold ElapsedAge.exceeds
  by_cases hsmall : limit.toNat < 2 ^ 63
  · have hrange : limit.toNat ≤ 9223372036854775 := by
      rcases hfits with h | h
      · exact h
      · omega
    have hdelta : timeDeltaSeconds limit.toNat = some ((limit.toNat : ℤ) * 1000000000) :=
      if_pos (by omega)
    rw [if_pos hsmall, hdelta]
    rfl
  · rw [if_neg hsmall, eq_comm, Option.some.injEq, decide_eq_false_iff_not]
    omega

/-- A limit that does not fit makes the comparison panic, whatever the age. -/
theorem exceeds_eq_none {age : ElapsedAge} {limit : UInt64} (hfits : ¬ LimitFits limit) :
    age.exceeds limit = none := by
  unfold LimitFits at hfits
  have hdelta : timeDeltaSeconds limit.toNat = none := if_neg (by omega)
  unfold ElapsedAge.exceeds
  rw [if_pos (by omega), hdelta]
  rfl

/-- The issue of a stale snapshot passes its own check. -/
theorem staleIssues_eq {age : ElapsedAge} {exceeded : Bool}
    (hage : exceeded = true → age.displaySeconds ≠ 0) :
    ∃ issues, staleIssues age exceeded = .ok issues ∧
      (∀ i ∈ issues, i.code = .stalePositionSnapshot) ∧ (issues ≠ [] ↔ exceeded = true) := by
  cases exceeded with
  | false => exact ⟨[], rfl, by simp, by simp⟩
  | true =>
    have hnew : DataHealthIssue.new .stalePositionSnapshot [] none 0 0 age.displaySeconds =
        .ok ⟨.stalePositionSnapshot, [], none, 0, 0, age.displaySeconds⟩ := by
      unfold DataHealthIssue.new
      rw [rejectIf_of_not (not_not.mpr List.Pairwise.nil), ok_bind,
        rejectIf_of_not (by simpa [DataHealthIssue.Inconsistent] using hage rfl)]
      rfl
    refine ⟨[⟨.stalePositionSnapshot, [], none, 0, 0, age.displaySeconds⟩], ?_, ?_, ?_⟩
    · show (DataHealthIssue.new _ _ _ _ _ _ >>= _) = _
      rw [hnew]
      rfl
    · intro i hi
      rw [List.mem_singleton.mp hi]
    · exact iff_of_true (List.cons_ne_nil _ _) rfl

/-! ### Positions whose accounting is not known -/

/-- The comparison of the ratio with the threshold stays inside `u64`. -/
def RatioFits (positions : List Position) (threshold : UInt32) : Prop :=
  (unknownIds positions).length = 0 ∨
    ((unknownIds positions).length * 10000 < 2 ^ 64 ∧ positions.length * threshold.toNat < 2 ^ 64)

/-- Some positions are not known, and as many as the threshold asks for. -/
def UnknownReported (positions : List Position) (threshold : UInt32) : Prop :=
  0 < (unknownIds positions).length ∧
    threshold.toNat * positions.length ≤ 10000 * (unknownIds positions).length

/-- There are no more unknown positions than positions. -/
theorem length_unknownIds_le (positions : List Position) :
    (unknownIds positions).length ≤ positions.length := by
  unfold unknownIds
  rw [List.length_map]
  exact List.length_filter_le _ _

/-- The identities of the unknown positions keep the order of the positions. -/
theorem unknownIds_sorted {positions : List Position}
    (hsorted : (positions.map (·.positionId)).Pairwise (· < ·)) :
    (unknownIds positions).Pairwise (· < ·) :=
  hsorted.sublist (List.filter_sublist.map _)

/-- The ratio that is shown is positive, and never rounds down to zero. -/
theorem ratioBasisPoints_eq {count total : ℕ} {threshold : UInt32} (hthreshold : 1 ≤ threshold)
    (hle : count ≤ total) (hpos : 0 < count) (hcount : count * 10000 < 2 ^ 64)
    (htotal : total * threshold.toNat < 2 ^ 64) (hreached : total * threshold.toNat ≤ count * 10000) :
    ∃ ratio, ratioBasisPoints count total = .ok ratio ∧ ratio ≠ 0 := by
  have hone : 1 ≤ threshold.toNat := UInt32.le_iff_toNat_le.mp hthreshold
  -- The threshold is at least one basis point, so the ratio is not rounded down to zero.
  have hgrow : total ≤ total * threshold.toNat := Nat.le_mul_of_pos_right total hone
  have hlower : 1 ≤ count * 10000 / total := by
    rw [Nat.one_le_div_iff (by omega)]
    exact hgrow.trans hreached
  have hupper : count * 10000 / total ≤ 10000 := by
    rw [Nat.div_le_iff_le_mul_add_pred (by omega)]
    calc count * 10000 ≤ total * 10000 := Nat.mul_le_mul_right _ hle
      _ ≤ total * 10000 + (total - 1) := Nat.le_add_right _ _
  refine ⟨UInt32.ofNat (count * 10000 / total), ?_, ?_⟩
  · unfold ratioBasisPoints
    rw [rejectIf_of_not (by omega), ok_bind, rejectIf_of_not (by omega), ok_bind]
    show (rejectIf (2 ^ 32 ≤ count * 10000 / total) _ >>= _) = _
    rw [rejectIf_of_not (by omega)]
    rfl
  · intro hzero
    have hnat := congrArg UInt32.toNat hzero
    rw [UInt32.toNat_ofNat_of_lt' (by
      show count * 10000 / total < 2 ^ 32
      omega)] at hnat
    have : count * 10000 / total = 0 := hnat
    omega

/-- A comparison that is made has not left `u64`. -/
theorem of_ratioReachesThreshold {count total : ℕ} {threshold : UInt32} {reached : Bool}
    (h : ratioReachesThreshold count total threshold = .ok reached) :
    count * 10000 < 2 ^ 64 ∧ total * threshold.toNat < 2 ^ 64 ∧
      reached = decide (total * threshold.toNat ≤ count * 10000) := by
  unfold ratioReachesThreshold at h
  obtain ⟨⟨⟩, -, h⟩ := bind_eq_ok.mp h
  obtain ⟨⟨⟩, -, h⟩ := bind_eq_ok.mp h
  obtain ⟨⟨⟩, hleft, h⟩ := bind_eq_ok.mp h
  obtain ⟨⟨⟩, hright, h⟩ := bind_eq_ok.mp h
  exact ⟨not_le.mp (rejectIf_eq_ok.mp hleft), not_le.mp (rejectIf_eq_ok.mp hright),
    (Except.ok.inj h).symm⟩

/-- The issue of unknown positions passes its own check. -/
theorem unknownIssue_new {ids : List Ulid} {ratio : UInt32} (hsorted : ids.Pairwise (· < ·))
    (hne : ids ≠ []) (hlength : ids.length < 2 ^ 64) (hratio : ratio ≠ 0) :
    DataHealthIssue.new .unknownAccountingClassification ids none (UInt64.ofNat ids.length) ratio 0 =
      .ok ⟨.unknownAccountingClassification, ids, none, UInt64.ofNat ids.length, ratio, 0⟩ := by
  have hcount : (UInt64.ofNat ids.length).toNat = ids.length :=
    UInt64.toNat_ofNat_of_lt' hlength
  unfold DataHealthIssue.new
  rw [rejectIf_of_not (not_not.mpr hsorted), ok_bind, rejectIf_of_not]
  · rfl
  · simp [DataHealthIssue.Inconsistent, hne, hcount, hratio]

/-- Inside `u64` the issue is there exactly when the ratio reaches the threshold. -/
theorem unknownIssues_eq {positions : List Position} {threshold : UInt32}
    (hsorted : (positions.map (·.positionId)).Pairwise (· < ·)) (hthreshold : 1 ≤ threshold)
    (hfits : RatioFits positions threshold) :
    ∃ issues, unknownIssues positions threshold = .ok issues ∧
      (∀ i ∈ issues, i.code = .unknownAccountingClassification) ∧
      (issues ≠ [] ↔ UnknownReported positions threshold) := by
  unfold unknownIssues UnknownReported
  -- Nothing is unknown, or the ratio is compared with the threshold.
  by_cases hnil : unknownIds positions = []
  · refine ⟨[], if_pos hnil, by simp, ?_⟩
    rw [hnil]
    simp
  have hpos : 0 < (unknownIds positions).length := List.length_pos_iff.mpr hnil
  have hone : 1 ≤ threshold.toNat := UInt32.le_iff_toNat_le.mp hthreshold
  have hle := length_unknownIds_le positions
  obtain ⟨hcount, htotal⟩ := hfits.resolve_left (by omega)
  have hgrow : positions.length ≤ positions.length * threshold.toNat :=
    Nat.le_mul_of_pos_right _ hone
  have hreaches : ratioReachesThreshold (unknownIds positions).length positions.length threshold =
      .ok (decide (positions.length * threshold.toNat ≤ (unknownIds positions).length * 10000)) := by
    unfold ratioReachesThreshold
    rw [rejectIf_of_not (by omega), ok_bind, rejectIf_of_not (by omega), ok_bind,
      rejectIf_of_not (by omega), ok_bind, rejectIf_of_not (by omega)]
    rfl
  rw [if_neg hnil, hreaches, ok_bind]
  by_cases hreached : positions.length * threshold.toNat ≤ (unknownIds positions).length * 10000
  · obtain ⟨ratio, hratio, hne⟩ :=
      ratioBasisPoints_eq hthreshold hle hpos hcount htotal hreached
    have hnew := unknownIssue_new (unknownIds_sorted hsorted) hnil (by omega) hne
    rw [decide_eq_true hreached, if_pos rfl, hratio, ok_bind, hnew, ok_bind]
    refine ⟨_, rfl, ?_, iff_of_true (List.cons_ne_nil _ _) ⟨hpos, ?_⟩⟩
    · intro i hi
      rw [List.mem_singleton.mp hi]
    · rw [Nat.mul_comm threshold.toNat, Nat.mul_comm 10000]
      exact hreached
  · rw [decide_eq_false hreached, if_neg Bool.false_ne_true]
    refine ⟨[], rfl, by simp, iff_of_false (fun h => h rfl) ?_⟩
    rw [Nat.mul_comm threshold.toNat, Nat.mul_comm 10000]
    exact fun h => hreached h.2

/-- Outside `u64` the comparison fails. -/
theorem unknownIssues_error {positions : List Position} {threshold : UInt32}
    (hfits : ¬ RatioFits positions threshold) :
    ∃ error, unknownIssues positions threshold = .error error := by
  unfold RatioFits at hfits
  rw [not_or, not_and_or, not_lt, not_lt] at hfits
  obtain ⟨hpos, houtside⟩ := hfits
  have hnil : unknownIds positions ≠ [] := fun h => hpos (by rw [h]; rfl)
  -- The comparison itself leaves the range.
  suffices hreaches : ∃ error, ratioReachesThreshold (unknownIds positions).length positions.length
      threshold = .error error by
    obtain ⟨error, herror⟩ := hreaches
    refine ⟨error, ?_⟩
    unfold unknownIssues
    rw [if_neg hnil, herror]
    rfl
  cases hrun : ratioReachesThreshold (unknownIds positions).length positions.length threshold with
  | error error => exact ⟨error, rfl⟩
  | ok reached =>
    obtain ⟨hleft, hright, -⟩ := of_ratioReachesThreshold hrun
    rcases houtside with h | h
    · exact absurd hleft (not_lt.mpr h)
    · exact absurd hright (not_lt.mpr h)

/-! ### The evaluation of the positions -/

/-- The positions cannot be counted or added up. -/
def CoverageOverflows (add : DecimalAdd) (positions : List Position) : Prop :=
  2 ^ 64 ≤ positions.length ∨ CoverageDeclaration.TotalsOverflow add positions

/-- Nothing overflows over no positions. -/
theorem not_coverageOverflows_nil {add : DecimalAdd} : ¬ CoverageOverflows add [] := by
  rintro (hlength | ⟨done, position, rest, totals, total, value, hnil, -⟩)
  · cases hlength
  · exact absurd hnil.symm (by simp)

/-- What the issues about the positions say. -/
structure PositionIssues (positions : List Position) (threshold : UInt32)
    (issues : List DataHealthIssue) : Prop where
  codes : ∀ i ∈ issues, i.code = .emptyPositions ∨ i.code = .unknownAccountingClassification
  empty : (∃ i ∈ issues, i.code = .emptyPositions) ↔ positions = []
  unknown : (∃ i ∈ issues, i.code = .unknownAccountingClassification) ↔
    UnknownReported positions threshold

/-- The positions are evaluated unless a sum or the ratio overflows. -/
theorem evaluatePositions_eq {add : DecimalAdd} {positions : List Position} {threshold : UInt32}
    (hsorted : (positions.map (·.positionId)).Pairwise (· < ·)) (hthreshold : 1 ≤ threshold)
    (hratio : RatioFits positions threshold) (hcoverage : ¬ CoverageOverflows add positions) :
    ∃ state coverage issues, evaluatePositions add positions threshold =
      .ok (state, coverage, issues) ∧ PositionIssues positions threshold issues := by
  unfold evaluatePositions
  -- No position at all is an issue of its own.
  by_cases hnil : positions = []
  · rw [if_pos hnil]
    refine ⟨.verifiedEmpty, .forVerifiedEmpty, [⟨.emptyPositions, [], none, 0, 0, 0⟩], rfl, ?_⟩
    rw [hnil]
    refine ⟨by simp, by simp, ?_⟩
    simp [UnknownReported, unknownIds]
  · obtain ⟨issues, hissues, hcodes, hreported⟩ := unknownIssues_eq hsorted hthreshold hratio
    rw [if_neg hnil, hissues, ok_bind]
    cases hrun : CoverageDeclaration.forCompletePositions add positions
        (positions.map (·.positionId)) none 0 with
    | error error =>
      exact absurd ((CoverageDeclaration.forCompletePositions_error_iff hnil hsorted).mp
        ⟨error, hrun⟩) hcoverage
    | ok coverage =>
      refine ⟨.nonEmpty, coverage, issues, rfl, fun i hi => .inr (hcodes i hi), ?_, ?_⟩
      · refine iff_of_false ?_ hnil
        rintro ⟨i, hi, hcode⟩
        rw [hcodes i hi] at hcode
        cases hcode
      · rw [← hreported]
        constructor
        · rintro ⟨i, hi, -⟩
          exact List.ne_nil_of_mem hi
        · intro hne
          obtain ⟨i, hi⟩ := List.exists_mem_of_ne_nil issues hne
          exact ⟨i, hi, hcodes i hi⟩

/-- A sum or the ratio that overflows makes the evaluation fail. -/
theorem evaluatePositions_error {add : DecimalAdd} {positions : List Position} {threshold : UInt32}
    (hsorted : (positions.map (·.positionId)).Pairwise (· < ·))
    (hfails : ¬ RatioFits positions threshold ∨ CoverageOverflows add positions) :
    ∃ error, evaluatePositions add positions threshold = .error error := by
  -- An empty snapshot always evaluates.
  have hnil : positions ≠ [] := by
    rintro rfl
    rcases hfails with hratio | hcoverage
    · exact hratio (.inl rfl)
    · exact not_coverageOverflows_nil hcoverage
  unfold evaluatePositions
  rw [if_neg hnil]
  cases hissues : unknownIssues positions threshold with
  | error error => exact ⟨error, rfl⟩
  | ok issues =>
    rcases hfails with hratio | hcoverage
    · obtain ⟨error, herror⟩ := unknownIssues_error hratio
      rw [herror] at hissues
      cases hissues
    · obtain ⟨error, herror⟩ :=
        (CoverageDeclaration.forCompletePositions_error_iff hnil hsorted).mpr hcoverage
      refine ⟨error, ?_⟩
      rw [ok_bind, herror]
      rfl

/-! ### The evaluation of a snapshot -/

/-- The evaluation of a snapshot says what the profile asks for. -/
structure ReportsHealth (snapshot : PositionSnapshotInput)
    (profile : DataHealthThresholdProfileInput) (evaluatedAt : MarketTime)
    (issues : List DataHealthIssue) : Prop where
  empty : (∃ i ∈ issues, i.code = .emptyPositions) ↔ snapshot.positions = []
  unknown : (∃ i ∈ issues, i.code = .unknownAccountingClassification) ↔
    UnknownReported snapshot.positions profile.unknownAccountingWarningBasisPoints
  stale : (∃ i ∈ issues, i.code = .stalePositionSnapshot) ↔
    (profile.maxPositionSnapshotAgeSeconds.toNat : ℤ) * 1000000000 <
      exactAge snapshot.observedAt evaluatedAt

/-- The evaluation does not panic, fails only when the coverage overflows and reports what the
    profile asks for. -/
def HealthEvaluated (add : DecimalAdd) (snapshot : PositionSnapshot digest)
    (profile : DataHealthThresholdProfile digest) (evaluatedAt : MarketTime) : Prop :=
  ∃ outcome : Except DomainErrorCode PositionHealthEvaluation,
    (evaluatePositionSnapshot add snapshot profile evaluatedAt).run = some outcome ∧
    match outcome with
    | .error _ => CoverageOverflows add snapshot.input.positions
    | .ok evaluation => ReportsHealth snapshot.input profile.input evaluatedAt evaluation.issues

/-- What `PositionSnapshot::new` accepts is observed before it is visible, has its positions in the
    order of their identifiers and carries the digest of its bytes. -/
theorem PositionSnapshot.accepted (snapshot : PositionSnapshot digest) :
    snapshot.input.observedAt.instant ≤ snapshot.input.visibleAt.instant ∧
    (snapshot.input.positions.map (·.positionId)).Pairwise (· < ·) ∧
    snapshot.input.contentHash = digest snapshot.input.canonicalBytes := by
  have hvalid := snapshot.valid
  unfold PositionSnapshotInput.check at hvalid
  split at hvalid
  · cases hvalid
  rename_i hvisible
  split at hvalid
  · cases hvalid
  split at hvalid
  · cases hvalid
  rename_i hsorted
  split at hvalid
  · cases hvalid
  rename_i hhash
  refine ⟨not_lt.mp hvisible, ?_, not_not.mp hhash⟩
  rw [Bool.not_eq_true', Bool.not_eq_false] at hsorted
  -- Neighbours in order are all in order.
  have htrans : IsTrans Position fun a b => a.positionId < b.positionId :=
    ⟨fun _ _ _ => lt_trans⟩
  have hpairwise := (all_zip_tail_iff_pairwise (r := fun a b : Position =>
    a.positionId < b.positionId)).mp hsorted
  rw [List.pairwise_map]
  exact hpairwise

/-- The thresholds that `DataHealthThresholdProfile::new` accepts are positive. -/
theorem DataHealthThresholdProfile.accepted (profile : DataHealthThresholdProfile digest) :
    1 ≤ profile.input.unknownAccountingWarningBasisPoints := by
  have hvalid := profile.valid
  unfold DataHealthThresholdProfileInput.check at hvalid
  obtain ⟨⟨⟩, hbounds, -⟩ := bind_eq_ok.mp hvalid
  have hgood := rejectIf_eq_ok.mp hbounds
  rw [not_or, not_not] at hgood
  exact hgood.1.1

/-- An age that exceeds a limit is shown as more than zero seconds. -/
theorem exceeded_displays {age : ElapsedAge} (limit : UInt64)
    (hdisplay : 0 < age.duration → age.displaySeconds ≠ 0) :
    decide ((limit.toNat : ℤ) * 1000000000 < age.duration) = true → age.displaySeconds ≠ 0 := by
  intro h
  apply hdisplay
  have hlimit := of_decide_eq_true h
  omega

/-- Sorting the issues does not change which codes are among them. -/
theorem exists_code_iff {issues stale : List DataHealthIssue} {code : DataHealthIssueCode} :
    (∃ i ∈ (issues ++ stale).insertionSort (fun a b => a.key ≤ b.key), i.code = code) ↔
      (∃ i ∈ issues, i.code = code) ∨ ∃ i ∈ stale, i.code = code := by
  simp only [List.mem_insertionSort, List.mem_append, or_and_right, exists_or]

section Evaluation

variable {add : DecimalAdd} {snapshot : PositionSnapshot digest}
  {profile : DataHealthThresholdProfile digest} {evaluatedAt : MarketTime}

/-- An accepted snapshot passes the checks at any time from which it is visible. -/
theorem checkEvaluation_eq (hvisible : snapshot.input.visibleAt.instant ≤ evaluatedAt.instant) :
    checkEvaluation digest snapshot.input evaluatedAt = .ok () := by
  obtain ⟨hobserved, -, hhash⟩ := snapshot.accepted
  unfold checkEvaluation
  rw [rejectIf_of_not (by rw [hhash, not_not]), ok_bind]
  refine rejectIf_of_not ?_
  rw [not_or, not_lt, not_lt]
  exact ⟨hvisible, hobserved.trans hvisible⟩

/-- Positions that cannot be evaluated make the evaluation fail. -/
theorem evaluatePositionSnapshot_error
    (hvisible : snapshot.input.visibleAt.instant ≤ evaluatedAt.instant)
    (hfails : ¬ RatioFits snapshot.input.positions
        profile.input.unknownAccountingWarningBasisPoints ∨
      CoverageOverflows add snapshot.input.positions) :
    ∃ error, (evaluatePositionSnapshot add snapshot profile evaluatedAt).run =
      some (.error error) := by
  obtain ⟨-, hsorted, -⟩ := snapshot.accepted
  obtain ⟨error, herror⟩ := evaluatePositions_error hsorted hfails
  refine ⟨error, ?_⟩
  unfold evaluatePositionSnapshot
  rw [step_ok (checkEvaluation_eq hvisible), step_error herror]
  rfl

/-- An age that is refused makes the evaluation fail. -/
theorem evaluatePositionSnapshot_age_error
    (hvisible : snapshot.input.visibleAt.instant ≤ evaluatedAt.instant)
    (hratio : RatioFits snapshot.input.positions profile.input.unknownAccountingWarningBasisPoints)
    (hcoverage : ¬ CoverageOverflows add snapshot.input.positions)
    (hlost : exactAge snapshot.input.observedAt evaluatedAt <
      lostSeconds snapshot.input.observedAt evaluatedAt * 1000000000) :
    (evaluatePositionSnapshot add snapshot profile evaluatedAt).run =
      some (.error .invalidEffectiveTime) := by
  obtain ⟨hobserved, hsorted, -⟩ := snapshot.accepted
  obtain ⟨state, coverage, issues, hpositions, -⟩ :=
    evaluatePositions_eq hsorted profile.accepted hratio hcoverage
  unfold evaluatePositionSnapshot
  rw [step_ok (checkEvaluation_eq hvisible), step_ok hpositions]
  show (elapsedAge _ _ >>= _).run = _
  rw [elapsedAge_error (hobserved.trans hvisible) hlost, step_error rfl]
  rfl

/-- Positions that can be evaluated, with an age that is not refused, leave only the limit of the age,
    which panics or is compared with what is measured. -/
theorem evaluatePositionSnapshot_eq
    (hvisible : snapshot.input.visibleAt.instant ≤ evaluatedAt.instant)
    (hratio : RatioFits snapshot.input.positions profile.input.unknownAccountingWarningBasisPoints)
    (hcoverage : ¬ CoverageOverflows add snapshot.input.positions)
    (hkept : lostSeconds snapshot.input.observedAt evaluatedAt * 1000000000 ≤
      exactAge snapshot.input.observedAt evaluatedAt) :
    (¬ LimitFits profile.input.maxPositionSnapshotAgeSeconds →
      (evaluatePositionSnapshot add snapshot profile evaluatedAt).run = none) ∧
    (LimitFits profile.input.maxPositionSnapshotAgeSeconds →
      ∃ evaluation, (evaluatePositionSnapshot add snapshot profile evaluatedAt).run =
          some (.ok evaluation) ∧
        ((∃ i ∈ evaluation.issues, i.code = .emptyPositions) ↔ snapshot.input.positions = []) ∧
        ((∃ i ∈ evaluation.issues, i.code = .unknownAccountingClassification) ↔
          UnknownReported snapshot.input.positions
            profile.input.unknownAccountingWarningBasisPoints) ∧
        ((∃ i ∈ evaluation.issues, i.code = .stalePositionSnapshot) ↔
          (profile.input.maxPositionSnapshotAgeSeconds.toNat : ℤ) * 1000000000 <
            exactAge snapshot.input.observedAt evaluatedAt -
              lostSeconds snapshot.input.observedAt evaluatedAt * 1000000000)) := by
  obtain ⟨hobserved, hsorted, -⟩ := snapshot.accepted
  obtain ⟨state, coverage, issues, hpositions, hissues⟩ :=
    evaluatePositions_eq hsorted profile.accepted hratio hcoverage
  -- Positions first, then the age; each issue is reported by one of them only.
  obtain ⟨age, hage, hduration, hbound, hdisplay⟩ := elapsedAge_eq (hobserved.trans hvisible) hkept
  unfold evaluatePositionSnapshot
  rw [step_ok (checkEvaluation_eq hvisible), step_ok hpositions]
  show (_ → (elapsedAge _ _ >>= _).run = none) ∧ (_ → ∃ evaluation, (elapsedAge _ _ >>= _).run = _ ∧ _)
  rw [hage, step_ok rfl]
  constructor
  · intro hlimit
    rw [step_none (exceeds_eq_none hlimit)]
    rfl
  · intro hlimit
    rw [step_some (exceeds_eq hlimit hbound)]
    obtain ⟨stale, hstale, hcodes, hexceeded⟩ := staleIssues_eq
      (exceeded_displays (profile.input.maxPositionSnapshotAgeSeconds) hdisplay)
    rw [step_ok hstale]
    refine ⟨_, rfl, ?_, ?_, ?_⟩
    · rw [exists_code_iff, hissues.empty]
      refine or_iff_left ?_
      rintro ⟨i, hi, hcode⟩
      exact absurd (hcode.symm.trans (hcodes i hi)) (by decide)
    · rw [exists_code_iff, hissues.unknown]
      refine or_iff_left ?_
      rintro ⟨i, hi, hcode⟩
      exact absurd (hcode.symm.trans (hcodes i hi)) (by decide)
    · rw [exists_code_iff, ← hduration]
      refine Iff.trans (or_iff_right ?_) ?_
      · rintro ⟨i, hi, hcode⟩
        rcases hissues.codes i hi with h | h
        · exact absurd (h.symm.trans hcode) (by decide)
        · exact absurd (h.symm.trans hcode) (by decide)
      · refine Iff.trans ?_ decide_eq_true_iff
        rw [← hexceeded]
        constructor
        · rintro ⟨i, hi, -⟩
          exact List.ne_nil_of_mem hi
        · intro hne
          obtain ⟨i, hi⟩ := List.exists_mem_of_ne_nil stale hne
          exact ⟨i, hi, hcodes i hi⟩

end Evaluation

/-- No issue that the evaluation builds is refused by the constructor. -/
def IssuesAccepted (snapshot : PositionSnapshotInput) (profile : DataHealthThresholdProfileInput)
    (evaluatedAt : MarketTime) : Prop :=
  let ids := unknownIds snapshot.positions
  (∃ issue, DataHealthIssue.new .emptyPositions [] none 0 0 0 = .ok issue) ∧
  (∀ ratio, ids ≠ [] →
    ratioReachesThreshold ids.length snapshot.positions.length
      profile.unknownAccountingWarningBasisPoints = .ok true →
    ratioBasisPoints ids.length snapshot.positions.length = .ok ratio →
    ∃ issue, DataHealthIssue.new .unknownAccountingClassification ids none
      (UInt64.ofNat ids.length) ratio 0 = .ok issue) ∧
  ∀ age, elapsedAge snapshot.observedAt evaluatedAt = ExceptT.mk (some (.ok age)) →
    age.exceeds profile.maxPositionSnapshotAgeSeconds = some true →
    ∃ issues, staleIssues age true = .ok issues

/-- The issues of an accepted snapshot under an accepted profile are accepted. -/
theorem issuesAccepted {snapshot : PositionSnapshot digest}
    {profile : DataHealthThresholdProfile digest} {evaluatedAt : MarketTime}
    (hvisible : snapshot.input.visibleAt.instant ≤ evaluatedAt.instant) :
    IssuesAccepted snapshot.input profile.input evaluatedAt := by
  obtain ⟨hobserved, hsorted, -⟩ := snapshot.accepted
  refine ⟨⟨_, rfl⟩, ?_, ?_⟩
  · intro ratio hne hreached hratio
    obtain ⟨hcount, htotal, htrue⟩ := of_ratioReachesThreshold hreached
    obtain ⟨ratio', hratio', hpos⟩ := ratioBasisPoints_eq profile.accepted
      (length_unknownIds_le _) (List.length_pos_iff.mpr hne) hcount htotal
      (of_decide_eq_true htrue.symm)
    obtain rfl := Except.ok.inj (hratio.symm.trans hratio')
    exact ⟨_, unknownIssue_new (unknownIds_sorted hsorted) hne (by omega) hpos⟩
  · intro age hage hexceeds
    -- The age was computed, so no leap second was lost beyond it.
    have hkept : lostSeconds snapshot.input.observedAt evaluatedAt * 1000000000 ≤
        exactAge snapshot.input.observedAt evaluatedAt := by
      by_contra hlost
      rw [elapsedAge_error (hobserved.trans hvisible) (not_le.mp hlost)] at hage
      cases Option.some.inj hage
    obtain ⟨age', hage', -, hbound, hdisplay⟩ := elapsedAge_eq (hobserved.trans hvisible) hkept
    obtain rfl : age = age' :=
      Except.ok.inj (Option.some.inj (show some _ = some _ from hage.symm.trans hage'))
    by_cases hfits : LimitFits profile.input.maxPositionSnapshotAgeSeconds
    · rw [exceeds_eq hfits hbound] at hexceeds
      obtain ⟨issues, hissues, -⟩ := @staleIssues_eq age true fun _ =>
        exceeded_displays _ hdisplay (Option.some.inj hexceeds)
      exact ⟨issues, hissues⟩
    · rw [exceeds_eq_none hfits] at hexceeds
      cases hexceeds

/-- **Data health is total and exact** for an accepted snapshot and an accepted profile exactly when
    the coverage overflows first, or the limit of the age is one that `TimeDelta::seconds` takes (or
    one beyond `i64`), the ratio is compared inside `u64` and no second that a leap second costs
    changes the answer; the constructor never refuses an issue. -/
theorem position_health_total_iff (add : DecimalAdd) (snapshot : PositionSnapshot digest)
    (profile : DataHealthThresholdProfile digest) (evaluatedAt : MarketTime)
    (hvisible : snapshot.input.visibleAt.instant ≤ evaluatedAt.instant) :
    IssuesAccepted snapshot.input profile.input evaluatedAt ∧
    (HealthEvaluated add snapshot profile evaluatedAt ↔
      CoverageOverflows add snapshot.input.positions ∨
      (LimitFits profile.input.maxPositionSnapshotAgeSeconds ∧
        RatioFits snapshot.input.positions profile.input.unknownAccountingWarningBasisPoints ∧
        AgeKept snapshot.input.observedAt evaluatedAt
          profile.input.maxPositionSnapshotAgeSeconds)) := by
  refine ⟨issuesAccepted hvisible, ?_⟩
  by_cases hcoverage : CoverageOverflows add snapshot.input.positions
  · refine iff_of_true ?_ (.inl hcoverage)
    obtain ⟨error, herror⟩ := evaluatePositionSnapshot_error hvisible (.inr hcoverage)
    exact ⟨.error error, herror, hcoverage⟩
  rw [or_iff_right hcoverage]
  by_cases hratio : RatioFits snapshot.input.positions
      profile.input.unknownAccountingWarningBasisPoints
  · by_cases hkept : lostSeconds snapshot.input.observedAt evaluatedAt * 1000000000 ≤
        exactAge snapshot.input.observedAt evaluatedAt
    · obtain ⟨hpanics, hreports⟩ := evaluatePositionSnapshot_eq hvisible hratio hcoverage hkept
      obtain ⟨hlost, -⟩ := lostSeconds_bounds snapshot.input.observedAt evaluatedAt
      constructor
      · rintro ⟨outcome, houtcome, hreport⟩
        have hlimit : LimitFits profile.input.maxPositionSnapshotAgeSeconds := by
          by_contra hlimit
          rw [hpanics hlimit] at houtcome
          cases houtcome
        obtain ⟨evaluation, hevaluation, -, -, hstale⟩ := hreports hlimit
        obtain rfl := Option.some.inj (hevaluation.symm.trans houtcome)
        refine ⟨hlimit, hratio, hkept, fun hexceeded => ?_⟩
        -- the issue is there, so what is measured exceeds the limit as well
        have := hstale.mp (hreport.stale.mpr hexceeded)
        omega
      · rintro ⟨hlimit, -, -, hsame⟩
        obtain ⟨evaluation, hevaluation, hempty, hunknown, hstale⟩ := hreports hlimit
        refine ⟨.ok evaluation, hevaluation, hempty, hunknown, hstale.trans ?_⟩
        constructor <;> intro h
        · omega
        · have := hsame h
          omega
    · refine iff_of_false ?_ fun h => hkept h.2.2.1
      rintro ⟨outcome, houtcome, hreport⟩
      rw [evaluatePositionSnapshot_age_error hvisible hratio hcoverage (not_le.mp hkept)] at houtcome
      obtain rfl := Option.some.inj houtcome
      exact hcoverage hreport
  · refine iff_of_false ?_ fun h => hratio h.2.1
    rintro ⟨outcome, houtcome, hreport⟩
    obtain ⟨error, herror⟩ := evaluatePositionSnapshot_error hvisible (.inl hratio)
    obtain rfl := Option.some.inj (herror.symm.trans houtcome)
    exact hcoverage hreport

/-! ### A limit that panics -/

section Sample

open Fingerprint (sampleDigest sampleOwner sampleRef sampleHash sampleLineage sampleTime sampleDecimal)

/-- A snapshot without positions. -/
def healthSnapshotInput (contentHash : ContentHash) : PositionSnapshotInput :=
  ⟨⟨20⟩, sampleOwner, sampleRef, sampleTime, sampleTime, contentHash, [sampleLineage], []⟩

def healthSnapshot : PositionSnapshot sampleDigest :=
  ⟨healthSnapshotInput (sampleDigest (healthSnapshotInput sampleHash).canonicalBytes), by
    decide +kernel⟩

/-- A profile with a limit of its own on the age of positions. -/
def healthProfileInput (limit : UInt64) (contentHash : ContentHash) :
    DataHealthThresholdProfileInput :=
  ⟨⟨21⟩, sampleOwner, sampleRef, sampleTime, sampleTime, Fingerprint.sampleNext, limit,
    100, 60, 100, contentHash, []⟩

/-- A profile with the first limit that `TimeDelta::seconds` does not take. -/
def panickingProfile : DataHealthThresholdProfile sampleDigest :=
  ⟨healthProfileInput 9223372036854776
    (sampleDigest (healthProfileInput 9223372036854776 sampleHash).canonicalBytes), by
    decide +kernel⟩

/-- A profile with a limit of one minute. -/
def minuteProfile : DataHealthThresholdProfile sampleDigest :=
  ⟨healthProfileInput 60 (sampleDigest (healthProfileInput 60 sampleHash).canonicalBytes), by
    decide +kernel⟩

theorem panicking_limit_not_evaluated :
    panickingProfile.input.maxPositionSnapshotAgeSeconds = 9223372036854776 ∧
    healthSnapshot.input.visibleAt.instant ≤ sampleTime.instant ∧
    healthSnapshot.input.positions = [] ∧
    (evaluatePositionSnapshot (fun _ _ => none) healthSnapshot panickingProfile sampleTime).run =
      none ∧
    ¬ HealthEvaluated (fun _ _ => none) healthSnapshot panickingProfile sampleTime := by
  have hrun : (evaluatePositionSnapshot (fun _ _ => none) healthSnapshot panickingProfile
      sampleTime).run = none :=
    (evaluatePositionSnapshot_eq le_rfl (.inl rfl) not_coverageOverflows_nil (by decide)).1 (by
      unfold LimitFits
      decide)
  refine ⟨rfl, le_rfl, rfl, hrun, ?_⟩
  rintro ⟨outcome, houtcome, -⟩
  rw [hrun] at houtcome
  cases houtcome

/-- A snapshot of one position whose accounting is not known. -/
def heldHealthInput (contentHash : ContentHash) : PositionSnapshotInput :=
  { healthSnapshotInput contentHash with
    positions := [⟨⟨30⟩, sampleRef, sampleDecimal, sampleDecimal, sampleDecimal, sampleDecimal,
      sampleDecimal, .unknown, .owned, ⟨rfl, rfl, rfl⟩⟩] }

def heldHealthSnapshot : PositionSnapshot sampleDigest :=
  ⟨heldHealthInput (sampleDigest (heldHealthInput sampleHash).canonicalBytes), by decide +kernel⟩

/-- Two minutes after that snapshot both its age and its position are reported. -/
theorem position_health_total_iff_sample :
    let evaluatedAt := Fingerprint.sampleInstant 120 (by decide) (by decide)
    heldHealthSnapshot.input.visibleAt.instant ≤ evaluatedAt.instant ∧
    HealthEvaluated (fun _ _ => none) heldHealthSnapshot minuteProfile evaluatedAt ∧
    UnknownReported heldHealthSnapshot.input.positions
      minuteProfile.input.unknownAccountingWarningBasisPoints ∧
    (minuteProfile.input.maxPositionSnapshotAgeSeconds.toNat : ℤ) * 1000000000 <
      exactAge heldHealthSnapshot.input.observedAt evaluatedAt := by
  intro evaluatedAt
  have hvisible : heldHealthSnapshot.input.visibleAt.instant ≤ evaluatedAt.instant := by decide
  have hlimit : LimitFits minuteProfile.input.maxPositionSnapshotAgeSeconds := .inl (by decide)
  have hratio : RatioFits heldHealthSnapshot.input.positions
      minuteProfile.input.unknownAccountingWarningBasisPoints := .inr (by decide)
  have hkept : AgeKept heldHealthSnapshot.input.observedAt evaluatedAt
      minuteProfile.input.maxPositionSnapshotAgeSeconds := by
    unfold AgeKept
    decide
  refine ⟨hvisible, ?_, ?_, by decide⟩
  · exact (position_health_total_iff (fun _ _ => none) heldHealthSnapshot minuteProfile evaluatedAt
      hvisible).2.mpr (.inr ⟨hlimit, hratio, hkept⟩)
  · unfold UnknownReported
    decide

end Sample

end Ficant
