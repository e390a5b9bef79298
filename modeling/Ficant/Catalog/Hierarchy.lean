import Ficant.Application.Governance

namespace Ficant.Catalog

open Lib

/-!
# The portfolio catalog

Books, groups of portfolios and portfolios (`ficant-domain/src/portfolio/mod.rs`), and the hierarchy
that one catalog snapshot spans (`ficant-application/src/use_cases/portfolio_catalog.rs`).

* `Book`, `PortfolioGroup`, `Portfolio` — immutable versions, each with the hash of its content;
* `Snapshot` — the records that are visible at one time;
* `Hierarchy` — the groups and books by exact version, and the latest version of each portfolio;
* `Hierarchy.groupChain` — a group with its ancestors, along exact references;
* `Hierarchy.descendantGroupIds` — the groups below a group, by identifier;
* `Hierarchy.resolveMembers` — the portfolios of a scope.

Of benchmarks and metric conventions only what these functions read is modelled.
-/

/-! ### Content hashes -/

/-- `append`: a length of eight bytes and the bytes. -/
def appended (value : List UInt8) : List UInt8 := bigEndian 8 value.length ++ value

/-- `append_owner`. -/
def appendedOwner (owner : OwnerRef) : List UInt8 :=
  appended (utf8 owner.tenantId.text) ++ appended (utf8 owner.ownerId.text)

/-- `append_version_ref`. -/
def appendedVersionRef (reference : VersionRef) : List UInt8 :=
  appended (utf8 reference.id.text) ++ appended (bigEndian 8 reference.version.value)

/-- `append_exact_ref`. -/
def appendedExactRef (reference : LineageRef) : List UInt8 :=
  appended (utf8 reference.objectId.text) ++
    appended (bigEndian 8 (reference.version.elim 0 Version.value)) ++
    appended (reference.contentHash.elim [] ContentHash.bytes)

/-- `append_market_time`. -/
def appendedMarketTime (time : MarketTime) : List UInt8 :=
  appended (secondsBytes time.instant) ++ appended (nanosBytes time.instant) ++
    appended (utf8 time.marketTimezone) ++ appended (utf8 time.localTradingDate.text)

/-- `verify_content_hash`. -/
def verifyContentHash (digest : List UInt8 → ContentHash) (expected : ContentHash)
    (canonical : List UInt8) : Except DomainErrorCode Unit :=
  if expected ≠ digest canonical then .error .contentHashMismatch else .ok ()

/-! ### Books, groups, portfolios -/

/-- `PortfolioStatus`. -/
inductive PortfolioStatus
  | active | suspended | closed
  deriving DecidableEq, Repr

/-- `PortfolioStatus::canonical_code` and `portfolio_status_code`. -/
def PortfolioStatus.code : PortfolioStatus → UInt8
  | .active => 1
  | .suspended => 2
  | .closed => 3

/-- `validate_code`. -/
def validateCode (value : String) : Except DomainErrorCode Unit :=
  if value = "" ∨ value ≠ trim value ∨ 64 < (utf8 value).length ∨
      ¬ value.toList.all fun c => c.isUpper || c.isDigit || c == '-' || c == '_' || c == '.' then
    .error .invalidValue
  else .ok ()

/-- `validate_display_name`. -/
def validateDisplayName (value : String) : Except DomainErrorCode Unit :=
  if value = "" ∨ value ≠ trim value ∨ 256 < (utf8 value).length then .error .invalidValue
  else .ok ()

/-- `validate_effective_period`. -/
def validateEffectivePeriod (from_ to_ : MarketTime) : Except DomainErrorCode Unit :=
  if to_.instant ≤ from_.instant then .error .invalidEffectiveTime else .ok ()

/-- `require_exact_ref`. -/
def requireExactRef (reference : LineageRef) : Except DomainErrorCode Unit :=
  if reference.version.isNone ∨ reference.contentHash.isNone then .error .brokenLineage else .ok ()

/-- `BookInput`. -/
structure BookInput where
  book : VersionRef
  owner : OwnerRef
  subjectRef : VersionRef
  code : String
  displayName : String
  status : PortfolioStatus
  effectiveFrom : MarketTime
  effectiveTo : MarketTime
  contentHash : ContentHash
  deriving DecidableEq

/-- `canonical_book`. -/
def canonicalBook (i : BookInput) : List UInt8 :=
  appendedVersionRef i.book ++ appendedOwner i.owner ++ appendedVersionRef i.subjectRef ++
    appended (utf8 i.code) ++ appended (utf8 i.displayName) ++ appended [i.status.code] ++
    appendedMarketTime i.effectiveFrom ++ appendedMarketTime i.effectiveTo

/-- The checks of `Book::new`. -/
def BookInput.check (digest : List UInt8 → ContentHash) (i : BookInput) :
    Except DomainErrorCode Unit := do
  validateCode i.code
  validateDisplayName i.displayName
  validateEffectivePeriod i.effectiveFrom i.effectiveTo
  verifyContentHash digest i.contentHash (canonicalBook i)

/-- `Book`. -/
structure Book (digest : List UInt8 → ContentHash) where
  input : BookInput
  valid : input.check digest = .ok ()

/-- `PortfolioGroupInput`. -/
structure PortfolioGroupInput where
  group : VersionRef
  owner : OwnerRef
  subjectRef : VersionRef
  book : LineageRef
  parentGroup : Option LineageRef
  code : String
  displayName : String
  status : PortfolioStatus
  effectiveFrom : MarketTime
  effectiveTo : MarketTime
  contentHash : ContentHash
  deriving DecidableEq

/-- `canonical_group`. -/
def canonicalGroup (i : PortfolioGroupInput) : List UInt8 :=
  appendedVersionRef i.group ++ appendedOwner i.owner ++ appendedVersionRef i.subjectRef ++
    appendedExactRef i.book ++
    (match i.parentGroup with
      | some parent => appended [1] ++ appendedExactRef parent
      | none => appended [0]) ++
    appended (utf8 i.code) ++ appended (utf8 i.displayName) ++ appended [i.status.code] ++
    appendedMarketTime i.effectiveFrom ++ appendedMarketTime i.effectiveTo

/-- The parent of a group is an exact version of another group. -/
def checkParent (group : VersionRef) : Option LineageRef → Except DomainErrorCode Unit
  | none => .ok ()
  | some parent => do
    requireExactRef parent
    if parent.objectId = group.id then throw .brokenLineage

/-- The checks of `PortfolioGroup::new`. -/
def PortfolioGroupInput.check (digest : List UInt8 → ContentHash) (i : PortfolioGroupInput) :
    Except DomainErrorCode Unit := do
  validateCode i.code
  validateDisplayName i.displayName
  validateEffectivePeriod i.effectiveFrom i.effectiveTo
  requireExactRef i.book
  checkParent i.group i.parentGroup
  verifyContentHash digest i.contentHash (canonicalGroup i)

/-- `PortfolioGroup`. -/
structure PortfolioGroup (digest : List UInt8 → ContentHash) where
  input : PortfolioGroupInput
  valid : input.check digest = .ok ()

/-- `PortfolioSnapshotBinding`. -/
structure PortfolioSnapshotBinding where
  snapshotId : Ulid
  contentHash : ContentHash
  observedAt : MarketTime
  visibleAt : MarketTime
  ordered : observedAt.instant ≤ visibleAt.instant

instance : DecidableEq PortfolioSnapshotBinding := fun a b =>
  decidable_of_iff
    (a.snapshotId = b.snapshotId ∧ a.contentHash = b.contentHash ∧ a.observedAt = b.observedAt ∧
      a.visibleAt = b.visibleAt)
    (by cases a; cases b; simp)

/-- `BenchmarkRef` and `PortfolioMetricConventionRef`. -/
structure HashedRef where
  reference : VersionRef
  contentHash : ContentHash
  deriving DecidableEq

/-- `PortfolioInput`. -/
structure PortfolioInput where
  portfolio : VersionRef
  owner : OwnerRef
  subjectRef : VersionRef
  book : LineageRef
  group : LineageRef
  code : String
  displayName : String
  status : PortfolioStatus
  positionSnapshot : PortfolioSnapshotBinding
  benchmark : HashedRef
  metricConvention : HashedRef
  effectiveFrom : MarketTime
  effectiveTo : MarketTime
  contentHash : ContentHash
  deriving DecidableEq

/-- `canonical_portfolio`. -/
def canonicalPortfolio (i : PortfolioInput) : List UInt8 :=
  appendedVersionRef i.portfolio ++ appendedOwner i.owner ++ appendedVersionRef i.subjectRef ++
    appendedExactRef i.book ++ appendedExactRef i.group ++
    appended (utf8 i.code) ++ appended (utf8 i.displayName) ++ appended [i.status.code] ++
    appended (utf8 i.positionSnapshot.snapshotId.text) ++
    appended i.positionSnapshot.contentHash.bytes ++
    appendedMarketTime i.positionSnapshot.observedAt ++
    appendedMarketTime i.positionSnapshot.visibleAt ++
    appendedVersionRef i.benchmark.reference ++ appended i.benchmark.contentHash.bytes ++
    appendedVersionRef i.metricConvention.reference ++ appended i.metricConvention.contentHash.bytes ++
    appendedMarketTime i.effectiveFrom ++ appendedMarketTime i.effectiveTo

/-- The checks of `Portfolio::new`. -/
def PortfolioInput.check (digest : List UInt8 → ContentHash) (i : PortfolioInput) :
    Except DomainErrorCode Unit := do
  validateCode i.code
  validateDisplayName i.displayName
  validateEffectivePeriod i.effectiveFrom i.effectiveTo
  requireExactRef i.book
  requireExactRef i.group
  verifyContentHash digest i.contentHash (canonicalPortfolio i)

/-- `Portfolio`. -/
structure Portfolio (digest : List UInt8 → ContentHash) where
  input : PortfolioInput
  valid : input.check digest = .ok ()

/-- `Benchmark`, as far as the catalog reads it. -/
structure Benchmark where
  benchmark : VersionRef
  owner : OwnerRef
  subjectRef : VersionRef
  effectiveFrom : MarketTime
  effectiveTo : MarketTime
  contentHash : ContentHash
  deriving DecidableEq

/-- `PortfolioMetricConvention`, as far as the catalog reads it. -/
structure PortfolioMetricConvention where
  convention : VersionRef
  owner : OwnerRef
  effectiveFrom : MarketTime
  effectiveTo : MarketTime
  contentHash : ContentHash
  deriving DecidableEq

/-- `VersionedDefinition` with `ContentAddressed`. -/
class Versioned (α : Type) where
  reference : α → VersionRef
  contentHash : α → ContentHash

variable {digest : List UInt8 → ContentHash}

instance : Versioned (Book digest) := ⟨fun b => b.input.book, fun b => b.input.contentHash⟩

instance : Versioned (PortfolioGroup digest) :=
  ⟨fun g => g.input.group, fun g => g.input.contentHash⟩

instance : Versioned (Portfolio digest) :=
  ⟨fun p => p.input.portfolio, fun p => p.input.contentHash⟩

instance : Versioned Benchmark := ⟨Benchmark.benchmark, Benchmark.contentHash⟩

instance : Versioned PortfolioMetricConvention :=
  ⟨PortfolioMetricConvention.convention, PortfolioMetricConvention.contentHash⟩

/-! ### Snapshots -/

/-- `VisibleCatalogRecord`. -/
structure Visible (α : Type) where
  value : α
  visibleAt : MarketTime

/-- `PortfolioCatalogSnapshot`. -/
structure Snapshot (digest : List UInt8 → ContentHash) where
  books : List (Visible (Book digest))
  groups : List (Visible (PortfolioGroup digest))
  portfolios : List (Visible (Portfolio digest))
  benchmarks : List (Visible Benchmark)
  metricConventions : List (Visible PortfolioMetricConvention)

section Versions

variable {α : Type} [Versioned α]

/-- The text of an exact version. -/
def exactKey (id : Ulid) (version : Version) (hash : ContentHash) : String :=
  String.ofList (id.text.toList ++ ':' :: decimalChars version.value ++ ':' ::
    hash.bytes.flatMap hexByte)

/-- `exact_version_key`. -/
def exactVersionKey (value : α) : String :=
  exactKey (Versioned.reference value).id (Versioned.reference value).version
    (Versioned.contentHash value)

/-- The error `lineage`. -/
def lineageIncomplete : ApplicationError := ⟨.lineageIncomplete, false⟩

/-- The error `state_conflict`. -/
def stateConflict : ApplicationError := ⟨.stateConflict, false⟩

/-- The error `not_found`. -/
def notFound : ApplicationError := ⟨.notFound, false⟩

/-- `exact_lineage_key`. -/
def exactLineageKey (reference : LineageRef) : Except ApplicationError String :=
  match reference.version, reference.contentHash with
  | some version, some hash => .ok (exactKey reference.objectId version hash)
  | _, _ => .error lineageIncomplete

/-- `exact_map`. -/
def exactMap (records : List (Visible α)) :
    Except ApplicationError (SortedMap String (Visible α)) :=
  records.foldlM (fun result record =>
    if (result.get? (exactVersionKey record.value)).isSome then .error stateConflict
    else .ok (result.insert (exactVersionKey record.value) record)) ∅

/-- `latest_versions`. -/
def latestVersions (records : List (Visible α)) : Except ApplicationError (List (Visible α)) := do
  let latest ← records.foldlM (fun (latest : SortedMap String (Visible α)) record =>
    let identity := (Versioned.reference record.value).id.text
    let version := (Versioned.reference record.value).version.value
    match latest.get? identity with
    | some previous =>
      if (Versioned.reference previous.value).version.value = version then .error stateConflict
      else if version < (Versioned.reference previous.value).version.value then .ok latest
      else .ok (latest.insert identity record)
    | none => .ok (latest.insert identity record)) ∅
  return latest.entries.map Prod.snd

/-- One step of `max_by_key` on versions, which keeps the last of several greatest. -/
def laterVersion (best : Option (Visible α)) (record : Visible α) : Option (Visible α) :=
  match best with
  | none => some record
  | some previous =>
    if (Versioned.reference previous.value).version.value ≤
        (Versioned.reference record.value).version.value then some record
    else some previous

/-- `latest_by_id` and `latest_map_by_id`. -/
def latestById (records : List (Visible α)) (id : Ulid) : Except ApplicationError (Visible α) :=
  match (records.filter fun record => (Versioned.reference record.value).id = id).foldl laterVersion
    none with
  | some record => .ok record
  | none => .error notFound

/-- `exact_lineage`. -/
def exactLineage (value : α) : LineageRef :=
  ⟨(Versioned.reference value).id, some (Versioned.reference value).version,
    some (Versioned.contentHash value)⟩

end Versions

/-! ### The hierarchy of a snapshot -/

/-- `CatalogHierarchy`. -/
structure Hierarchy (digest : List UInt8 → ContentHash) where
  books : SortedMap String (Visible (Book digest))
  groups : SortedMap String (Visible (PortfolioGroup digest))
  portfolios : List (Visible (Portfolio digest))
  benchmarks : SortedMap String (Visible Benchmark)
  metricConventions : SortedMap String (Visible PortfolioMetricConvention)

/-- `CatalogHierarchy::new`. -/
def Hierarchy.new (snapshot : Snapshot digest) : Except ApplicationError (Hierarchy digest) := do
  let books ← exactMap snapshot.books
  let groups ← exactMap snapshot.groups
  let portfolios ← latestVersions snapshot.portfolios
  let benchmarks ← exactMap snapshot.benchmarks
  let metricConventions ← exactMap snapshot.metricConventions
  return ⟨books, groups, portfolios, benchmarks, metricConventions⟩

/-- `PortfolioScopeSelector`. -/
inductive ScopeSelector
  | book (id : Ulid)
  | group (id : Ulid)
  | portfolio (id : Ulid)
  deriving DecidableEq

/-- `PortfolioLookThroughMode`. -/
inductive LookThrough
  | none | consolidated | separate
  deriving DecidableEq, Repr

/-- `ExactPortfolioScopeKind`. -/
inductive ExactScope
  | book (reference : LineageRef)
  | group (reference : LineageRef)
  | portfolio (reference : LineageRef)
  deriving DecidableEq

namespace Hierarchy

variable (h : Hierarchy digest)

/-- `CatalogHierarchy::group`. -/
def group (reference : LineageRef) : Except ApplicationError (Visible (PortfolioGroup digest)) := do
  let key ← exactLineageKey reference
  match h.groups.get? key with
  | some record => .ok record
  | none => .error lineageIncomplete

/-- The groups of the hierarchy, `self.groups.values()`. -/
def groupRecords : List (Visible (PortfolioGroup digest)) := h.groups.entries.map Prod.snd

/-- The loop of `group_path` and of `page_hierarchy`: a group and its ancestors along exact
    references.  A group that was visited ends the loop, so the number of groups bounds it. -/
def walk : ℕ → List String → PortfolioGroup digest →
    Except ApplicationError (List (PortfolioGroup digest))
  | 0, _, _ => .error lineageIncomplete
  | fuel + 1, visited, value =>
    if exactVersionKey value ∈ visited then .error lineageIncomplete
    else
      match value.input.parentGroup with
      | none => .ok [value]
      | some parent => do
        let record ← h.group parent
        let ancestors ← walk fuel (exactVersionKey value :: visited) record.value
        return value :: ancestors

/-- The groups that `group_path` visits: the group and its ancestors, up to one without a parent. -/
def groupChain (value : PortfolioGroup digest) :
    Except ApplicationError (List (PortfolioGroup digest)) :=
  h.walk (h.groups.entries.length + 2) [] value

/-- One round of the loop of `descendant_group_ids`. -/
def descendantRound (result : Finset Ulid) : Finset Ulid :=
  h.groupRecords.foldl (fun result record =>
    match record.value.input.parentGroup with
    | some parent =>
      if parent.objectId ∈ result then insert record.value.input.group.id result else result
    | none => result) result

/-- The loop of `descendant_group_ids`; `none` if it is still running. -/
def descendantLoop : ℕ → Finset Ulid → Option (Except ApplicationError (Finset Ulid))
  | 0, _ => none
  | fuel + 1, result =>
    let next := h.descendantRound result
    if next.card = result.card then some (.ok next)
    else if h.groups.entries.length < next.card then some (.error lineageIncomplete)
    else descendantLoop fuel next

/-- `descendant_group_ids`, with a bound on the rounds. -/
def descendantGroupIds (root : Ulid) : Option (Except ApplicationError (Finset Ulid)) :=
  h.descendantLoop (h.groups.entries.length + 1) {root}

/-- The order of `stable_member_sort`. -/
def memberLe (left right : Visible (Portfolio digest)) : Prop :=
  left.value.input.portfolio ≤ right.value.input.portfolio

instance : DecidableRel (@memberLe digest) := fun left right =>
  inferInstanceAs (Decidable (left.value.input.portfolio ≤ right.value.input.portfolio))

/-- `stable_member_sort`. -/
def stableMemberSort (records : List (Visible (Portfolio digest))) :
    List (Visible (Portfolio digest)) := records.insertionSort memberLe

/-- The group of a portfolio has no parent; a missing group counts as no. -/
def isTopLevel (record : Visible (Portfolio digest)) : Bool :=
  match h.group record.value.input.group with
  | .ok group => group.value.input.parentGroup.isNone
  | .error _ => false

/-- The groups of a scope: the group alone, or with its descendants. -/
def scopeGroupIds (id : Ulid) : LookThrough → Option (Except ApplicationError (Finset Ulid))
  | .none => some (.ok {id})
  | .consolidated | .separate => h.descendantGroupIds id

/-- `resolve_members`; `none` while the loop over the groups is running. -/
def resolveMembers (selector : ScopeSelector) (lookThrough : LookThrough) :
    Option (Except ApplicationError (ExactScope × List (Visible (Portfolio digest)))) :=
  match selector with
  | .portfolio id => some do
    let portfolio ← latestById h.portfolios id
    return (.portfolio (exactLineage portfolio.value), [portfolio])
  | .book id => some do
    let book ← latestById (h.books.entries.map Prod.snd) id
    let members := h.portfolios.filter fun record =>
      record.value.input.book.objectId = id && (lookThrough != .none || h.isTopLevel record)
    return (.book (exactLineage book.value), stableMemberSort members)
  | .group id =>
    match latestById h.groupRecords id with
    | .error error => some (.error error)
    | .ok group =>
      (h.scopeGroupIds id lookThrough).map fun ids => ids.map fun ids =>
        (.group (exactLineage group.value), stableMemberSort (h.portfolios.filter fun record =>
          record.value.input.group.objectId ∈ ids))

end Hierarchy

end Ficant.Catalog
