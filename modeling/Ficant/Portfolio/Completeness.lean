import Ficant.Catalog.Membership
import Ficant.Portfolio.Compounding
import Ficant.Portfolio.Materialisation

namespace Ficant.Performance

open Lib Catalog Overview

/-!
# Complete series

A materialisation that accepts its rows has read one row for every member and session.

* `acceptValuations_iff` — when the loop over the rows succeeds, and what it keeps then;
* `rows_perm_grid` — the accepted rows are the grid of members and sessions;
* `performance_materialisation_complete` — the aggregates are sums over that grid, whatever the
  order of the rows.
-/

variable {digest : List UInt8 → ContentHash}

/-- A value that is there. -/
theorem orLineage_eq_ok {α : Type} {value : Option α} {a : α} :
    orLineage value = .ok a ↔ value = some a := by
  cases value with
  | none => exact iff_of_false (fun h => nomatch h) (fun h => nomatch h)
  | some value => exact ⟨fun h => congrArg some (Except.ok.inj h),
      fun h => congrArg _ (Option.some.inj h)⟩

/-! ### Keys -/

/-- The text of a key starts with the identifier. -/
theorem id_eq_of_exactKeyText {id id' : Ulid} {version version' : Option Version}
    {hash hash' : ContentHash} (h : exactKeyText id version hash = exactKeyText id' version' hash') :
    id = id' := by
  have hlist := congrArg String.toList h
  rw [exactKeyText, exactKeyText, String.toList_ofList, String.toList_ofList] at hlist
  obtain ⟨hid, -⟩ := List.append_inj hlist (by rw [length_ulidText, length_ulidText])
  exact Ulid.text_injective (String.toList_inj.mp hid)

namespace SeriesRequest

variable (r : SeriesRequest digest)

/-- The key of a row. -/
def rowKey (row : PortfolioValuationSnapshot) : ValuationKey :=
  toLex ((exactKey row.portfolio).toOption.getD "", row.valuationAt.localTradingDate)

/-- The evidence of the position snapshot of a row. -/
def rowEntry (row : PortfolioValuationSnapshot) : Option (String × EvidenceBinding) :=
  (r.readPosition row).toOption.map r.positionEntry

/-- A row passes every check but that of its key. -/
def RowAccepted (row : PortfolioValuationSnapshot) : Prop :=
  r.checkValuation row = .ok () ∧ (∃ key, exactKey row.portfolio = .ok key) ∧
  ∃ position, r.readPosition row = .ok position

/-- What the loop has kept after some rows. -/
def kept (rows : List PortfolioValuationSnapshot) : ValuationState :=
  ⟨SortedMap.index rowKey rows, SortedMap.gather (rows.filterMap r.rowEntry),
    rows.map snapshotEvidence⟩

variable {r}

/-- **One row.** -/
theorem acceptValuation_iff {rows : List PortfolioValuationSnapshot}
    {row : PortfolioValuationSnapshot} {state : ValuationState} :
    r.acceptValuation (r.kept rows) row = .ok state ↔
      r.RowAccepted row ∧ rowKey row ∉ rows.map rowKey ∧ state = r.kept (rows ++ [row]) := by
  -- What is kept after one more row that was read.
  have hkept : ∀ position, r.readPosition row = .ok position →
      r.kept (rows ++ [row]) = ⟨(SortedMap.index rowKey rows).insert (rowKey row) row,
        (SortedMap.gather (rows.filterMap r.rowEntry)).orInsert (r.positionEntry position).1
          (r.positionEntry position).2, rows.map snapshotEvidence ++ [snapshotEvidence row]⟩ := by
    intro position hposition
    have hentry : [row].filterMap r.rowEntry = [r.positionEntry position] := by
      rw [List.filterMap_cons, rowEntry, hposition]
      rfl
    unfold kept
    rw [SortedMap.index_append_singleton, List.filterMap_append, hentry,
      SortedMap.gather_append_singleton, List.map_append, List.map_singleton]
  unfold acceptValuation
  constructor
  · intro h
    obtain ⟨⟨⟩, hcheck, h⟩ := bind_eq_ok.mp h
    obtain ⟨key, hkey, h⟩ := bind_eq_ok.mp h
    obtain ⟨⟨⟩, hnew, h⟩ := bind_eq_ok.mp h
    obtain ⟨position, hposition, h⟩ := bind_eq_ok.mp h
    have hrow : toLex (key, row.valuationAt.localTradingDate) = rowKey row := by
      rw [rowKey, hkey]
      rfl
    rw [rejectIf_eq_ok, hrow, Option.not_isSome_iff_eq_none] at hnew
    refine ⟨⟨hcheck, ⟨key, hkey⟩, position, hposition⟩, SortedMap.get?_index_eq_none.mp hnew, ?_⟩
    rw [hkept position hposition, ← Except.ok.inj h, hrow]
    rfl
  · rintro ⟨⟨hcheck, ⟨key, hkey⟩, position, hposition⟩, hnew, rfl⟩
    have hrow : toLex (key, row.valuationAt.localTradingDate) = rowKey row := by
      rw [rowKey, hkey]
      rfl
    rw [bind_of_eq_ok hcheck, bind_of_eq_ok hkey, hrow, bind_of_eq_ok (a := ()),
      bind_of_eq_ok hposition, hkept position hposition]
    · rfl
    · rw [rejectIf_eq_ok, Option.not_isSome_iff_eq_none]
      exact SortedMap.get?_index_eq_none.mpr hnew

/-- **The loop over the rows** succeeds when every row passes its checks and no key comes twice,
    and then it has kept every row. -/
theorem acceptValuations_iff {rows : List PortfolioValuationSnapshot} {state : ValuationState} :
    rows.foldlM r.acceptValuation ⟨∅, ∅, []⟩ = .ok state ↔
      (∀ row ∈ rows, r.RowAccepted row) ∧ (rows.map rowKey).Nodup ∧ state = r.kept rows := by
  show rows.foldlM r.acceptValuation (r.kept []) = .ok state ↔ _
  exact foldlM_keep_iff fun _ _ _ => acceptValuation_iff

/-! ### The grid -/

/-- A member and a session, for each row. -/
def rowPair (row : PortfolioValuationSnapshot) : LineageRef × MarketTime :=
  (row.portfolio, row.valuationAt)

/-- An accepted row is of the request: its owner, its subject, its convention, its currency, one of
    the members and one of the sessions. -/
structure OfRequest (r : SeriesRequest digest) (row : PortfolioValuationSnapshot) : Prop where
  owner : row.owner = r.context.owner
  subjectRef : row.subjectRef = r.context.subjectRef
  convention : row.performanceConvention = r.conventionRef
  currencyUnit : row.currencyUnit = r.context.currencyUnit
  visible : row.visibleAt.instant ≤ r.context.knowledgeAt.instant
  member : row.portfolio ∈ r.expectedMembers
  session : row.valuationAt ∈ r.sessions

/-- A row that is accepted belongs to the request. -/
theorem RowAccepted.ofRequest {row : PortfolioValuationSnapshot} (h : r.RowAccepted row) :
    OfRequest r row := by
  obtain ⟨hcheck, -, -⟩ := h
  obtain ⟨⟨⟩, hfields, hcheck⟩ := bind_eq_ok.mp hcheck
  obtain ⟨expectedTime, htime, hcheck⟩ := bind_eq_ok.mp hcheck
  rw [rejectIf_eq_ok] at hfields hcheck
  simp only [not_or, not_not, not_lt] at hfields hcheck
  obtain ⟨howner, hsubject, hconvention, hcurrency, hvisible, hmember⟩ := hfields
  refine ⟨howner, hsubject, hconvention, hcurrency, hvisible, hmember, ?_⟩
  rw [orLineage_eq_ok] at htime
  rw [hcheck]
  exact (SortedMap.of_get?_index htime).1

/-- **The rows are the grid** of members and sessions, each cell once. -/
theorem rows_perm_grid {rows : List PortfolioValuationSnapshot}
    (hall : ∀ row ∈ rows, r.RowAccepted row) (hnodup : (rows.map rowKey).Nodup)
    (hcount : rows.length = r.sessions.length * r.portfolios.length) :
    (rows.map rowPair).Perm (r.expectedMembers ×ˢ r.sessions) ∧ (rows.map rowPair).Nodup := by
  -- the key of a row is read off its member and its session
  have hpairs : (rows.map rowPair).Nodup := by
    apply List.Nodup.of_map fun pair : LineageRef × MarketTime =>
      (toLex ((exactKey pair.1).toOption.getD "", pair.2.localTradingDate) : ValuationKey)
    rw [List.map_map]
    exact hnodup
  refine ⟨perm_product_of_nodup hpairs ?_ ?_, hpairs⟩
  · intro pair hpair
    obtain ⟨row, hrow, rfl⟩ := List.mem_map.mp hpair
    exact ⟨(hall row hrow).ofRequest.member, (hall row hrow).ofRequest.session⟩
  · rw [List.length_map, hcount, expectedMembers, List.length_map, Nat.mul_comm]

/-- The rows of a member at a session. -/
def valuationsOf (rows : List PortfolioValuationSnapshot) (member : LineageRef)
    (session : MarketTime) : List PortfolioValuationSnapshot :=
  rows.filter fun row => row.portfolio = member ∧ row.valuationAt = session

/-- The rows of one portfolio and one session. -/
theorem mem_valuationsOf {rows : List PortfolioValuationSnapshot} {member : LineageRef}
    {session : MarketTime} {row : PortfolioValuationSnapshot} :
    row ∈ valuationsOf rows member session ↔
      row ∈ rows ∧ row.portfolio = member ∧ row.valuationAt = session := by
  rw [valuationsOf, List.mem_filter, decide_eq_true_iff]

/-- Every cell of the grid has one row. -/
theorem length_valuationsOf {rows : List PortfolioValuationSnapshot}
    (hgrid : (rows.map rowPair).Perm (r.expectedMembers ×ˢ r.sessions))
    (hnodup : (rows.map rowPair).Nodup) {member : LineageRef} (hmember : member ∈ r.expectedMembers)
    {session : MarketTime} (hsession : session ∈ r.sessions) :
    (valuationsOf rows member session).length = 1 := by
  have hmem : (member, session) ∈ rows.map rowPair :=
    hgrid.mem_iff.mpr (List.mem_product.mpr ⟨hmember, hsession⟩)
  have hcount := List.count_eq_one_of_mem hnodup hmem
  rw [List.count, List.countP_map, List.countP_eq_length_filter] at hcount
  rw [← hcount, valuationsOf]
  congr 1
  apply List.filter_congr
  intro row _
  rw [Bool.eq_iff_iff, decide_eq_true_iff, Function.comp_apply, beq_iff_eq]
  exact (Prod.ext_iff (x := rowPair row) (y := (member, session))).symm

/-- What the loop finds for a member and a session is their only row. -/
theorem valuationsOf_eq_singleton {rows : List PortfolioValuationSnapshot}
    (hkeys : (rows.map rowKey).Nodup)
    (hgrid : (rows.map rowPair).Perm (r.expectedMembers ×ˢ r.sessions))
    (hnodup : (rows.map rowPair).Nodup) {member : LineageRef} (hmember : member ∈ r.expectedMembers)
    {session : MarketTime} (hsession : session ∈ r.sessions) {found : PortfolioValuationSnapshot}
    (hfound : valuationOf (SortedMap.index rowKey rows) member session = .ok found) :
    valuationsOf rows member session = [found] := by
  obtain ⟨row, hrow⟩ := List.length_eq_one_iff.mp
    (length_valuationsOf hgrid hnodup hmember hsession)
  obtain ⟨hmem, rfl, rfl⟩ := mem_valuationsOf.mp (hrow ▸ List.mem_cons_self)
  -- the row of the cell is found under the key of its member and its date
  obtain ⟨key, hkey, hget⟩ := bind_eq_ok.mp hfound
  rw [orLineage_eq_ok] at hget
  have hrowKey : toLex (key, row.valuationAt.localTradingDate) = rowKey row := by
    rw [rowKey, hkey]
    rfl
  rw [hrowKey, SortedMap.get?_index_of_mem hkeys hmem] at hget
  rw [hrow, Option.some.inj hget]

/-! ### The sums -/

/-- The sums over the members of a session. -/
theorem addValuations_eq {values : SortedMap ValuationKey PortfolioValuationSnapshot}
    {session : MarketTime} {members : List LineageRef} {sums sums' : FixedDecimal × FixedDecimal}
    (h : members.foldlM (addValuation values session) sums = .ok sums') :
    ∃ found, List.Forall₂ (fun member row => valuationOf values member session = .ok row)
        members found ∧
      sums'.1.scaled = sums.1.scaled + (found.map (·.netAssetValue.scaled)).sum ∧
      sums'.2.scaled = sums.2.scaled + (found.map (·.netExternalFlow.scaled)).sum := by
  induction members generalizing sums with
  | nil =>
    obtain rfl := Except.ok.inj h
    exact ⟨[], .nil, by simp, by simp⟩
  | cons member rest ih =>
    obtain ⟨next, hnext, h⟩ := bind_eq_ok.mp h
    obtain ⟨found, hfound, hnav, hflow⟩ := ih h
    obtain ⟨row, hrow, hnext⟩ := bind_eq_ok.mp hnext
    obtain ⟨nav, hadd, hnext⟩ := bind_eq_ok.mp hnext
    obtain ⟨flow, hadd', hnext⟩ := bind_eq_ok.mp hnext
    obtain rfl := Except.ok.inj hnext
    rw [mapError_eq_ok, FixedDecimal.checkedAdd_eq_ok] at hadd hadd'
    refine ⟨row :: found, .cons hrow hfound, ?_, ?_⟩
    · rw [hnav, hadd, List.map_cons, List.sum_cons, add_assoc]
    · rw [hflow, hadd', List.map_cons, List.sum_cons, add_assoc]

/-- An aggregate is the sum over the members of one session. -/
structure SumOver (rows : List PortfolioValuationSnapshot) (members : List LineageRef)
    (session : MarketTime) (aggregate : PortfolioSessionAggregate) : Prop where
  valuationAt : aggregate.valuationAt = session
  netAssetValue : aggregate.netAssetValue.scaled
    = ((members.flatMap fun member => valuationsOf rows member session).map
        (·.netAssetValue.scaled)).sum
  netExternalFlow : aggregate.netExternalFlow.scaled
    = ((members.flatMap fun member => valuationsOf rows member session).map
        (·.netExternalFlow.scaled)).sum

/-- Lists with one element each make the list of these. -/
theorem flatMap_eq_of_forall₂ {α β : Type} {f : α → List β} {l : List α} {found : List β}
    (h : List.Forall₂ (fun a b => f a = [b]) l found) : l.flatMap f = found := by
  induction h with
  | nil => rfl
  | cons hhead _ ih => rw [List.flatMap_cons, hhead, ih, List.singleton_append]

/-- **A session's totals** are sums over exactly the rows of the session, one for each portfolio. -/
theorem sumOver_of_sessionAggregate {rows : List PortfolioValuationSnapshot}
    (hkeys : (rows.map rowKey).Nodup)
    (hgrid : (rows.map rowPair).Perm (r.expectedMembers ×ˢ r.sessions))
    (hnodup : (rows.map rowPair).Nodup) {session : MarketTime} (hsession : session ∈ r.sessions)
    {aggregate : PortfolioSessionAggregate}
    (h : r.sessionAggregate (SortedMap.index rowKey rows) session = .ok aggregate) :
    SumOver rows r.expectedMembers session aggregate := by
  obtain ⟨sums, hsums, h⟩ := bind_eq_ok.mp h
  rw [mapError_eq_ok] at h
  unfold PortfolioSessionAggregate.new at h
  split at h
  · obtain rfl := Except.ok.inj h
    obtain ⟨found, hfound, hnav, hflow⟩ := addValuations_eq hsums
    -- Every member has one row in the session, so the sums run over all of them.
    have hsingle : List.Forall₂ (fun member row => valuationsOf rows member session = [row])
        r.expectedMembers found := by
      rw [List.forall₂_iff_zip] at hfound ⊢
      refine ⟨hfound.1, fun hmem => ?_⟩
      exact valuationsOf_eq_singleton hkeys hgrid hnodup (List.of_mem_zip hmem).1 hsession
        (hfound.2 hmem)
    have hzero : FixedDecimal.zero.scaled = 0 := rfl
    rw [hzero, zero_add] at hnav hflow
    refine ⟨rfl, ?_, ?_⟩
    · rw [flatMap_eq_of_forall₂ hsingle]
      exact hnav
    · rw [flatMap_eq_of_forall₂ hsingle]
      exact hflow
  · cases h

/-! ### The order of the rows -/

/-- Position snapshots with one key are one snapshot. -/
theorem functional_rowEntries (rows : List PortfolioValuationSnapshot) :
    SortedMap.Functional (rows.filterMap r.rowEntry) := by
  -- Every entry was read from the store under its own identity.
  have hread : ∀ entry ∈ rows.filterMap r.rowEntry, ∃ position, entry = r.positionEntry position ∧
      r.positions position.input.snapshotId = .ok (some position) := by
    intro entry hentry
    obtain ⟨row, -, hrow⟩ := List.mem_filterMap.mp hentry
    unfold rowEntry at hrow
    cases hposition : r.readPosition row with
    | error error =>
      rw [hposition] at hrow
      cases hrow
    | ok position =>
      rw [hposition] at hrow
      refine ⟨position, (Option.some.inj hrow).symm, ?_⟩
      unfold readPosition at hposition
      obtain ⟨stored, hstored, hposition⟩ := bind_eq_ok.mp hposition
      cases stored with
      | none => cases hposition
      | some stored =>
        obtain ⟨⟨⟩, hfields, hposition⟩ := bind_eq_ok.mp hposition
        obtain rfl := Except.ok.inj hposition
        rw [rejectIf_eq_ok, not_or, not_not] at hfields
        rw [hfields.1]
        exact hstored
  intro entry hentry entry' hentry' hkey
  obtain ⟨position, rfl, hposition⟩ := hread entry hentry
  obtain ⟨position', rfl, hposition'⟩ := hread entry' hentry'
  have hid : position.input.snapshotId = position'.input.snapshotId := id_eq_of_exactKeyText hkey
  rw [hid, hposition'] at hposition
  rw [Option.some.inj (Except.ok.inj hposition)]

/-- What an accepted materialisation has done. -/
theorem materializePortfolioSeries_eq_ok {rows : List PortfolioValuationSnapshot}
    {out : List PortfolioSessionAggregate × List EvidenceBinding} :
    r.materializePortfolioSeries rows = .ok out ↔
      r.sessions.length * r.portfolios.length < 2 ^ 64 ∧
      rows.length = r.sessions.length * r.portfolios.length ∧
      (∀ row ∈ rows, r.RowAccepted row) ∧ (rows.map rowKey).Nodup ∧
      r.portfolios.forM (r.checkEnd (SortedMap.index rowKey rows)) = .ok () ∧
      r.sessions.mapM (r.sessionAggregate (SortedMap.index rowKey rows)) = .ok out.1 ∧
      out.2 = rows.map snapshotEvidence
        ++ (SortedMap.gather (rows.filterMap r.rowEntry)).entries.map Prod.snd := by
  unfold materializePortfolioSeries
  simp only [bind_eq_ok, rejectIf_eq_ok, not_le, not_not]
  constructor
  · rintro ⟨⟨⟩, hfits, ⟨⟩, hcount, state, hstate, ⟨⟩, hend, series, hseries, hout⟩
    obtain ⟨hall, hnodup, rfl⟩ := acceptValuations_iff.mp hstate
    obtain rfl := Except.ok.inj hout
    exact ⟨hfits, hcount, hall, hnodup, hend, hseries, rfl⟩
  · rintro ⟨hfits, hcount, hall, hnodup, hend, hseries, hevidence⟩
    refine ⟨(), hfits, (), hcount, r.kept rows, acceptValuations_iff.mpr ⟨hall, hnodup, rfl⟩, (),
      hend, out.1, hseries, ?_⟩
    rw [show out = (out.1, out.2) from rfl, hevidence]
    rfl

end SeriesRequest

/-! ### The benchmark -/

namespace BenchmarkRequest

variable {r : BenchmarkRequest}

/-- The date of a level. -/
def levelDate (level : BenchmarkLevelSnapshot) : NaiveDate := level.valuationAt.localTradingDate

/-- What the loop has kept after some levels. -/
def kept (levels : List BenchmarkLevelSnapshot) : LevelState :=
  ⟨SortedMap.index levelDate levels, levels.map benchmarkLevelEvidence⟩

/-- **One level.** -/
theorem acceptLevel_iff {levels : List BenchmarkLevelSnapshot} {level : BenchmarkLevelSnapshot}
    {state : LevelState} :
    r.acceptLevel (kept levels) level = .ok state ↔
      r.checkLevel level = .ok () ∧ levelDate level ∉ levels.map levelDate ∧
      state = kept (levels ++ [level]) := by
  unfold acceptLevel
  simp only [bind_eq_ok, rejectIf_eq_ok, Option.not_isSome_iff_eq_none]
  have hkept : kept (levels ++ [level]) = ⟨(SortedMap.index levelDate levels).insert
      (levelDate level) level, levels.map benchmarkLevelEvidence ++
      [benchmarkLevelEvidence level]⟩ := by
    rw [kept, SortedMap.index_append_singleton, List.map_append, List.map_singleton]
  rw [hkept]
  constructor
  · rintro ⟨⟨⟩, hcheck, ⟨⟩, hnew, h⟩
    exact ⟨hcheck, SortedMap.get?_index_eq_none.mp hnew, (Except.ok.inj h).symm⟩
  · rintro ⟨hcheck, hnew, rfl⟩
    exact ⟨(), hcheck, (), SortedMap.get?_index_eq_none.mpr hnew, rfl⟩

/-- **The loop over the levels.** -/
theorem acceptLevels_iff {levels : List BenchmarkLevelSnapshot} {state : LevelState} :
    levels.foldlM r.acceptLevel ⟨∅, []⟩ = .ok state ↔
      (∀ level ∈ levels, r.checkLevel level = .ok ()) ∧ (levels.map levelDate).Nodup ∧
      state = kept levels := by
  show levels.foldlM r.acceptLevel (kept []) = .ok state ↔ _
  exact foldlM_keep_iff fun _ _ _ => acceptLevel_iff

/-- **What the levels of a benchmark have to be**: as many as sessions, accepted, of distinct dates,
    and one found for each session. -/
theorem materializeBenchmarkSeries_eq_ok {levels : List BenchmarkLevelSnapshot}
    {out : List BenchmarkSessionLevel × List EvidenceBinding} :
    r.materializeBenchmarkSeries levels = .ok out ↔
      levels.length = r.sessions.length ∧ (∀ level ∈ levels, r.checkLevel level = .ok ()) ∧
      (levels.map levelDate).Nodup ∧
      r.sessions.mapM (sessionLevel (SortedMap.index levelDate levels)) = .ok out.1 ∧
      out.2 = levels.map benchmarkLevelEvidence := by
  unfold materializeBenchmarkSeries
  simp only [bind_eq_ok, rejectIf_eq_ok, not_not]
  constructor
  · rintro ⟨⟨⟩, hcount, state, hstate, series, hseries, hout⟩
    obtain ⟨hall, hnodup, rfl⟩ := acceptLevels_iff.mp hstate
    obtain rfl := Except.ok.inj hout
    exact ⟨hcount, hall, hnodup, hseries, rfl⟩
  · rintro ⟨hcount, hall, hnodup, hseries, hevidence⟩
    refine ⟨(), hcount, kept levels, acceptLevels_iff.mpr ⟨hall, hnodup, rfl⟩, out.1, hseries, ?_⟩
    rw [show out = (out.1, out.2) from rfl, hevidence]
    rfl

/-- An accepted level is of the request: its owner, its subject, the benchmark, the unit and one of
    the sessions. -/
structure OfRequest (r : BenchmarkRequest) (level : BenchmarkLevelSnapshot) : Prop where
  owner : level.owner = r.context.owner
  subjectRef : level.subjectRef = r.context.subjectRef
  benchmark : level.benchmark = r.benchmark
  levelUnit : level.levelUnit = r.returnUnit
  visible : level.visibleAt.instant ≤ r.context.knowledgeAt.instant
  session : level.valuationAt ∈ r.sessions

/-- A level that is accepted belongs to the request. -/
theorem ofRequest_of_checkLevel {level : BenchmarkLevelSnapshot} (h : r.checkLevel level = .ok ()) :
    OfRequest r level := by
  obtain ⟨⟨⟩, hfields, h⟩ := bind_eq_ok.mp h
  obtain ⟨expectedTime, htime, h⟩ := bind_eq_ok.mp h
  rw [rejectIf_eq_ok] at hfields h
  simp only [not_or, not_not, not_lt] at hfields h
  obtain ⟨howner, hsubject, hbenchmark, hunit, hvisible⟩ := hfields
  rw [orLineage_eq_ok] at htime
  refine ⟨howner, hsubject, hbenchmark, hunit, hvisible, ?_⟩
  rw [h]
  exact (SortedMap.of_get?_index htime).1

/-- **The levels are the sessions**, each once. -/
theorem levels_perm_sessions {levels : List BenchmarkLevelSnapshot}
    (hall : ∀ level ∈ levels, r.checkLevel level = .ok ()) (hnodup : (levels.map levelDate).Nodup)
    (hcount : levels.length = r.sessions.length) :
    (levels.map (·.valuationAt)).Perm r.sessions ∧ (levels.map (·.valuationAt)).Nodup := by
  have htimes : (levels.map (·.valuationAt)).Nodup := by
    apply List.Nodup.of_map MarketTime.localTradingDate
    rw [List.map_map]
    exact hnodup
  refine ⟨?_, htimes⟩
  apply (List.subperm_of_subset htimes ?_).perm_of_length_le
  · rw [List.length_map, hcount]
  · intro time htime
    obtain ⟨level, hlevel, rfl⟩ := List.mem_map.mp htime
    exact (ofRequest_of_checkLevel (hall level hlevel)).session

/-- The levels at a session. -/
def levelsOf (levels : List BenchmarkLevelSnapshot) (session : MarketTime) :
    List BenchmarkLevelSnapshot :=
  levels.filter fun level => level.valuationAt = session

/-- What the loop finds for a session is its only level. -/
theorem levelsOf_eq_singleton {levels : List BenchmarkLevelSnapshot}
    (hdates : (levels.map levelDate).Nodup)
    (hgrid : (levels.map (·.valuationAt)).Perm r.sessions)
    (hnodup : (levels.map (·.valuationAt)).Nodup) {session : MarketTime}
    (hsession : session ∈ r.sessions) :
    ∃ level, levelsOf levels session = [level] ∧
      (SortedMap.index levelDate levels).get? session.localTradingDate = some level := by
  have hcount := List.count_eq_one_of_mem hnodup (hgrid.mem_iff.mpr hsession)
  rw [List.count, List.countP_map, List.countP_eq_length_filter, List.length_eq_one_iff] at hcount
  obtain ⟨level, hlevel⟩ := hcount
  have hfilter : levelsOf levels session = [level] := by
    rw [← hlevel, levelsOf]
    apply List.filter_congr
    intro other _
    rw [Bool.eq_iff_iff, decide_eq_true_iff, Function.comp_apply, beq_iff_eq]
  have hmem : level ∈ levelsOf levels session := hfilter ▸ List.mem_cons_self
  rw [levelsOf, List.mem_filter, decide_eq_true_iff] at hmem
  refine ⟨level, hfilter, ?_⟩
  rw [← hmem.2]
  exact SortedMap.get?_index_of_mem hdates hmem.1

/-- The level of a session is that of its only row. -/
def LevelOf (levels : List BenchmarkLevelSnapshot) (session : MarketTime)
    (value : BenchmarkSessionLevel) : Prop :=
  value.valuationAt = session ∧ (levelsOf levels session).map (·.level) = [value.level]

/-- The level of a session is the one of its instant. -/
theorem levelOf_of_sessionLevel {levels : List BenchmarkLevelSnapshot}
    (hdates : (levels.map levelDate).Nodup)
    (hgrid : (levels.map (·.valuationAt)).Perm r.sessions)
    (hnodup : (levels.map (·.valuationAt)).Nodup) {session : MarketTime}
    (hsession : session ∈ r.sessions) {value : BenchmarkSessionLevel}
    (h : sessionLevel (SortedMap.index levelDate levels) session = .ok value) :
    LevelOf levels session value := by
  obtain ⟨level, hlevel, hget⟩ := levelsOf_eq_singleton hdates hgrid hnodup hsession
  obtain ⟨found, hfound, h⟩ := bind_eq_ok.mp h
  rw [orLineage_eq_ok, hget] at hfound
  obtain rfl := Option.some.inj hfound
  rw [mapError_eq_ok] at h
  unfold BenchmarkSessionLevel.new at h
  split at h
  · obtain rfl := Except.ok.inj h
    refine ⟨rfl, ?_⟩
    rw [hlevel]
    rfl
  · cases h

end BenchmarkRequest

/-! ### What an accepted materialisation says -/

/-- What a portfolio series says about its rows: one row in every cell, every row of the request,
    a sum for every session, and no dependence on the order of the rows. -/
structure CompleteSeries (r : SeriesRequest digest) (rows : List PortfolioValuationSnapshot)
    (series : List PortfolioSessionAggregate) (evidence : List EvidenceBinding) : Prop where
  onceEach : ∀ member ∈ r.expectedMembers, ∀ session ∈ r.sessions,
    (SeriesRequest.valuationsOf rows member session).length = 1
  ofRequest : ∀ row ∈ rows, SeriesRequest.OfRequest r row
  sums : List.Forall₂ (SeriesRequest.SumOver rows r.expectedMembers) r.sessions series
  anyOrder : ∀ rows', rows.Perm rows' → ∃ evidence',
    r.materializePortfolioSeries rows' = .ok (series, evidence') ∧ evidence.Perm evidence'

/-- What a benchmark series says about its levels. -/
structure CompleteLevels (b : BenchmarkRequest) (levels : List BenchmarkLevelSnapshot)
    (series : List BenchmarkSessionLevel) (evidence : List EvidenceBinding) : Prop where
  onceEach : ∀ session ∈ b.sessions, (BenchmarkRequest.levelsOf levels session).length = 1
  ofRequest : ∀ level ∈ levels, BenchmarkRequest.OfRequest b level
  values : List.Forall₂ (BenchmarkRequest.LevelOf levels) b.sessions series
  anyOrder : ∀ levels', levels.Perm levels' → ∃ evidence',
    b.materializeBenchmarkSeries levels' = .ok (series, evidence') ∧ evidence.Perm evidence'

/-- **A series that is returned is complete.** -/
theorem completeSeries_of_ok {r : SeriesRequest digest} {rows : List PortfolioValuationSnapshot}
    {series : List PortfolioSessionAggregate} {evidence : List EvidenceBinding}
    (h : r.materializePortfolioSeries rows = .ok (series, evidence)) :
    CompleteSeries r rows series evidence := by
  obtain ⟨hfits, hcount, hall, hkeys, hend, hseries, hevidence⟩ :=
    SeriesRequest.materializePortfolioSeries_eq_ok.mp h
  obtain ⟨hgrid, hnodup⟩ := SeriesRequest.rows_perm_grid hall hkeys hcount
  refine ⟨?_, ?_, ?_, ?_⟩
  · intro member hmember session hsession
    exact SeriesRequest.length_valuationsOf hgrid hnodup hmember hsession
  · intro row hrow
    exact (hall row hrow).ofRequest
  · have hsums := mapM_eq_ok.mp hseries
    rw [List.forall₂_iff_zip] at hsums ⊢
    refine ⟨hsums.1, fun hmem => ?_⟩
    exact SeriesRequest.sumOver_of_sessionAggregate hkeys hgrid hnodup (List.of_mem_zip hmem).1
      (hsums.2 hmem)
  -- The index of the rows does not depend on their order, since their keys are distinct.
  · intro rows' hperm
    have hkeys' : (rows'.map SeriesRequest.rowKey).Nodup := (hperm.map _).nodup_iff.mp hkeys
    refine ⟨rows'.map snapshotEvidence
      ++ (SortedMap.gather (rows'.filterMap r.rowEntry)).entries.map Prod.snd, ?_, ?_⟩
    · rw [SeriesRequest.materializePortfolioSeries_eq_ok, ← SortedMap.index_perm hperm hkeys]
      refine ⟨hfits, ?_, ?_, hkeys', hend, hseries, rfl⟩
      · rw [← hperm.length_eq]
        exact hcount
      · intro row hrow
        exact hall row (hperm.mem_iff.mpr hrow)
    · show evidence.Perm _
      rw [show evidence = _ from hevidence, SortedMap.gather_perm (hperm.filterMap _)
        (SeriesRequest.functional_rowEntries rows)]
      apply List.Perm.append_right
      exact hperm.map _

/-- **Levels that are returned are complete.** -/
theorem completeLevels_of_ok {b : BenchmarkRequest} {levels : List BenchmarkLevelSnapshot}
    {series : List BenchmarkSessionLevel} {evidence : List EvidenceBinding}
    (h : b.materializeBenchmarkSeries levels = .ok (series, evidence)) :
    CompleteLevels b levels series evidence := by
  obtain ⟨hcount, hall, hdates, hseries, hevidence⟩ :=
    BenchmarkRequest.materializeBenchmarkSeries_eq_ok.mp h
  obtain ⟨hgrid, hnodup⟩ := BenchmarkRequest.levels_perm_sessions hall hdates hcount
  refine ⟨?_, ?_, ?_, ?_⟩
  · intro session hsession
    obtain ⟨level, hlevel, -⟩ :=
      BenchmarkRequest.levelsOf_eq_singleton hdates hgrid hnodup hsession
    rw [hlevel]
    rfl
  · intro level hlevel
    exact BenchmarkRequest.ofRequest_of_checkLevel (hall level hlevel)
  · have hlevels := mapM_eq_ok.mp hseries
    rw [List.forall₂_iff_zip] at hlevels ⊢
    refine ⟨hlevels.1, fun hmem => ?_⟩
    exact BenchmarkRequest.levelOf_of_sessionLevel hdates hgrid hnodup (List.of_mem_zip hmem).1
      (hlevels.2 hmem)
  -- The index of the levels does not depend on their order either.
  · intro levels' hperm
    refine ⟨levels'.map benchmarkLevelEvidence, ?_, ?_⟩
    · rw [BenchmarkRequest.materializeBenchmarkSeries_eq_ok, ← SortedMap.index_perm hperm hdates]
      refine ⟨?_, ?_, (hperm.map _).nodup_iff.mp hdates, hseries, rfl⟩
      · rw [← hperm.length_eq]
        exact hcount
      · intro level hlevel
        exact hall level (hperm.mem_iff.mpr hlevel)
    · show evidence.Perm _
      rw [show evidence = _ from hevidence]
      exact hperm.map _

/-- **Materialisation is complete.** When the rows of the portfolios and the levels of the
    benchmark are accepted, each member and session has one row and each session one level, every
    row belongs to the request, every aggregate is the sum over the members, and the same series
    come out for every order of the rows; so a missing, repeated or foreign row is refused. -/
theorem performance_materialisation_complete (r : SeriesRequest digest) (b : BenchmarkRequest) :
    (∀ rows series evidence, r.materializePortfolioSeries rows = .ok (series, evidence) →
      CompleteSeries r rows series evidence) ∧
    (∀ levels series evidence, b.materializeBenchmarkSeries levels = .ok (series, evidence) →
      CompleteLevels b levels series evidence) ∧
    (∀ rows, (∃ member ∈ r.expectedMembers, ∃ session ∈ r.sessions,
        (SeriesRequest.valuationsOf rows member session).length ≠ 1) ∨
        (∃ row ∈ rows, ¬ SeriesRequest.OfRequest r row) →
      ∀ out, r.materializePortfolioSeries rows ≠ .ok out) ∧
    (∀ levels, (∃ session ∈ b.sessions, (BenchmarkRequest.levelsOf levels session).length ≠ 1) ∨
        (∃ level ∈ levels, ¬ BenchmarkRequest.OfRequest b level) →
      ∀ out, b.materializeBenchmarkSeries levels ≠ .ok out) := by
  refine ⟨fun rows series evidence => completeSeries_of_ok,
    fun levels series evidence => completeLevels_of_ok, ?_, ?_⟩
  · rintro rows hbad ⟨series, evidence⟩ h
    have hcomplete := completeSeries_of_ok h
    rcases hbad with ⟨member, hmember, session, hsession, hlength⟩ | ⟨row, hrow, hforeign⟩
    · exact hlength (hcomplete.onceEach member hmember session hsession)
    · exact hforeign (hcomplete.ofRequest row hrow)
  · rintro levels hbad ⟨series, evidence⟩ h
    have hcomplete := completeLevels_of_ok h
    rcases hbad with ⟨session, hsession, hlength⟩ | ⟨level, hlevel, hforeign⟩
    · exact hlength (hcomplete.onceEach session hsession)
    · exact hforeign (hcomplete.ofRequest level hlevel)

section Sample

open Fingerprint (sampleDigest sampleOwner sampleRef sampleHash sampleLineage)

/-- A position snapshot without positions. -/
def samplePositionInput (contentHash : ContentHash) : PositionSnapshotInput :=
  ⟨⟨20⟩, sampleOwner, sampleRef, firstClose, firstClose, contentHash,
    [sampleLineage], []⟩

def samplePosition : PositionSnapshot sampleDigest :=
  ⟨samplePositionInput (sampleDigest (samplePositionInput sampleHash).canonicalBytes), by
    decide +kernel⟩

/-- Where the member and its rows say that they come from. -/
def sampleBinding : PortfolioSnapshotBinding :=
  ⟨⟨20⟩, samplePosition.input.contentHash, firstClose, firstClose,
    le_rfl⟩

/-- A portfolio bound to that snapshot. -/
def sampleMemberInput (contentHash : ContentHash) : PortfolioInput :=
  { (Catalog.movedPortfolio sampleDigest).input with
    positionSnapshot := sampleBinding
    contentHash }

def sampleMember : Portfolio sampleDigest :=
  ⟨sampleMemberInput (sampleDigest (canonicalPortfolio (sampleMemberInput sampleHash))), by
    decide +kernel⟩

def sampleContext : NormalizedPortfolioContext where
  owner := sampleOwner
  subjectRef := sampleRef
  scope := ⟨.portfolio (exactPortfolio sampleMember), [exactPortfolio sampleMember]⟩
  valuationAt := secondClose
  knowledgeAt := thirdClose
  currency := .original
  currencyUnit := ⟨⟨4⟩, .first⟩
  lookThrough := .none
  benchmark := ⟨sampleRef, sampleHash⟩
  period := .oneDay
  periodFrom := firstClose
  periodTo := secondClose
  metricConvention := ⟨sampleRef, sampleHash⟩

/-- One member over two sessions. -/
def sampleRequest : SeriesRequest sampleDigest where
  context := sampleContext
  portfolios := [⟨sampleMember, firstClose⟩]
  sessions := [firstClose, secondClose]
  conventionRef := ⟨sampleRef, sampleHash⟩
  positions id := .ok (if id = ⟨20⟩ then some samplePosition else none)

def sampleBenchmarkRequest : BenchmarkRequest where
  context := sampleContext
  benchmark := sampleLineage
  sessions := [firstClose, secondClose]
  returnUnit := ⟨⟨8⟩, .first⟩

/-- The member's valuation at the close of a session. -/
def sampleRow (id : Ulid) (session : MarketTime) (value : FixedDecimal) :
    PortfolioValuationSnapshot :=
  ⟨id, sampleOwner, sampleRef, exactPortfolio sampleMember, sampleBinding, ⟨sampleRef, sampleHash⟩,
    session, session, ⟨⟨4⟩, .first⟩, value, .zero, sampleHash⟩

/-- The rows, the later session first. -/
def sampleRows : List PortfolioValuationSnapshot :=
  [sampleRow ⟨31⟩ secondClose (.ofScaled 110000000000000),
    sampleRow ⟨30⟩ firstClose (.ofScaled 100000000000000)]

/-- Two sessions of one portfolio. -/
theorem performance_materialisation_complete_sample :
    ∃ series evidence, sampleRequest.materializePortfolioSeries sampleRows = .ok (series, evidence) ∧
      series.map (·.netAssetValue.scaled) = [100000000000000, 110000000000000] ∧
      CompleteSeries sampleRequest sampleRows series evidence := by
  have hrun : (sampleRequest.materializePortfolioSeries sampleRows).toOption.map
      (fun out => out.1.map (·.netAssetValue.scaled)) = some [100000000000000, 110000000000000] := by
    decide +kernel
  cases hout : sampleRequest.materializePortfolioSeries sampleRows with
  | error error =>
    rw [hout] at hrun
    cases hrun
  | ok out =>
    rw [hout] at hrun
    refine ⟨out.1, out.2, rfl, Option.some.inj hrun, ?_⟩
    exact (performance_materialisation_complete sampleRequest sampleBenchmarkRequest).1 sampleRows
      out.1 out.2 hout

end Sample

end Ficant.Performance
