import Ficant.Data.SnapshotFidelity

namespace Ficant

open Lib

/-!
# Every row lands in one place

An import looks at its rows one by one and at the end takes out every bar whose key or record
identifier is not its own.

* `selection_eq` — what the loop over the rows has collected;
* `landing` — where one row ends up, given the bars that the other rows give;
* `ingest_partitions_iff` — the report counts the landings, and the order of the rows does not matter.
-/

section Partition

variable (clock : MarketClock) (request : CanonicalBarIngestRequest) (rule : BarVisibilityRule)

/-! ### The loop -/

/-- The bar of a row that is valid and inside the window. -/
def rowBar? (raw : RawBarRow) : Option Bar :=
  match validateRow clock request rule raw with
  | .ok bar => bar
  | .error _ => none

/-- The rejection of a row that is not valid. -/
def rowRejection? (raw : RawBarRow) : Option BarRejection :=
  match validateRow clock request rule raw with
  | .error (.rejected rejection) => some rejection
  | _ => none

/-- A row that is valid and outside the window. -/
def rowOutside (raw : RawBarRow) : Bool :=
  match validateRow clock request rule raw with
  | .ok none => true
  | _ => false

/-- A row on which chrono panics. -/
def rowOverflows (raw : RawBarRow) : Bool :=
  match validateRow clock request rule raw with
  | .error .overflow => true
  | _ => false

/-- What the loop over the rows collects, if no row overflows. -/
def collected (rows : List RawBarRow) : BarSelection :=
  ⟨rows.filterMap (rowBar? clock request rule), rows.countP (rowOutside clock request rule),
    rows.filterMap (rowRejection? clock request rule)⟩

variable {clock request rule}

/-- One row goes to one bucket. -/
theorem add_collected (done : List RawBarRow) (raw : RawBarRow) :
    (collected clock request rule done).add clock request rule raw =
      if rowOverflows clock request rule raw then .error .overflow
      else .ok (collected clock request rule (done ++ [raw])) := by
  unfold BarSelection.add collected rowBar? rowOutside rowRejection? rowOverflows
  simp only [List.filterMap_append, List.countP_append, List.filterMap_cons, List.filterMap_nil,
    List.countP_cons, List.countP_nil]
  split <;> rename_i hrow <;> simp [hrow]

/-- **The loop.** It stops on the first row that overflows, and otherwise has every row in its
    bucket. -/
theorem selection_eq (rows : List RawBarRow) :
    rows.foldlM (BarSelection.add clock request rule) ⟨[], 0, []⟩ =
      if rows.any (rowOverflows clock request rule) then .error .overflow
      else .ok (collected clock request rule rows) := by
  -- The invariant: after some rows the selection is what these rows collect to.
  suffices hrest : ∀ rest done : List RawBarRow, rest.foldlM (BarSelection.add clock request rule)
      (collected clock request rule done) =
      if rest.any (rowOverflows clock request rule) then .error .overflow
      else .ok (collected clock request rule (done ++ rest)) from hrest rows []
  intro rest
  induction rest with
  | nil =>
    intro done
    rw [List.append_nil]
    rfl
  | cons raw rest ih =>
    intro done
    rw [List.foldlM_cons, add_collected, List.any_cons]
    -- A row that overflows ends the loop; any other one is collected.
    by_cases hover : rowOverflows clock request rule raw = true
    · rw [if_pos hover, hover]
      rfl
    · rw [if_neg hover, Bool.not_eq_true _ |>.mp hover, Bool.false_or, ok_bind, ih,
        List.append_assoc]
      rfl

/-! ### Landings -/

/-- Where a row ends up. -/
inductive RowLanding
  | emitted (bar : Bar)
  | outsideWindow
  | rejected (rejection : BarRejection)

variable (clock request rule) in
/-- Where a row ends up, given all bars of the source; `none` where chrono panics. -/
def landing (valid : List Bar) (raw : RawBarRow) : Option RowLanding :=
  match validateRow clock request rule raw with
  | .ok (some bar) =>
    if isDuplicate valid bar then some (.rejected ⟨bar.sourceRecordId, .duplicateBar, none⟩)
    else some (.emitted bar)
  | .ok none => some .outsideWindow
  | .error (.rejected rejection) => some (.rejected rejection)
  | .error .overflow => none

/-- The bar of a row that is emitted. -/
def RowLanding.bar? : RowLanding → Option Bar
  | emitted bar => some bar
  | _ => none

/-- The rejection of a row that is rejected. -/
def RowLanding.rejection? : RowLanding → Option BarRejection
  | rejected rejection => some rejection
  | _ => none

/-- Whether the row is outside the window. -/
def RowLanding.outside : RowLanding → Bool
  | outsideWindow => true
  | _ => false

variable (clock request rule) in
/-- The bars of all rows that are valid and inside the window. -/
def validBars (rows : List RawBarRow) : List Bar := rows.filterMap (rowBar? clock request rule)

/-- The bars that land are the valid ones without the clashes. -/
theorem filterMap_bar?_landing (valid : List Bar) (rows : List RawBarRow) :
    rows.filterMap (fun raw => (landing clock request rule valid raw).bind RowLanding.bar?) =
      (validBars clock request rule rows).filter fun bar => !isDuplicate valid bar := by
  rw [validBars, List.filter_filterMap]
  congr 1
  funext raw
  unfold landing rowBar?
  rcases validateRow clock request rule raw with (_ | _) | (_ | bar)
  · rfl
  · rfl
  · rfl
  · by_cases hdup : isDuplicate valid bar = true
    · simp [hdup, RowLanding.bar?, Option.filter_some]
    · simp [hdup, RowLanding.bar?, Option.filter_some]

/-- The rows outside of the window are counted as such. -/
theorem countP_outside_landing (valid : List Bar) (rows : List RawBarRow) :
    rows.countP (fun raw => (landing clock request rule valid raw).any RowLanding.outside) =
      rows.countP (rowOutside clock request rule) := by
  congr 1
  funext raw
  unfold landing rowOutside
  rcases validateRow clock request rule raw with (_ | _) | (_ | bar)
  · rfl
  · rfl
  · rfl
  · by_cases hdup : isDuplicate valid bar = true <;> simp [hdup, RowLanding.outside]

/-- Selecting what one of two selections takes is taking both. -/
theorem filterMap_perm_append {α β : Type} {f g h : α → Option β}
    (hsplit : ∀ a, (h a = f a ∧ g a = none) ∨ (f a = none ∧ h a = g a)) (l : List α) :
    (l.filterMap h).Perm (l.filterMap f ++ l.filterMap g) := by
  induction l with
  | nil => simp
  | cons a l ih =>
    rcases hsplit a with ⟨hf, hg⟩ | ⟨hf, hg⟩
    · rw [List.filterMap_cons, hf, List.filterMap_cons (f := f), List.filterMap_cons (f := g), hg]
      cases f a with
      | none => exact ih
      | some b => exact ih.cons b
    · rw [List.filterMap_cons, hg, List.filterMap_cons (f := f), List.filterMap_cons (f := g), hf]
      cases g a with
      | none => exact ih
      | some b => exact (ih.cons b).trans List.perm_middle.symm

/-- The rejections are those of the rows and, for a clash, of both of its bars. -/
theorem filterMap_rejection?_landing (valid : List Bar) (rows : List RawBarRow) :
    (rows.filterMap fun raw => (landing clock request rule valid raw).bind RowLanding.rejection?).Perm
      (rows.filterMap (rowRejection? clock request rule) ++
        ((validBars clock request rule rows).filter (isDuplicate valid)).map fun bar =>
          ⟨bar.sourceRecordId, .duplicateBar, none⟩) := by
  have hduplicates : (((validBars clock request rule rows).filter (isDuplicate valid)).map fun bar =>
        (⟨bar.sourceRecordId, .duplicateBar, none⟩ : BarRejection)) =
      rows.filterMap fun raw => ((rowBar? clock request rule raw).filter (isDuplicate valid)).map
        fun bar => ⟨bar.sourceRecordId, .duplicateBar, none⟩ := by
    rw [validBars, List.filter_filterMap, List.map_filterMap]
  rw [hduplicates]
  apply filterMap_perm_append
  intro raw
  unfold landing rowRejection? rowBar?
  rcases validateRow clock request rule raw with (rejection | _) | (_ | bar)
  · exact Or.inl ⟨rfl, rfl⟩
  · exact Or.inl ⟨rfl, rfl⟩
  · exact Or.inl ⟨rfl, rfl⟩
  · refine Or.inr ⟨rfl, ?_⟩
    by_cases hdup : isDuplicate valid bar = true
    · simp [hdup, RowLanding.rejection?]
    · simp [hdup, RowLanding.rejection?]

/-! ### Order -/

/-- Whether a bar clashes does not depend on the order of the others. -/
theorem isDuplicate_congr {valid valid' : List Bar} (h : valid.Perm valid') :
    isDuplicate valid = isDuplicate valid' := by
  funext bar
  unfold isDuplicate
  rw [h.countP_eq, h.countP_eq]

/-- What is kept of the bars, and what is rejected, does not depend on their order. -/
theorem rejectDuplicates_perm {valid valid' : List Bar} (h : valid.Perm valid') :
    (rejectDuplicates valid).1 = (rejectDuplicates valid').1 ∧
      (rejectDuplicates valid).2.Perm (rejectDuplicates valid').2 := by
  unfold rejectDuplicates
  rw [isDuplicate_congr h]
  refine ⟨?_, (h.filter _).map _⟩
  -- The record identifiers of what is kept are distinct, and the order looks at them last.
  have hrecords := (canonicalBars_rejectDuplicates valid).records
  unfold rejectDuplicates at hrecords
  rw [isDuplicate_congr h] at hrecords
  have hperm := List.perm_insertionSort (fun a b : Bar => a.sortKey ≤ b.sortKey)
    (valid.filter fun bar => !isDuplicate valid' bar)
  have hnodup := ((hperm.map Bar.sourceRecordId).nodup_iff).mp (List.pairwise_map.mpr hrecords)
  refine insertionSort_eq_of_perm _ (h.filter _) hnodup ?_
  intro a b hab hba
  have hkey := le_antisymm hab hba
  simp only [Bar.sortKey, EmbeddingLike.apply_eq_iff_eq, Prod.mk.injEq] at hkey
  exact hkey.2.2.2.2

/-- The key that rejections are sorted by tells them apart. -/
theorem BarRejection.eq_of_key {a b : BarRejection} (h : a.key = b.key) : a = b := by
  obtain ⟨row, reason, field⟩ := a
  obtain ⟨row', reason', field'⟩ := b
  obtain ⟨hrow, hrest⟩ := Prod.mk.inj (toLex_inj.mp h)
  obtain ⟨hreason, hfield⟩ := Prod.mk.inj (toLex_inj.mp hrest)
  rw [show row = row' from hrow, show reason = reason' from BarRejectionReason.rank_injective hreason,
    show field = field' from hfield]

/-- The order of the rows does not matter: not to the bars, not to the report, not to the error. -/
theorem acceptBars_perm {rows rows' : List RawBarRow} (h : rows.Perm rows') :
    acceptBars clock request rule rows' = acceptBars clock request rule rows := by
  -- Whether some row overflows does not depend on the order.
  have hany : rows'.any (rowOverflows clock request rule) =
    rows.any (rowOverflows clock request rule) :=
    h.symm.any_eq
  unfold acceptBars
  rw [selection_eq, selection_eq, hany]
  split
  · rfl
  · obtain ⟨haccepted, hduplicates⟩ := rejectDuplicates_perm
      (h.filterMap (rowBar? clock request rule))
    -- The rejections are sorted by a key that tells them apart.
    have hrejections : (rows.filterMap (rowRejection? clock request rule) ++
          (rejectDuplicates (rows.filterMap (rowBar? clock request rule))).2).insertionSort
          (fun a b => a.key ≤ b.key) =
        (rows'.filterMap (rowRejection? clock request rule) ++
          (rejectDuplicates (rows'.filterMap (rowBar? clock request rule))).2).insertionSort
          (fun a b => a.key ≤ b.key) :=
      (insertionSort_eq_iff_perm _ fun a b hab hba =>
        BarRejection.eq_of_key (le_antisymm hab hba)).mpr
        ((h.filterMap _).append hduplicates)
    simp only [collected, ok_bind]
    rw [← haccepted, ← hrejections, h.length_eq, h.countP_eq]

/-! ### Shared keys -/

/-- Two places in a list count twice. -/
theorem two_le_countP {α : Type} {p : α → Bool} {l : List α} {i j : ℕ} {a b : α} (hij : i ≠ j)
    (ha : l[i]? = some a) (hb : l[j]? = some b) (hpa : p a = true) (hpb : p b = true) :
    2 ≤ l.countP p := by
  wlog hlt : i < j generalizing i j a b with hsymm
  · exact hsymm hij.symm hb ha hpb hpa (by omega)
  have hfront : a ∈ l.take j := by
    rw [List.mem_iff_getElem?]
    exact ⟨i, by rw [List.getElem?_take, if_pos hlt, ha]⟩
  have hback : b ∈ l.drop j := by
    rw [List.mem_iff_getElem?]
    exact ⟨0, by rw [List.getElem?_drop, Nat.add_zero, hb]⟩
  have h₁ : 0 < (l.take j).countP p := List.countP_pos_iff.mpr ⟨a, hfront, hpa⟩
  have h₂ : 0 < (l.drop j).countP p := List.countP_pos_iff.mpr ⟨b, hback, hpb⟩
  have hsum : (l.take j).countP p + (l.drop j).countP p = l.countP p := by
    rw [← List.countP_append, List.take_append_drop]
  omega

/-- Two rows whose bars share a key or a record identifier knock each other out. -/
theorem isDuplicate_of_shared {rows : List RawBarRow} {i j : ℕ} {raw raw' : RawBarRow}
    {bar bar' : Bar} (hij : i ≠ j) (hi : rows[i]? = some raw) (hj : rows[j]? = some raw')
    (hbar : validateRow clock request rule raw = .ok (some bar))
    (hbar' : validateRow clock request rule raw' = .ok (some bar'))
    (hshared : bar.duplicateKey = bar'.duplicateKey ∨ bar.sourceRecordId = bar'.sourceRecordId) :
    isDuplicate (validBars clock request rule rows) bar = true := by
  have hrow : rowBar? clock request rule raw = some bar := by rw [rowBar?, hbar]
  have hrow' : rowBar? clock request rule raw' = some bar' := by rw [rowBar?, hbar']
  have hcount : ∀ p : Bar → Bool, p bar = true → p bar' = true →
      1 < (validBars clock request rule rows).countP p := by
    intro p hp hp'
    rw [validBars, List.countP_filterMap]
    exact two_le_countP hij hi hj (by rw [hrow]; exact hp) (by rw [hrow']; exact hp')
  unfold isDuplicate
  rw [decide_eq_true_eq]
  rcases hshared with hkey | hid
  · exact Or.inl (hcount _ (by simp) (by simp [hkey]))
  · exact Or.inr (hcount _ (by simp) (by simp [hid]))

/-- What an import returns, in terms of the landings of its rows. -/
structure Partitions (clock : MarketClock) (request : CanonicalBarIngestRequest)
    (rule : BarVisibilityRule) (rows : List RawBarRow) (accepted : List Bar)
    (report : BarIngestReport) : Prop where
  /-- Every row has a landing, -/
  landed : ∀ raw ∈ rows,
    (landing clock request rule (validBars clock request rule rows) raw).isSome
  /-- the bars are those of the rows that are emitted, -/
  emitted : accepted.Perm (rows.filterMap fun raw =>
    (landing clock request rule (validBars clock request rule rows) raw).bind RowLanding.bar?)
  /-- the rows outside the window are counted, -/
  outside : report.outsideWindowRows = rows.countP fun raw =>
    (landing clock request rule (validBars clock request rule rows) raw).any RowLanding.outside
  /-- and the rejections are those of the rows that are rejected. -/
  rejected : report.rejections.Perm (rows.filterMap fun raw =>
    (landing clock request rule (validBars clock request rule rows) raw).bind RowLanding.rejection?)
  read : report.readRows = rows.length
  counted : report.emittedRows = accepted.length
  total : report.emittedRows + report.outsideWindowRows + report.rejections.length = report.readRows

/-- A row lands unless chrono panics on it. -/
theorem landing_isSome_iff (valid : List Bar) (raw : RawBarRow) :
    (landing clock request rule valid raw).isSome ↔ rowOverflows clock request rule raw = false := by
  unfold landing rowOverflows
  rcases validateRow clock request rule raw with (_ | _) | (_ | bar)
  · simp
  · simp
  · simp
  · by_cases hdup : isDuplicate valid bar = true <;> simp [hdup]

/-- An import that returns partitions its rows. -/
theorem partitions_of_acceptBars {rows : List RawBarRow} {accepted : List Bar}
    {report : BarIngestReport}
    (h : acceptBars clock request rule rows = .ok (accepted, report)) :
    Partitions clock request rule rows accepted report := by
  obtain ⟨-, htotal, hcounted, -⟩ := acceptBars_spec h
  unfold acceptBars at h
  rw [selection_eq] at h
  split at h
  · cases h
  rename_i hover
  obtain ⟨rfl, rfl⟩ := Prod.mk.inj (Except.ok.inj h)
  refine ⟨?_, ?_, ?_, ?_, rfl, hcounted, htotal⟩
  · intro raw hraw
    rw [landing_isSome_iff, ← Bool.not_eq_true]
    exact fun hraw' => hover (List.any_eq_true.mpr ⟨raw, hraw, hraw'⟩)
  · rw [filterMap_bar?_landing]
    exact List.perm_insertionSort _ _
  · exact (countP_outside_landing _ rows).symm
  · refine (List.perm_insertionSort _ _).trans ?_
    exact (filterMap_rejection?_landing _ rows).symm

/-! ### Overflow -/

/-- A row on which chrono panics.  The interval starts too late to be added to or to have a local date;
    or a fixed delay cannot be added to its end; or its end, known within the window, has no local
    date. -/
def RowOverflows (clock : MarketClock) (request : CanonicalBarIngestRequest)
    (rule : BarVisibilityRule) (raw : RawBarRow) : Prop :=
  raw.invalidField = none ∧ raw.sourceRecordId ≠ none ∧ raw.instrumentKey ≠ none ∧
    raw.settlement ≠ none ∧ raw.volume ≠ none ∧
    ∃ frequency zone, raw.frequency = some frequency ∧ clock.name marketTimezone = some zone ∧
      ((∃ minutes start, frequency.intervalMinutes = some minutes ∧ raw.barStart = some start ∧
        (start.add? (60000000000 * minutes) = none ∨ clock.localDate zone start = none)) ∨
      (∃ barStart barEnd date,
        interval clock zone request frequency raw = .ok (barStart, barEnd, date) ∧
        ((∃ delay, rule = .fixedDelay delay ∧ barEnd.add? delay = none) ∨
        (∃ visibleAt, rowVisibility rule raw barEnd = .ok visibleAt ∧ barEnd ≤ visibleAt ∧
          barEnd ≤ request.window.asOf.instant ∧
          visibleAt ≤ request.window.visibleAtCutoff.instant ∧
          clock.localDate zone barEnd = none))))

/-- A field that is required is there. -/
theorem required_eq_ok {α : Type} {raw : RawBarRow} {value : Option α} {field : String} {a : α} :
    required raw value field = .ok a ↔ value = some a := by
  cases value <;> simp [required]

/-- No check but those of the times makes chrono leave its range; so for all of them that follow. -/
theorem required_ne_overflow {α : Type} (raw : RawBarRow) (value : Option α) (field : String) :
    required raw value field ≠ .error .overflow := by
  cases value <;> simp [required, reject]

theorem mapError_reject_ne_overflow {ε α : Type} (x : Except ε α) (raw : RawBarRow)
    (reason : ε → BarRejectionReason) (field : Option String) :
    (x.mapError fun e => reject raw (reason e) field) ≠ .error .overflow := by
  cases x <;> simp [Except.mapError, reject]

theorem optionalField_ne_overflow (raw : RawBarRow) (unit : MarketUnit) (field : String)
    (value : Option RawDecimal) : optionalField raw unit field value ≠ .error .overflow := by
  cases value with
  | none => simp [optionalField]
  | some value =>
    rw [optionalField, map_eq_bind_pure_comp, Ne, bind_eq_error]
    rintro (h | ⟨_, -, h⟩)
    · exact mapError_reject_ne_overflow _ _ _ _ h
    · cases h

theorem rowPrices_ne_overflow (request : CanonicalBarIngestRequest) (raw : RawBarRow) :
    rowPrices request raw ≠ .error .overflow := by
  unfold rowPrices
  split
  · simp only [Ne, bind_eq_error, not_or, not_exists, not_and]
    refine ⟨mapError_reject_ne_overflow _ _ _ _, fun _ _ => ⟨mapError_reject_ne_overflow _ _ _ _,
      fun _ _ => ⟨mapError_reject_ne_overflow _ _ _ _, fun _ _ =>
        ⟨mapError_reject_ne_overflow _ _ _ _, fun _ _ => ?_⟩⟩⟩⟩
    simp [pure, Except.pure]
  · simp
  · simp [reject]

theorem rowYield_ne_overflow (request : CanonicalBarIngestRequest) (raw : RawBarRow) :
    rowYield request raw ≠ .error .overflow := by
  unfold rowYield
  split
  · simp
  · rw [map_eq_bind_pure_comp, Ne, bind_eq_error]
    rintro (h | ⟨_, -, h⟩)
    · exact mapError_reject_ne_overflow _ _ _ _ h
    · cases h
  · simp [reject]

/-- Once both ends of a bar have a local date nothing panics. -/
theorem rowBar_ne_overflow {zone : String} (hzone : clock.name marketTimezone = some zone)
    (raw : RawBarRow) (instrument : VersionRef) (frequency : BarFrequency)
    (settlement : BarSettlement) (volume : RawDecimal) {barStart barEnd : DateTime}
    (visibleAt : DateTime) (tradingDate : NaiveDate)
    (hstart : (clock.localDate zone barStart).isSome) (hend : (clock.localDate zone barEnd).isSome) :
    rowBar clock request raw instrument frequency settlement volume barStart barEnd visibleAt
      tradingDate ≠ .error .overflow := by
  unfold rowBar
  simp only [Ne, bind_eq_error, not_or, not_exists, not_and]
  refine ⟨rowPrices_ne_overflow _ _, fun _ _ => ⟨rowYield_ne_overflow _ _, fun _ _ =>
    ⟨mapError_reject_ne_overflow _ _ _ _, fun _ _ => ⟨optionalField_ne_overflow _ _ _ _, fun _ _ =>
      ⟨optionalField_ne_overflow _ _ _ _, fun _ _ => ?_⟩⟩⟩⟩⟩
  rw [answered_eq_error (by simp [reject])]
  rintro ⟨hnone, -⟩
  exact Bar.new_ne_none hzone hstart (fun _ => hend) hnone

/-- The interval of a row overflows when it starts too late. -/
theorem interval_eq_overflow {zone : String} {frequency : BarFrequency} {raw : RawBarRow} :
    interval clock zone request frequency raw = .error .overflow ↔
      ∃ minutes start, frequency.intervalMinutes = some minutes ∧ raw.barStart = some start ∧
        (start.add? (60000000000 * minutes) = none ∨ clock.localDate zone start = none) := by
  unfold interval
  dsimp only
  cases frequency.intervalMinutes with
  | none =>
    constructor
    · intro h
      rcases bind_eq_error.mp h with h | ⟨date, -, h⟩
      · exact absurd h (required_ne_overflow _ _ _)
      · split at h <;> cases h
    · rintro ⟨minutes, start, h, -⟩
      cases h
  | some minutes =>
    constructor
    · intro h
      rcases bind_eq_error.mp h with h | ⟨start, hstart, h⟩
      · exact absurd h (required_ne_overflow _ _ _)
      · refine ⟨minutes, start, rfl, required_eq_ok.mp hstart, ?_⟩
        split at h
        · -- with an end and a local date the row lies in its session or outside it
          split at h
          · cases h
          · split at h <;> cases h
        · rename_i hneither
          by_contra hboth
          rw [not_or] at hboth
          obtain ⟨barEnd, hend⟩ := Option.ne_none_iff_exists'.mp hboth.1
          obtain ⟨date, hdate⟩ := Option.ne_none_iff_exists'.mp hboth.2
          exact hneither barEnd date hend hdate
    · rintro ⟨minutes', start, hminutes, hstart, hnone⟩
      obtain rfl := Option.some.inj hminutes
      refine bind_eq_error.mpr (Or.inr ⟨start, required_eq_ok.mpr hstart, ?_⟩)
      split
      · rename_i hend hdate
        rw [hend, hdate] at hnone
        simp at hnone
      · rfl

/-- A fixed delay is added to the end of the interval. -/
theorem rowVisibility_eq_overflow {raw : RawBarRow} {barEnd : DateTime} :
    rowVisibility rule raw barEnd = .error .overflow ↔
      ∃ delay, rule = .fixedDelay delay ∧ barEnd.add? delay = none := by
  unfold rowVisibility
  cases rule with
  | sourceField => simp [required_ne_overflow]
  | fixedDelay delay =>
    simp only [BarVisibilityRule.fixedDelay.injEq, exists_eq_left']
    cases barEnd.add? delay <;> simp

theorem rowZone_ne_overflow (raw : RawBarRow) : rowZone clock raw ≠ .error .overflow := by
  unfold rowZone
  split <;> simp [reject]

/-- The zone of the market has to be known. -/
theorem rowZone_eq_ok {raw : RawBarRow} {zone : String} :
    rowZone clock raw = .ok zone ↔ clock.name marketTimezone = some zone := by
  unfold rowZone
  split <;> simp_all [reject]

/-- The start of an interval has a local date: the code asked for it, or it was found from one. -/
theorem localDate_of_interval {zone : String} {frequency : BarFrequency} {raw : RawBarRow}
    {barStart barEnd : DateTime} {date : NaiveDate}
    (h : interval clock zone request frequency raw = .ok (barStart, barEnd, date)) :
    (clock.localDate zone barStart).isSome := by
  unfold interval at h
  dsimp only at h
  split at h
  · obtain ⟨start, -, h⟩ := bind_eq_ok.mp h
    split at h
    · rename_i hdate
      split at h
      · cases h
      split at h
      · cases h
      obtain ⟨rfl, -⟩ := Prod.mk.inj (Except.ok.inj h)
      rw [hdate]
      rfl
    · cases h
  · obtain ⟨tradingDate, -, h⟩ := bind_eq_ok.mp h
    split at h
    · cases h
    rename_i opens closes hbounds
    obtain ⟨rfl, -⟩ := Prod.mk.inj (Except.ok.inj h)
    unfold sessionBounds at hbounds
    simp only [Option.bind_eq_bind, Option.bind_eq_some_iff] at hbounds
    obtain ⟨session, -, openTime, -, instant, hopens, closeTime, -, _, -, hbounds⟩ := hbounds
    split at hbounds
    · obtain ⟨rfl, -⟩ := Prod.mk.inj (Option.some.inj hbounds)
      rw [clock.localDate_localInstant _ _ _ _ hopens]
      rfl
    · cases hbounds

/-- The end of the interval needs a local date. -/
theorem observedTime_eq_overflow {zone : String} (hzone : clock.name marketTimezone = some zone)
    {raw : RawBarRow} {barEnd : DateTime} :
    observedTime clock zone raw barEnd = .error .overflow ↔ clock.localDate zone barEnd = none := by
  unfold observedTime
  cases hdate : clock.localDate zone barEnd with
  | none => simp
  | some date =>
    rw [answered_eq_error (by simp [reject])]
    simp [MarketTime.new, hzone, hdate]

/-- **Overflow.** Validating a row makes chrono panic exactly on the rows described by
    `RowOverflows`. -/
theorem validateRow_eq_overflow {raw : RawBarRow} :
    validateRow clock request rule raw = .error .overflow ↔ RowOverflows clock request rule raw := by
  unfold validateRow RowOverflows
  cases raw.invalidField with
  | some field => simp [reject]
  | none =>
    simp only [bind_eq_error, required_ne_overflow, rowZone_ne_overflow, false_or, required_eq_ok,
      rowZone_eq_ok, interval_eq_overflow, rowVisibility_eq_overflow, true_and]
    constructor
    · rintro ⟨id, hid, key, hkey, frequency, hfrequency, settlement, hsettlement, volume, hvolume,
        zone, hzone, hrest⟩
      refine ⟨by simp [hid], by simp [hkey], by simp [hsettlement], by simp [hvolume], frequency,
        zone, hfrequency, hzone, ?_⟩
      rcases hrest with hlate | ⟨⟨barStart, barEnd, date⟩, hinterval, hdelay |
        ⟨visibleAt, hvisible, hrest⟩⟩
      · exact Or.inl hlate
      · exact Or.inr ⟨barStart, barEnd, date, hinterval, Or.inl hdelay⟩
      · refine Or.inr ⟨barStart, barEnd, date, hinterval, Or.inr ⟨visibleAt, hvisible, ?_⟩⟩
        dsimp only at hrest
        split at hrest
        · cases hrest
        rename_i hobserved
        split at hrest
        · cases hrest
        rename_i hwindow
        push Not at hobserved hwindow
        refine ⟨hobserved, hwindow.1, hwindow.2, ?_⟩
        rcases bind_eq_error.mp hrest with hrest | ⟨observed, -, hrest⟩
        · exact (observedTime_eq_overflow hzone).mp hrest
        -- once the end has a local date only rejections are left
        by_contra hend
        split at hrest
        · cases hrest
        · rw [map_eq_bind_pure_comp, bind_eq_error] at hrest
          rcases hrest with hrest | ⟨bar, -, hrest⟩
          · exact rowBar_ne_overflow hzone _ _ _ _ _ _ _ (localDate_of_interval hinterval)
              (Option.isSome_iff_ne_none.mpr hend) hrest
          · cases hrest
    · rintro ⟨hid, hkey, hsettlement, hvolume, frequency, zone, hfrequency, hzone, hrest⟩
      obtain ⟨id, hid⟩ := Option.ne_none_iff_exists'.mp hid
      obtain ⟨key, hkey⟩ := Option.ne_none_iff_exists'.mp hkey
      obtain ⟨settlement, hsettlement⟩ := Option.ne_none_iff_exists'.mp hsettlement
      obtain ⟨volume, hvolume⟩ := Option.ne_none_iff_exists'.mp hvolume
      refine ⟨id, hid, key, hkey, frequency, hfrequency, settlement, hsettlement, volume, hvolume,
        zone, hzone, ?_⟩
      rcases hrest with hlate | ⟨barStart, barEnd, date, hinterval, hdelay |
        ⟨visibleAt, hvisible, hobserved, hended, hknown, hdate⟩⟩
      · exact Or.inl hlate
      · exact Or.inr ⟨(barStart, barEnd, date), hinterval, Or.inl hdelay⟩
      · refine Or.inr ⟨(barStart, barEnd, date), hinterval, Or.inr ⟨visibleAt, hvisible, ?_⟩⟩
        dsimp only
        rw [if_neg (not_lt.mpr hobserved), if_neg (by
          rw [not_or, not_lt, not_lt]
          exact ⟨hended, hknown⟩), bind_eq_error]
        exact Or.inl ((observedTime_eq_overflow hzone).mpr hdate)

end Partition

/-- **Every row lands in one place unless chrono panics.** The import returns, has
    put every row in exactly one of its three buckets and counted it there, emits bars with pairwise
    distinct keys and record identifiers, emits neither of two rows whose bars share a key or a
    record identifier, encodes the emitted bars in order, and does all this in the same way for every
    order of the rows; or one of the rows makes chrono leave its range, in an addition of times or in
    a local date. -/
theorem ingest_partitions_iff (clock : MarketClock) (schemaHash : ContentHash)
    (request : CanonicalBarIngestRequest) (rule : BarVisibilityRule) (rows : List RawBarRow) :
    (∃ accepted report, acceptBars clock request rule rows = .ok (accepted, report) ∧
      Partitions clock request rule rows accepted report ∧
      (accepted.Pairwise fun a b => a.duplicateKey ≠ b.duplicateKey) ∧
      (accepted.Pairwise fun a b => a.sourceRecordId ≠ b.sourceRecordId) ∧
      (∀ (i j : ℕ) (raw raw' : RawBarRow) (bar bar' : Bar), i ≠ j → rows[i]? = some raw →
        rows[j]? = some raw' → validateRow clock request rule raw = .ok (some bar) →
        validateRow clock request rule raw' = .ok (some bar') →
        (bar.duplicateKey = bar'.duplicateKey ∨ bar.sourceRecordId = bar'.sourceRecordId) →
        bar ∉ accepted) ∧
      (∀ canonical, CanonicalBarIngestor.ingest clock schemaHash request rule rows = .ok canonical →
        canonical.report = report ∧ encodeBatch request accepted = .ok canonical.batch) ∧
      (∀ rows', rows.Perm rows' →
        acceptBars clock request rule rows' = .ok (accepted, report) ∧
        CanonicalBarIngestor.ingest clock schemaHash request rule rows' =
          CanonicalBarIngestor.ingest clock schemaHash request rule rows)) ↔
      ∀ raw ∈ rows, ¬ RowOverflows clock request rule raw := by
  -- No row overflows exactly when the loop runs to its end.
  have hany : rows.any (rowOverflows clock request rule) = false ↔
      ∀ raw ∈ rows, ¬ RowOverflows clock request rule raw := by
    rw [List.any_eq_false]
    refine forall₂_congr fun raw _ => not_congr ?_
    rw [← validateRow_eq_overflow]
    unfold rowOverflows
    rcases validateRow clock request rule raw with (_ | _) | (_ | _) <;> simp
  rw [← hany]
  constructor
  · rintro ⟨accepted, report, h, -⟩
    by_contra hover
    unfold acceptBars at h
    rw [selection_eq, if_pos (Bool.not_eq_false _ |>.mp hover)] at h
    cases h
  · intro hover
    obtain ⟨accepted, report, h⟩ : ∃ accepted report,
        acceptBars clock request rule rows = .ok (accepted, report) := by
      unfold acceptBars
      rw [selection_eq, hover]
      exact ⟨_, _, rfl⟩
    have hpart := partitions_of_acceptBars h
    obtain ⟨-, -, -, -, -, -, hcanonical⟩ := acceptBars_spec h
    refine ⟨accepted, report, h, hpart, hcanonical.keys, hcanonical.records, ?_, ?_, ?_⟩
    -- Two rows of one key are both duplicates, so neither is among the accepted bars.
    · intro i j raw raw' bar bar' hij hi hj hbar hbar' hshared hmem
      have hdup := isDuplicate_of_shared hij hi hj hbar hbar' hshared
      rw [hpart.emitted.mem_iff, filterMap_bar?_landing, List.mem_filter, hdup] at hmem
      exact absurd hmem.2 (by decide)
    · intro canonical hingest
      unfold CanonicalBarIngestor.ingest at hingest
      rw [h, ok_bind] at hingest
      dsimp only at hingest
      split at hingest
      · cases hingest
      · obtain ⟨batch, hbatch, hingest⟩ := bind_eq_ok.mp hingest
        obtain rfl := Except.ok.inj hingest
        exact ⟨rfl, hbatch⟩
    · intro rows' hperm
      refine ⟨(acceptBars_perm hperm).trans h, ?_⟩
      unfold CanonicalBarIngestor.ingest
      rw [acceptBars_perm hperm]

/-- An import of two rows. -/
theorem ingest_partitions_sample : ∃ accepted report,
    acceptBars MorningBar.clock MorningBar.request .sourceField
      [MorningBar.nextRow, MorningBar.row 60000000000] = .ok (accepted, report) ∧
    report.emittedRows + report.outsideWindowRows + report.rejections.length = 2 := by
  obtain ⟨accepted, report, haccept, hpart, -⟩ := (ingest_partitions_iff MorningBar.clock
    MorningBar.format.schemaHash MorningBar.request .sourceField
    [MorningBar.nextRow, MorningBar.row 60000000000]).mpr (by
      intro raw hraw hover
      have hpanics := validateRow_eq_overflow.mpr hover
      simp only [List.mem_cons, List.not_mem_nil, or_false] at hraw
      rcases hraw with rfl | rfl
      · exact absurd hpanics (by decide +kernel)
      · exact absurd hpanics (by decide +kernel))
  exact ⟨accepted, report, haccept, hpart.total.trans hpart.read⟩

/-- The last instant that chrono has outside a leap second. -/
def lastInstant : DateTime where
  timestamp := 8210266876799
  subsecNanos := 999999999
  lower := by decide
  upper := by decide
  subsec_lt := by decide
  leap := by decide

/-- A row of a one-minute bar that starts at the last instant stops the import of every row with
    it. -/
theorem ingest_stops_at_last_instant :
    ¬ ∃ accepted report, acceptBars MorningBar.clock MorningBar.request .sourceField
      [MorningBar.row 60000000000,
        { MorningBar.row 60000000000 with rowOrdinal := 2, barStart := some lastInstant }] =
      .ok (accepted, report) := by
  rintro ⟨accepted, report, h⟩
  have herror : acceptBars MorningBar.clock MorningBar.request .sourceField
      [MorningBar.row 60000000000,
        { MorningBar.row 60000000000 with rowOrdinal := 2, barStart := some lastInstant }] =
      .error .overflow := by
    unfold acceptBars
    rw [selection_eq, if_pos (by decide +kernel)]
    rfl
  rw [herror] at h
  cases h

end Ficant
