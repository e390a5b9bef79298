import Ficant.Primitives.EpochDate
import Ficant.Replay.Encoding

namespace Ficant

open Lib Canonical

/-!
# What the content identities determine

The encoders write an instant as its microseconds, and of a policy's periods only the instants.

* `ResultContent.Alike`, `PolicyArtifactInput.Alike` — agreement up to what is not written: a leap
  second counts as the second after it, and a period has no zones and no local dates;
* `resultBytes_eq_iff`, `policyBytes_eq_iff` — with times on whole microseconds, equal bytes mean this
  much and no more;
* `identity_injective_iff` — so contents are determined exactly when they do not differ in this alone.
-/

/-! ### Primitive writers are separable -/

/-- A separable encoding of a field without conditions reads that field. -/
theorem reads {α β : Type} {ok : α → Prop} {write : β → List UInt8}
    (h : Separable (fun _ => True) write) (field : α → β) :
    Reads ok (fun a => write (field a)) field :=
  h.reads field fun _ _ => trivial

/-- A text ends where its length says. -/
theorem separable_text : Separable (fun _ => True) text := separable_prefixedText

/-- A number of the canonical bytes takes eight bytes. -/
theorem separable_number : Separable (fun n => n < 2 ^ 64) number := separable_bigEndian 8

/-- A hash takes thirty-two bytes. -/
theorem separable_hash : Separable (fun _ => True) hash :=
  separable_of_length ContentHash.length_eq fun a b _ _ h => by
    cases a; cases b; simpa [Canonical.hash] using h

/-- A text code of a type is separable when it is injective. -/
theorem separable_code {α : Type} {code : α → String} (h : Function.Injective code) :
    Separable (fun _ => True) fun a => text (code a) :=
  separable_text.comap code fun _ _ e => h e

/-- An amount is told apart by the digits of its value. -/
theorem separable_amount : Separable (fun _ => True) amount :=
  separable_code Decimal.canonical_injective

/-- chrono's range in microseconds lies inside the 64-bit range, so nothing wraps. -/
theorem reads_time : Reads (fun _ => True) time DateTime.timestampMicros := by
  intro s t r r' _ _ _ _ h
  have hbound : ∀ x : ℤ, (x % 2 ^ 64).toNat < 256 ^ 8 := fun x => by omega
  obtain ⟨hbytes, hrest⟩ := List.append_inj h (by simp [time])
  have hmicros := bigEndian_inj (hbound _) (hbound _) hbytes
  refine ⟨?_, hrest⟩
  have := s.lower; have := s.upper; have := t.lower; have := t.upper
  have := s.subsec_lt; have := t.subsec_lt
  unfold DateTime.timestampMicros at hmicros ⊢
  omega

/-- Two instants that the encoders do not tell apart: the same one, or a leap second and the second
    after it. -/
def DateTime.Alike (t u : DateTime) : Prop := t = u ∨ DateTime.LeapAlias t u

theorem DateTime.Alike.refl (t : DateTime) : t.Alike t := Or.inl rfl

/-- Instants that are alike have one number of microseconds. -/
theorem DateTime.Alike.micros {t u : DateTime} (h : t.Alike u) :
    t.timestampMicros = u.timestampMicros := by
  have hnanos := DateTime.timestampNanos_eq_iff.mpr h
  unfold DateTime.timestampNanos at hnanos
  unfold DateTime.timestampMicros
  omega

/-- Instants that are alike have the same bytes. -/
theorem DateTime.Alike.time_eq {t u : DateTime} (h : t.Alike u) : time t = time u := by
  unfold time
  rw [h.micros]

/-- Optional values agree in what is written when both are there and agree, or neither is. -/
theorem optional_written_iff {α β : Type} {written : α → β} {alike : α → α → Prop}
    {o p : Option α} (h : ∀ a ∈ o, ∀ b ∈ p, (written a = written b ↔ alike a b)) :
    o.map written = p.map written ↔ Option.Rel alike o p := by
  cases o with
  | none =>
    cases p with
    | none => exact iff_of_true rfl .none
    | some b => exact iff_of_false (fun h => nomatch h) (fun h => nomatch h)
  | some a =>
    cases p with
    | none => exact iff_of_false (fun h => nomatch h) (fun h => nomatch h)
    | some b =>
      rw [Option.map_some, Option.map_some, Option.some.injEq, h a rfl b rfl]
      constructor
      · exact .some
      · rintro (hab | _)
        exact hab

/-! ### Records -/

/-- An identifier is told apart by its text. -/
theorem separable_ulid : Separable (fun _ => True) fun id : Ulid => text id.text :=
  separable_code Ulid.text_injective

/-- A reference is its identifier and its version. -/
theorem separable_versionRef : Separable (fun _ => True) versionRef := by
  have h : Reads (fun _ => True) versionRef fun r => (r.id, r.version.value) :=
    Reads.append (reads separable_ulid VersionRef.id)
      (separable_number.reads (fun r : VersionRef => r.version.value) fun r _ => r.version.fits)
  refine h.separable ?_
  rintro ⟨i, ⟨v, _, _⟩⟩ ⟨j, ⟨w, _, _⟩⟩ - - e
  obtain ⟨rfl, rfl⟩ := Prod.mk.inj e
  rfl

theorem text_ne_nil (s : String) : text s ≠ [] := fun h => by
  have := congrArg List.length h
  simp [text, prefixedText] at this

theorem versionRef_ne_nil (r : VersionRef) : versionRef r ≠ [] :=
  List.append_ne_nil_of_left_ne_nil (text_ne_nil _) _

/-- A map is written as the list of its entries, in the order of their keys. -/
theorem separable_map {κ ν : Type} [LinearOrder κ] {writeKey : κ → List UInt8}
    {writeValue : ν → List UInt8} {ok : ν → Prop} (hk : Separable (fun _ => True) writeKey)
    (hv : Separable ok writeValue) (hne : ∀ k, writeKey k ≠ []) :
    Separable (fun m : SortedMap κ ν => ∀ e ∈ m.entries, ok e.2)
      (Canonical.map writeKey writeValue) := by
  have hentry : Separable (fun e : κ × ν => ok e.2) fun e => writeKey e.1 ++ writeValue e.2 :=
    ((reads hk Prod.fst).append (hv.reads Prod.snd fun _ h => h)).separable fun _ _ _ _ h => h
  exact (separable_writeList hentry fun e =>
    List.append_ne_nil_of_left_ne_nil (hne e.1) _).comap SortedMap.entries fun _ _ => SortedMap.ext

/-- Maps of amounts by name. -/
theorem separable_parameters : Separable (fun _ => True) (Canonical.map text amount) :=
  (separable_map separable_text separable_amount text_ne_nil).mono fun _ _ _ _ => trivial

/-- Maps of amounts by instrument. -/
theorem separable_positions : Separable (fun _ => True) (Canonical.map versionRef amount) :=
  (separable_map separable_versionRef separable_amount versionRef_ne_nil).mono
    fun _ _ _ _ => trivial

/-- Optional values without conditions. -/
theorem separable_optional_any {α : Type} {write : α → List UInt8}
    (h : Separable (fun _ => True) write) : Separable (fun _ => True) (optional write) :=
  (separable_writeOptional h).mono fun _ _ _ _ => trivial

/-! ### Codes -/

/-- The names of an enumeration tell its members apart; so for all of them that follow. -/
theorem ConstraintMeasure.code_injective : Function.Injective ConstraintMeasure.code := by
  intro a b h; cases a <;> cases b <;> first | rfl | exact absurd h (by decide)

theorem ConstraintHandling.code_injective : Function.Injective ConstraintHandling.code := by
  intro a b h; cases a <;> cases b <;> first | rfl | exact absurd h (by decide)

theorem ConstraintAction.code_injective : Function.Injective ConstraintAction.code := by
  intro a b h; cases a <;> cases b <;> first | rfl | exact absurd h (by decide)

theorem FundingTier.code_injective : Function.Injective FundingTier.code := by
  intro a b h; cases a <;> cases b <;> first | rfl | exact absurd h (by decide)

theorem FillPriceBasis.code_injective : Function.Injective FillPriceBasis.code := by
  intro a b h; cases a <;> cases b <;> first | rfl | exact absurd h (by decide)

theorem NoFillReason.code_injective : Function.Injective NoFillReason.code := by
  intro a b h; cases a <;> cases b <;> first | rfl | exact absurd h (by decide)

theorem RemainderOutcome.code_injective : Function.Injective RemainderOutcome.code := by
  intro a b h; cases a <;> cases b <;> first | rfl | exact absurd h (by decide)

theorem RemainderHandling.code_injective : Function.Injective RemainderHandling.code := by
  intro a b h; cases a <;> cases b <;> first | rfl | exact absurd h (by decide)

theorem PriceSourceType.code_injective : Function.Injective PriceSourceType.code := by
  intro a b h; cases a <;> cases b <;> first | rfl | exact absurd h (by decide)

theorem BarFrequency.code_injective : Function.Injective BarFrequency.code := by
  intro a b h; cases a <;> cases b <;> first | rfl | exact absurd h (by decide)

theorem BarSettlement.code_injective : Function.Injective BarSettlement.code := by
  intro a b h; cases a <;> cases b <;> first | rfl | exact absurd h (by decide)

theorem CalibrationObjective.code_injective : Function.Injective CalibrationObjective.code :=
  fun a b _ => by cases a; cases b; rfl

/-! ### Results -/

/-- A constraint is told apart by its measure, limit, handling and action. -/
theorem separable_constraintBytes : Separable (fun _ => True) constraintBytes := by
  have h : Reads (fun _ => True) constraintBytes
      fun c => (((c.limitCode, c.measure), c.ceiling), c.handling) :=
    (((reads separable_text ReplayConstraint.limitCode).append
      (reads (separable_code ConstraintMeasure.code_injective) ReplayConstraint.measure)).append
      (reads separable_amount ReplayConstraint.ceiling)).append
      (reads (separable_code ConstraintHandling.code_injective) ReplayConstraint.handling)
  refine h.separable ?_
  rintro ⟨⟩ ⟨⟩ - - e
  simpa [and_assoc] using e

/-- A funding rule is told apart by its tier, rate, day basis and the rest. -/
theorem separable_fundingBytes : Separable (fun _ => True) fundingBytes := by
  have h : Reads (fun _ => True) fundingBytes
      fun f => (((f.rulePack, f.tier), f.annualRate), f.dayBasis) :=
    (((reads separable_versionRef ReplayFunding.rulePack).append
      (reads (separable_code FundingTier.code_injective) ReplayFunding.tier)).append
      (reads separable_amount ReplayFunding.annualRate)).append
      (separable_number.reads ReplayFunding.dayBasis fun f _ => by have := f.dayBasis_fits; omega)
  refine h.separable ?_
  rintro ⟨⟩ ⟨⟩ - - e
  simpa [and_assoc] using e

/-- A seed has sixty-four bits. -/
theorem separable_seed : Separable (fun _ => True) fun seed : UInt64 => number seed.toNat := by
  refine (separable_number.reads UInt64.toNat fun seed _ => seed.toNat_lt).separable ?_
  intro a b _ _ e
  exact UInt64.toNat_inj.mp e

/-- The constraints are a counted list. -/
theorem separable_constraints : Separable (fun _ => True) (writeList constraintBytes) :=
  (separable_writeList separable_constraintBytes fun _ =>
    List.append_ne_nil_of_left_ne_nil (List.append_ne_nil_of_left_ne_nil
      (List.append_ne_nil_of_left_ne_nil (text_ne_nil _) _) _) _).mono fun _ _ _ _ => trivial

/-- Everything a replay identity holds is read back from its bytes. -/
theorem separable_identityBytes : Separable (fun _ => True) identityBytes := by
  -- The fields in the order in which they are written.
  have objects : Reads (fun _ => True) (fun i : ReplayIdentity =>
      text i.policyId.text ++ hash i.policy ++ text i.dataSnapshot.text ++
        hash i.dataSnapshotContent ++ versionRef i.subject ++ text i.subjectState.text ++
        hash i.subjectStateContent)
      fun i => ((((((i.policyId, i.policy), i.dataSnapshot), i.dataSnapshotContent), i.subject),
        i.subjectState), i.subjectStateContent) :=
    ((((((reads separable_ulid ReplayIdentity.policyId).append
      (reads separable_hash ReplayIdentity.policy)).append
      (reads separable_ulid ReplayIdentity.dataSnapshot)).append
      (reads separable_hash ReplayIdentity.dataSnapshotContent)).append
      (reads separable_versionRef ReplayIdentity.subject)).append
      (reads separable_ulid ReplayIdentity.subjectState)).append
      (reads separable_hash ReplayIdentity.subjectStateContent)
  have terms := (((((objects.append
      (reads (separable_optional_any separable_versionRef) ReplayIdentity.constraintSet)).append
      (reads separable_constraints ReplayIdentity.constraints)).append
      (reads separable_fundingBytes ReplayIdentity.funding)).append
      (reads separable_versionRef ReplayIdentity.carrySource)).append
      (reads separable_hash ReplayIdentity.carry))
  have all := ((((terms.append (reads separable_text ReplayIdentity.costModel)).append
      (reads separable_parameters ReplayIdentity.costParameters)).append
      (reads separable_seed ReplayIdentity.seed)).append
      (reads separable_hash ReplayIdentity.code)).append
      (reads separable_hash ReplayIdentity.runtime)
  -- Every field is among the values that are read.
  refine all.separable ?_
  rintro ⟨⟩ ⟨⟩ - - e
  simpa [and_assoc] using e

/-- Times are whole microseconds and counts fit the machine word. -/
def ReplayDecision.Encodable (d : ReplayDecision) : Prop :=
  d.decisionTime.WholeMicros ∧ (∀ t ∈ d.inputsVisibleThrough, t.WholeMicros) ∧
    d.inputBarCount < 2 ^ 64

/-- Times are whole microseconds. -/
def SimulatedFill.Encodable (f : SimulatedFill) : Prop :=
  f.decisionTime.WholeMicros ∧ f.effectiveAt.WholeMicros

/-- Times are whole microseconds. -/
def BarPnl.Encodable (row : BarPnl) : Prop :=
  row.barStart.WholeMicros ∧ row.barEnd.WholeMicros ∧ row.knownAt.WholeMicros

/-- Decisions that agree in what is written of them. -/
structure ReplayDecision.Alike (d e : ReplayDecision) : Prop where
  decisionTime : d.decisionTime.Alike e.decisionTime
  inputs : Option.Rel DateTime.Alike d.inputsVisibleThrough e.inputsVisibleThrough
  rest : { d with
    decisionTime := e.decisionTime, inputsVisibleThrough := e.inputsVisibleThrough } = e

/-- What is written of a decision. -/
def ReplayDecision.written (d : ReplayDecision) :
    ((ℤ × Option ℤ) × ℕ) × SortedMap VersionRef Decimal :=
  (((d.decisionTime.timestampMicros, d.inputsVisibleThrough.map DateTime.timestampMicros),
    d.inputBarCount), d.target.targets)

/-- The bytes of a decision determine what is written of it. -/
theorem reads_decisionBytes :
    Reads ReplayDecision.Encodable decisionBytes ReplayDecision.written :=
  (((reads_time.of_part ReplayDecision.decisionTime fun _ _ => trivial).append
    (reads_time.writeOptional.of_part ReplayDecision.inputsVisibleThrough
      fun _ _ _ _ => trivial)).append
    (separable_number.reads ReplayDecision.inputBarCount fun _ h => h.2.2)).append
    (reads separable_positions fun d : ReplayDecision => d.target.targets)

/-- The same is written of two decisions exactly when they are alike. -/
theorem ReplayDecision.written_eq_iff {d e : ReplayDecision} (hd : d.Encodable)
    (he : e.Encodable) : d.written = e.written ↔ d.Alike e := by
  have htime := DateTime.timestampMicros_eq_iff hd.1 he.1
  have hinputs := optional_written_iff fun t ht u hu =>
    DateTime.timestampMicros_eq_iff (hd.2.1 t ht) (he.2.1 u hu)
  obtain ⟨_, _, _, ⟨targets⟩⟩ := d
  obtain ⟨_, _, _, ⟨targets'⟩⟩ := e
  simp only [written, Prod.mk.injEq] at htime hinputs ⊢
  rw [htime, hinputs]
  constructor
  · rintro ⟨⟨⟨htime, hinputs⟩, rfl⟩, rfl⟩
    exact ⟨htime, hinputs, rfl⟩
  · rintro ⟨htime, hinputs, hrest⟩
    simp only [ReplayDecision.mk.injEq, TargetExposure.mk.injEq, true_and] at hrest
    exact ⟨⟨⟨htime, hinputs⟩, hrest.1⟩, hrest.2⟩

/-- What happens to a remainder is told apart by its outcome and its reason. -/
theorem separable_remainderBytes : Separable (fun _ => True) remainderBytes := by
  have h : Reads (fun _ => True) remainderBytes fun r => ((r.quantity, r.reason), r.outcome) :=
    ((reads separable_amount Remainder.quantity).append
      (reads (separable_code NoFillReason.code_injective) Remainder.reason)).append
      (reads (separable_code RemainderOutcome.code_injective) Remainder.outcome)
  refine h.separable ?_
  rintro ⟨⟩ ⟨⟩ - - e
  simpa [and_assoc] using e

/-- An outcome is told apart by the byte that says which it is. -/
theorem separable_outcomeBytes : Separable (fun _ => True) outcomeBytes := by
  have texts : Separable (fun _ => True) (writeList text) :=
    (separable_writeList separable_text text_ne_nil).mono fun _ _ _ _ => trivial
  have h : Reads (fun _ => True) outcomeBytes fun o => ((o.unconstrained, o.triggered), o.action) :=
    ((reads separable_amount ConstraintOutcome.unconstrained).append
      (reads texts ConstraintOutcome.triggered)).append
      (reads (separable_code ConstraintAction.code_injective) ConstraintOutcome.action)
  refine h.separable ?_
  rintro ⟨⟩ ⟨⟩ - - e
  simpa [and_assoc] using e

/-- Fills that agree in what is written of them. -/
structure SimulatedFill.Alike (f g : SimulatedFill) : Prop where
  decisionTime : f.decisionTime.Alike g.decisionTime
  effectiveAt : f.effectiveAt.Alike g.effectiveAt
  rest : { f with decisionTime := g.decisionTime, effectiveAt := g.effectiveAt } = g

/-- What is written of a fill: its two instants, and everything else as it is. -/
def SimulatedFill.written (f : SimulatedFill) : ℤ × ℤ × SimulatedFill :=
  (f.decisionTime.timestampMicros, f.effectiveAt.timestampMicros,
    { f with decisionTime := .epoch, effectiveAt := .epoch })

/-- The bytes of a fill determine what is written of it. -/
theorem reads_fillBytes : Reads (fun _ => True) fillBytes SimulatedFill.written := by
  have trade := (((reads_time.of_part SimulatedFill.decisionTime
      fun _ (_ : True) => trivial).append
      (reads separable_versionRef SimulatedFill.instrument)).append
      (reads separable_amount SimulatedFill.requested)).append
      (reads separable_amount SimulatedFill.quantity)
  have execution := ((((trade.append
      (reads (separable_optional_any separable_amount) SimulatedFill.limit)).append
      (reads_time.of_part SimulatedFill.effectiveAt fun _ _ => trivial)).append
      (reads (separable_optional_any separable_text) SimulatedFill.executionBar)).append
      (reads (separable_optional_any separable_amount) SimulatedFill.price)).append
      (reads (separable_optional_any (separable_code FillPriceBasis.code_injective))
        SimulatedFill.basis)
  have all := (((execution.append
      (reads (separable_code PriceSourceType.code_injective) SimulatedFill.priceSource)).append
      (reads (separable_optional_any (separable_code NoFillReason.code_injective))
        SimulatedFill.noFill)).append
      (reads (separable_optional_any separable_remainderBytes) SimulatedFill.remainder)).append
      (reads (separable_optional_any separable_outcomeBytes) SimulatedFill.constraint)
  -- The times are read up to what is written of them, the other fields in full.
  refine all.imp ?_
  rintro ⟨⟩ ⟨⟩ e
  simp only [Prod.mk.injEq, SimulatedFill.written, SimulatedFill.mk.injEq, true_and] at e ⊢
  tauto

/-- The same is written of two fills exactly when they are alike. -/
theorem SimulatedFill.written_eq_iff {f g : SimulatedFill} (hf : f.Encodable)
    (hg : g.Encodable) : f.written = g.written ↔ f.Alike g := by
  have hdecision := DateTime.timestampMicros_eq_iff hf.1 hg.1
  have heffective := DateTime.timestampMicros_eq_iff hf.2 hg.2
  rw [written, written, Prod.mk.injEq, Prod.mk.injEq, hdecision, heffective]
  constructor
  · rintro ⟨hdecision, heffective, hrest⟩
    refine ⟨hdecision, heffective, ?_⟩
    obtain ⟨⟩ := f
    obtain ⟨⟩ := g
    simpa using hrest
  · rintro ⟨hdecision, heffective, hrest⟩
    exact ⟨hdecision, heffective, by rw [← hrest]⟩

/-- The parts of one instrument are six amounts behind its reference. -/
theorem separable_instrumentBytes : Separable (fun _ => True) instrumentBytes := by
  have h : Reads (fun _ => True) instrumentBytes fun i =>
      ((((((i.positionStart, i.positionEnd), i.mark), i.accruedInterest), i.price), i.coupon),
        i.transactionCost) :=
    ((((((reads separable_amount InstrumentPnl.positionStart).append
      (reads separable_amount InstrumentPnl.positionEnd)).append
      (reads separable_amount InstrumentPnl.mark)).append
      (reads separable_amount InstrumentPnl.accruedInterest)).append
      (reads separable_amount InstrumentPnl.price)).append
      (reads separable_amount InstrumentPnl.coupon)).append
      (reads separable_amount InstrumentPnl.transactionCost)
  refine h.separable ?_
  rintro ⟨⟩ ⟨⟩ - - e
  simpa [and_assoc] using e

/-- Rows that agree in what is written of them. -/
structure BarPnl.Alike (p q : BarPnl) : Prop where
  barStart : p.barStart.Alike q.barStart
  barEnd : p.barEnd.Alike q.barEnd
  knownAt : p.knownAt.Alike q.knownAt
  rest : { p with barStart := q.barStart, barEnd := q.barEnd, knownAt := q.knownAt } = q

/-- What is written of a row: its three instants, and everything else as it is. -/
def BarPnl.written (p : BarPnl) : ℤ × ℤ × ℤ × BarPnl :=
  (p.barStart.timestampMicros, p.barEnd.timestampMicros, p.knownAt.timestampMicros,
    { p with barStart := .epoch, barEnd := .epoch, knownAt := .epoch })

/-- The bytes of a row of results determine what is written of it. -/
theorem reads_pnlBytes : Reads (fun _ => True) pnlBytes BarPnl.written := by
  have instruments : Separable (fun _ => True) (Canonical.map versionRef instrumentBytes) :=
    (separable_map separable_versionRef separable_instrumentBytes versionRef_ne_nil).mono
      fun _ _ _ _ => trivial
  have times := (((reads_time.of_part BarPnl.barStart fun _ (_ : True) => trivial).append
      (reads_time.of_part BarPnl.barEnd fun _ _ => trivial)).append
      (reads_time.of_part BarPnl.knownAt fun _ _ => trivial)).append
      (reads (separable_code NaiveDate.text_injective) BarPnl.tradingDate)
  have all := ((((times.append (reads instruments BarPnl.instruments)).append
      (reads separable_amount BarPnl.funding)).append (reads separable_amount BarPnl.total)).append
      (reads separable_amount BarPnl.cash)).append (reads separable_amount BarPnl.equity)
  refine all.imp ?_
  rintro ⟨⟩ ⟨⟩ e
  simp only [Prod.mk.injEq, BarPnl.written, BarPnl.mk.injEq, true_and] at e ⊢
  tauto

/-- The same is written of two rows exactly when they are alike. -/
theorem BarPnl.written_eq_iff {p q : BarPnl} (hp : p.Encodable) (hq : q.Encodable) :
    p.written = q.written ↔ p.Alike q := by
  have hstart := DateTime.timestampMicros_eq_iff hp.1 hq.1
  have hend := DateTime.timestampMicros_eq_iff hp.2.1 hq.2.1
  have hknown := DateTime.timestampMicros_eq_iff hp.2.2 hq.2.2
  rw [written, written, Prod.mk.injEq, Prod.mk.injEq, Prod.mk.injEq, hstart, hend, hknown]
  constructor
  · rintro ⟨hstart, hend, hknown, hrest⟩
    refine ⟨hstart, hend, hknown, ?_⟩
    obtain ⟨⟩ := p
    obtain ⟨⟩ := q
    simpa using hrest
  · rintro ⟨hstart, hend, hknown, hrest⟩
    exact ⟨hstart, hend, hknown, by rw [← hrest]⟩

/-- Times are whole microseconds, counts fit the machine word, and so does the encoding. -/
structure ResultContent.Encodable (content : ResultContent) : Prop where
  decisions : ∀ d ∈ content.decisions, d.Encodable
  fills : ∀ f ∈ content.fills, f.Encodable
  pnl : ∀ row ∈ content.pnl, row.Encodable
  fits : (resultBytes content).length < lengthLimit

/-- An instant takes some bytes, so a list of what begins with one can be counted. -/
theorem time_ne_nil (t : DateTime) : time t ≠ [] := fun h => by
  have := congrArg List.length h
  simp [time] at this

/-- Results that agree in what is written of them. -/
structure ResultContent.Alike (x y : ResultContent) : Prop where
  decisions : List.Forall₂ ReplayDecision.Alike x.decisions y.decisions
  fills : List.Forall₂ SimulatedFill.Alike x.fills y.fills
  pnl : List.Forall₂ BarPnl.Alike x.pnl y.pnl
  rest : { x with decisions := y.decisions, fills := y.fills, pnl := y.pnl } = y

/-- Two results are different, but only in a leap second against the second after it. -/
def ResultContent.DifferOnlyInLeapSeconds (x y : ResultContent) : Prop := x ≠ y ∧ x.Alike y

/-- What is written of a result. -/
def ResultContent.written (c : ResultContent) :=
  (c.decisions.map ReplayDecision.written, c.fills.map SimulatedFill.written,
    c.pnl.map BarPnl.written,
    ({ c with decisions := [], fills := [], pnl := [] } : ResultContent))

/-- The bytes of a result determine what is written of it. -/
theorem reads_resultBytes : Reads (fun c : ResultContent => ∀ d ∈ c.decisions, d.Encodable)
    resultBytes ResultContent.written := by
  have decisions := reads_decisionBytes.writeList fun d => by simp [decisionBytes, time_ne_nil]
  have fills := reads_fillBytes.writeList fun f => by simp [fillBytes, time_ne_nil]
  have rows := reads_pnlBytes.writeList fun r => by simp [pnlBytes, time_ne_nil]
  have inputs := (Reads.tag (fun c : ResultContent => ∀ d ∈ c.decisions, d.Encodable)
      (text "ficant-simulation-result/v3")).append
      (reads separable_identityBytes ResultContent.identity)
  have all := ((((inputs.append
      (decisions.of_part ResultContent.decisions fun _ h => h)).append
      (fills.of_part ResultContent.fills fun _ _ _ _ => trivial)).append
      (rows.of_part ResultContent.pnl fun _ _ _ _ => trivial)).append
      (reads separable_positions fun c : ResultContent => c.book.positions)).append
      (reads separable_amount fun c : ResultContent => c.book.cash)
  refine all.imp ?_
  rintro ⟨_, _, _, _, ⟨⟩⟩ ⟨_, _, _, _, ⟨⟩⟩ e
  simp only [Prod.mk.injEq, ResultContent.written, ResultContent.mk.injEq, SimulatedBook.mk.injEq,
    true_and] at e ⊢
  tauto

/-- The same is written of two results exactly when they are alike. -/
theorem ResultContent.written_eq_iff {x y : ResultContent} (hx : x.Encodable)
    (hy : y.Encodable) : x.written = y.written ↔ x.Alike y := by
  rw [written, written, Prod.mk.injEq, Prod.mk.injEq, Prod.mk.injEq,
    map_eq_map_iff_forall₂ fun d hd e he =>
      ReplayDecision.written_eq_iff (hx.decisions d hd) (hy.decisions e he),
    map_eq_map_iff_forall₂ fun f hf g hg =>
      SimulatedFill.written_eq_iff (hx.fills f hf) (hy.fills g hg),
    map_eq_map_iff_forall₂ fun p hp q hq => BarPnl.written_eq_iff (hx.pnl p hp) (hy.pnl q hq)]
  constructor
  · rintro ⟨hdecisions, hfills, hpnl, hrest⟩
    refine ⟨hdecisions, hfills, hpnl, ?_⟩
    obtain ⟨⟩ := x
    obtain ⟨⟩ := y
    simpa using hrest
  · rintro ⟨hdecisions, hfills, hpnl, hrest⟩
    exact ⟨hdecisions, hfills, hpnl, by rw [← hrest]⟩

/-- Decisions that are alike have the same bytes. -/
theorem ReplayDecision.Alike.bytes_eq {d e : ReplayDecision} (h : d.Alike e) :
    decisionBytes d = decisionBytes e := by
  obtain ⟨htime, hinputs, hrest⟩ := h
  have hoptional : optional time d.inputsVisibleThrough = optional time e.inputsVisibleThrough :=
    writeOptional_congr hinputs fun _ _ h => h.time_eq
  rw [← hrest]
  unfold decisionBytes
  rw [htime.time_eq, hoptional]

/-- Fills that are alike have the same bytes. -/
theorem SimulatedFill.Alike.bytes_eq {f g : SimulatedFill} (h : f.Alike g) :
    fillBytes f = fillBytes g := by
  obtain ⟨hdecision, heffective, hrest⟩ := h
  rw [← hrest]
  unfold fillBytes
  rw [hdecision.time_eq, heffective.time_eq]

/-- Rows that are alike have the same bytes. -/
theorem BarPnl.Alike.bytes_eq {p q : BarPnl} (h : p.Alike q) : pnlBytes p = pnlBytes q := by
  obtain ⟨hstart, hend, hknown, hrest⟩ := h
  rw [← hrest]
  unfold pnlBytes
  rw [hstart.time_eq, hend.time_eq, hknown.time_eq]

/-- **Result bytes determine a result up to its leap seconds.** -/
theorem resultBytes_eq_iff {x y : ResultContent} (hx : x.Encodable) (hy : y.Encodable) :
    resultBytes x = resultBytes y ↔ x.Alike y := by
  constructor
  · intro h
    rw [← ResultContent.written_eq_iff hx hy]
    exact (reads_resultBytes x y [] [] hx.decisions hy.decisions hx.fits hy.fits (by rw [h])).1
  · rintro ⟨hdecisions, hfills, hpnl, hrest⟩
    rw [← hrest]
    unfold resultBytes
    dsimp only
    rw [writeList_congr (hdecisions.imp fun _ _ h => h.bytes_eq),
      writeList_congr (hfills.imp fun _ _ h => h.bytes_eq),
      writeList_congr (hpnl.imp fun _ _ h => h.bytes_eq)]

/-! ### Policies: what the instants alone determine -/

/-- Both bounds are whole microseconds. -/
def EffectivePeriod.WholeMicros (p : EffectivePeriod) : Prop :=
  p.from_.instant.WholeMicros ∧ p.to_.instant.WholeMicros

/-- Both windows are whole microseconds and the selected index fits the machine word. -/
def CalibrationRecord.Encodable (r : CalibrationRecord) : Prop :=
  r.training.WholeMicros ∧ r.validation.WholeMicros ∧ r.selected < 2 ^ 64

/-- Times are whole microseconds, counts fit the machine word, and so does the encoding. -/
structure PolicyArtifactInput.Encodable (i : PolicyArtifactInput) : Prop where
  valid : i.valid.WholeMicros
  calibration : ∀ r ∈ i.calibration, r.Encodable
  fits : (policyBytes i).length < lengthLimit

/-- Periods that agree in what is written of them, whatever their zones and local dates. -/
def EffectivePeriod.Alike (p q : EffectivePeriod) : Prop :=
  p.from_.instant.Alike q.from_.instant ∧ p.to_.instant.Alike q.to_.instant

/-- What is written of a period. -/
def EffectivePeriod.written (p : EffectivePeriod) : ℤ × ℤ :=
  (p.from_.instant.timestampMicros, p.to_.instant.timestampMicros)

/-- The bytes of a period determine its two instants to the microsecond. -/
theorem reads_periodBytes : Reads (fun _ => True) periodBytes EffectivePeriod.written :=
  (reads_time.of_part (fun p : EffectivePeriod => p.from_.instant) fun _ _ => trivial).append
    (reads_time.of_part (fun p : EffectivePeriod => p.to_.instant) fun _ _ => trivial)

/-- The same is written of two periods exactly when they are alike. -/
theorem EffectivePeriod.written_eq_iff {p q : EffectivePeriod} (hp : p.WholeMicros)
    (hq : q.WholeMicros) : p.written = q.written ↔ p.Alike q := by
  rw [written, written, Prod.mk.injEq, DateTime.timestampMicros_eq_iff hp.1 hq.1,
    DateTime.timestampMicros_eq_iff hp.2 hq.2]
  exact Iff.rfl

/-- Periods that are alike have the same bytes. -/
theorem EffectivePeriod.Alike.bytes_eq {p q : EffectivePeriod} (h : p.Alike q) :
    periodBytes p = periodBytes q := by
  rw [periodBytes, periodBytes, h.1.time_eq, h.2.time_eq]

/-- A candidate is told apart by its parameters and its score. -/
theorem separable_candidateBytes : Separable (fun _ => True) candidateBytes := by
  have window : Separable (fun _ => True) windowBytes := by
    have h : Reads (fun _ => True) windowBytes fun w => (w.resultId, w.objective) :=
      (reads separable_hash WindowResult.resultId).append
        (reads separable_amount WindowResult.objective)
    refine h.separable ?_
    rintro ⟨⟩ ⟨⟩ - - e
    simpa using e
  have h : Reads (fun _ => True) candidateBytes
      fun c => ((c.parameters, c.training), c.validation) :=
    ((reads separable_parameters CandidateResult.parameters).append
      (reads window CandidateResult.training)).append (reads window CandidateResult.validation)
  refine h.separable ?_
  rintro ⟨⟩ ⟨⟩ - - e
  simpa [and_assoc] using e

/-- Calibrations that agree in what is written of them. -/
structure CalibrationRecord.Alike (r s : CalibrationRecord) : Prop where
  training : r.training.Alike s.training
  validation : r.validation.Alike s.validation
  basePolicy : r.basePolicy = s.basePolicy
  objective : r.objective = s.objective
  grid : r.grid = s.grid
  candidates : r.candidates = s.candidates
  selected : r.selected = s.selected

/-- What is written of a calibration. -/
def CalibrationRecord.written (r : CalibrationRecord) :=
  (r.training.written, r.validation.written, r.basePolicy, r.objective, r.grid, r.candidates,
    r.selected)

/-- The bytes of a calibration determine what is written of it. -/
theorem reads_calibrationBytes : Reads (fun r : CalibrationRecord => r.selected < 2 ^ 64)
    calibrationBytes CalibrationRecord.written := by
  -- Axes and candidates are lists, each behind its length.
  have axes : Separable (fun _ => True) (Canonical.map text (writeList amount)) :=
    (separable_map separable_text (separable_writeList separable_amount fun x => text_ne_nil _)
      text_ne_nil).mono fun _ _ _ _ _ _ => trivial
  have candidates : Separable (fun _ => True) (writeList candidateBytes) :=
    (separable_writeList separable_candidateBytes fun c => by
      simp [candidateBytes, Canonical.map, writeList, bigEndian]).mono fun _ _ _ _ => trivial
  have base : Reads (fun r : CalibrationRecord => r.selected < 2 ^ 64) (fun r => hash r.basePolicy)
      CalibrationRecord.basePolicy := reads separable_hash CalibrationRecord.basePolicy
  have windows := (base.append
      (reads_periodBytes.of_part CalibrationRecord.training fun _ _ => trivial)).append
      (reads_periodBytes.of_part CalibrationRecord.validation fun _ _ => trivial)
  have all := (((windows.append
      (reads (separable_code CalibrationObjective.code_injective)
        CalibrationRecord.objective)).append
      (reads axes fun r : CalibrationRecord => r.grid.axes)).append
      (reads candidates CalibrationRecord.candidates)).append
      (separable_number.reads CalibrationRecord.selected fun _ h => h)
  refine all.imp ?_
  rintro ⟨_, _, _, _, ⟨⟩, _, _⟩ ⟨_, _, _, _, ⟨⟩, _, _⟩ e
  simp only [Prod.mk.injEq, CalibrationRecord.written, ParameterGrid.mk.injEq] at e ⊢
  tauto

/-- The same is written of two calibrations exactly when they are alike. -/
theorem CalibrationRecord.written_eq_iff {r s : CalibrationRecord} (hr : r.Encodable)
    (hs : s.Encodable) : r.written = s.written ↔ r.Alike s := by
  have htraining := EffectivePeriod.written_eq_iff hr.1 hs.1
  have hvalidation := EffectivePeriod.written_eq_iff hr.2.1 hs.2.1
  constructor
  · intro h
    obtain ⟨hfirst, h⟩ := Prod.mk.inj h
    obtain ⟨hsecond, h⟩ := Prod.mk.inj h
    obtain ⟨hbase, h⟩ := Prod.mk.inj h
    obtain ⟨hobjective, h⟩ := Prod.mk.inj h
    obtain ⟨hgrid, h⟩ := Prod.mk.inj h
    obtain ⟨hcandidates, hselected⟩ := Prod.mk.inj h
    exact ⟨htraining.mp hfirst, hvalidation.mp hsecond, hbase, hobjective, hgrid, hcandidates,
      hselected⟩
  · rintro ⟨hfirst, hsecond, hbase, hobjective, hgrid, hcandidates, hselected⟩
    rw [written, written, htraining.mpr hfirst, hvalidation.mpr hsecond, hbase, hobjective, hgrid,
      hcandidates, hselected]

/-- Calibrations that are alike have the same bytes. -/
theorem CalibrationRecord.Alike.bytes_eq {r s : CalibrationRecord} (h : r.Alike s) :
    calibrationBytes r = calibrationBytes s := by
  unfold calibrationBytes
  rw [h.training.bytes_eq, h.validation.bytes_eq, h.basePolicy, h.objective, h.grid, h.candidates,
    h.selected]

/-- Policy inputs that agree in what is written of them. -/
structure PolicyArtifactInput.Alike (a b : PolicyArtifactInput) : Prop where
  valid : a.valid.Alike b.valid
  calibration : Option.Rel CalibrationRecord.Alike a.calibration b.calibration
  rest : { a with valid := b.valid, calibration := b.calibration } = b

/-- Two policy inputs are different, but only in the time zone or the local trading date of a
    bound of a period, or in a leap second against the second after it. -/
def PolicyArtifactInput.DifferOnlyInTimes (a b : PolicyArtifactInput) : Prop :=
  a ≠ b ∧ a.Alike b

/-- **Equal bytes, policies that are alike.** Every part of a policy is told apart from what
    follows, up to the instants of its periods. -/
theorem alike_of_policyBytes {a b : PolicyArtifactInput} (ha : a.Encodable) (hb : b.Encodable)
    (h : policyBytes a = policyBytes b) : a.Alike b := by
  have version : Separable (fun _ => True) fun v : UInt32 => number v.toNat := by
    refine (separable_number.reads UInt32.toNat fun v _ => by have := v.toNat_lt; omega).separable ?_
    intro a b _ _ e
    exact UInt32.toNat_inj.mp e
  have instruments : Separable (fun _ => True) (writeList versionRef) :=
    (separable_writeList separable_versionRef versionRef_ne_nil).mono fun _ _ _ _ => trivial
  have handlings : Separable (fun _ => True)
      (Canonical.map text fun handling => text (ConstraintHandling.code handling)) :=
    (separable_map separable_text (separable_code ConstraintHandling.code_injective)
      text_ne_nil).mono fun _ _ _ _ => trivial
  -- The fields in the order in which they are written.
  have subject := (((((Reads.tag (fun i : PolicyArtifactInput =>
      ∀ r ∈ i.calibration, r.selected < 2 ^ 64) (text "ficant-policy-artifact/v4")).append
      (reads separable_ulid PolicyArtifactInput.policyArtifactId)).append
      (reads separable_ulid fun i : PolicyArtifactInput => i.owner.tenantId)).append
      (reads separable_ulid fun i : PolicyArtifactInput => i.owner.ownerId)).append
      (reads separable_text PolicyArtifactInput.family)).append
      (reads version PolicyArtifactInput.familyVersion)
  have scope := ((((subject.append
      (reads separable_parameters PolicyArtifactInput.parameters)).append
      (reads instruments PolicyArtifactInput.universe_)).append
      (reads (separable_code BarFrequency.code_injective) PolicyArtifactInput.frequency)).append
      (reads (separable_code BarSettlement.code_injective) PolicyArtifactInput.settlement)).append
      (reads_periodBytes.of_part PolicyArtifactInput.valid fun _ _ => trivial)
  have all := (((scope.append
      (reads separable_amount fun i : PolicyArtifactInput => i.execution.participationCap)).append
      (reads (separable_code RemainderHandling.code_injective)
        fun i : PolicyArtifactInput => i.execution.remainder)).append
      (reads handlings PolicyArtifactInput.constraints)).append
      (reads_calibrationBytes.writeOptional.of_part PolicyArtifactInput.calibration
        fun _ h => h)
  have e := (all a b [] [] (fun r hr => (ha.calibration r hr).2.2)
    (fun r hr => (hb.calibration r hr).2.2) ha.fits hb.fits (congrArg (· ++ []) h)).1
  -- The calibration and the validity are read up to their times.
  have hcalibration : a.calibration.map CalibrationRecord.written =
      b.calibration.map CalibrationRecord.written ↔
        Option.Rel CalibrationRecord.Alike a.calibration b.calibration := by
    exact optional_written_iff fun r hr s hs =>
      CalibrationRecord.written_eq_iff (ha.calibration r hr) (hb.calibration s hs)
  have hvalid := EffectivePeriod.written_eq_iff ha.valid hb.valid
  obtain ⟨_, ⟨⟩, _, _, _, _, _, _, _, ⟨⟩, _, _⟩ := a
  obtain ⟨_, ⟨⟩, _, _, _, _, _, _, _, ⟨⟩, _, _⟩ := b
  simp only [Prod.mk.injEq, true_and] at e hcalibration hvalid
  obtain ⟨⟨⟨⟨⟨⟨⟨⟨⟨⟨⟨⟨⟨hid, htenant⟩, howner⟩, hfamily⟩, hversion⟩, hparameters⟩, huniverse⟩,
    hfrequency⟩, hsettlement⟩, hperiod⟩, hcap⟩, hremainder⟩, hhandlings⟩, hrecord⟩ := e
  refine ⟨hvalid.mp hperiod, hcalibration.mp hrecord, ?_⟩
  subst hid htenant howner hfamily hversion hparameters huniverse hfrequency hsettlement hcap
    hremainder hhandlings
  rfl

/-- **Policy bytes determine a policy up to the zones of its periods and its leap seconds.** -/
theorem policyBytes_eq_iff {a b : PolicyArtifactInput} (ha : a.Encodable) (hb : b.Encodable) :
    policyBytes a = policyBytes b ↔ a.Alike b := by
  constructor
  · exact alike_of_policyBytes ha hb
  · rintro ⟨hvalid, hcalibration, hrest⟩
    have hoptional : optional calibrationBytes a.calibration =
        optional calibrationBytes b.calibration :=
      writeOptional_congr hcalibration fun _ _ h => h.bytes_eq
    rw [← hrest]
    unfold policyBytes
    rw [hvalid.bytes_eq, hoptional]

/-! ### Identities -/

/-- A result is its identifier and its content. -/
theorem SimulationResult.ext_content {r s : SimulationResult} (hid : r.resultId = s.resultId)
    (hc : r.content = s.content) : r = s := by
  cases r; cases s; simp_all

/-- A policy is its hash and its input. -/
theorem PolicyArtifact.ext_input {p q : PolicyArtifact} (hid : p.contentHash = q.contentHash)
    (hi : p.input = q.input) : p = q := by
  cases p; cases q; simp_all

/-- **Identities determine contents, except for zones and leap seconds.**  With a digest that does not
    collide on these inputs, equal bytes and equal hashes mean equal results and equal policies
    exactly when neither the two results nor the two policies differ in this alone. -/
theorem identity_injective_iff (digest : List UInt8 → ContentHash) (x y : ResultContent)
    (a b : PolicyArtifactInput) (hx : x.Encodable) (hy : y.Encodable) (ha : a.Encodable)
    (hb : b.Encodable) (hresult : NoCollision digest (resultBytes x) (resultBytes y))
    (hpolicy : NoCollision digest (policyBytes a) (policyBytes b)) :
    ((resultBytes x = resultBytes y → x = y) ∧
      (policyBytes a = policyBytes b → a = b) ∧
      (∀ r s, SimulationResult.new digest x = .ok r → SimulationResult.new digest y = .ok s →
        r.resultId = s.resultId → r = s) ∧
      (∀ p q, (∃ i, PolicyArtifact.new digest i = .ok p) →
        (∃ i, PolicyArtifact.new digest i = .ok q) → p.input = a → q.input = b →
        p.contentHash = q.contentHash → p = q)) ↔
      ¬ x.DifferOnlyInLeapSeconds y ∧ ¬ a.DifferOnlyInTimes b := by
  have hxy := resultBytes_eq_iff hx hy
  have hab := policyBytes_eq_iff ha hb
  constructor
  · rintro ⟨hresults, hpolicies, -, -⟩
    exact ⟨fun h => h.1 (hresults (hxy.mpr h.2)), fun h => h.1 (hpolicies (hab.mpr h.2))⟩
  -- Conversely, equal bytes come from equal values, as no two alike ones differ.
  · rintro ⟨hresults, hpolicies⟩
    have hinjx : resultBytes x = resultBytes y → x = y := by
      intro h
      by_contra hne
      exact hresults ⟨hne, hxy.mp h⟩
    have hinja : policyBytes a = policyBytes b → a = b := by
      intro h
      by_contra hne
      exact hpolicies ⟨hne, hab.mp h⟩
    refine ⟨hinjx, hinja, ?_, ?_⟩
    · intro r s hr hs hid
      obtain ⟨hrc, hrid⟩ := SimulationResult.new_ok hr
      obtain ⟨hsc, hsid⟩ := SimulationResult.new_ok hs
      rw [hrid, hsid] at hid
      have hcontent := hinjx (hresult hid)
      exact SimulationResult.ext_content (by rw [hrid, hsid, hid]) (by rw [hrc, hsc, hcontent])
    · rintro p q ⟨i, hp⟩ ⟨j, hq⟩ rfl rfl hid
      have hbytes := hid
      rw [(PolicyArtifact.new_ok hp).2, (PolicyArtifact.new_ok hq).2] at hbytes
      exact PolicyArtifact.ext_input hid (hinja (hpolicy hbytes))

/-- A time-zone table that knows two zones, both eight hours ahead of UTC. -/
def easternZones : ZoneTable where
  name zone := if zone = "Asia/Shanghai" ∨ zone = "Asia/Singapore" then some zone else none
  localDate := (ZoneTable.fixedOffset "Asia/Shanghai" 28800).localDate

/-- From 2026-01-05 to 2026-06-01, 08:00 local time, in a zone eight hours ahead of UTC. -/
def firstHalf (zone : String) : EffectivePeriod where
  from_ := ⟨.ofSeconds 1767571200 (by decide) (by decide), zone, .ymd 2026 1 5⟩
  to_ := ⟨.ofSeconds 1780272000 (by decide) (by decide), zone, .ymd 2026 6 1⟩
  ordered := DateTime.lt_iff.mpr (Or.inl (show (1767571200 : ℤ) < 1780272000 by decide))

/-- An uncalibrated policy over one instrument. -/
def plainPolicy (family zone : String) : PolicyArtifactInput where
  policyArtifactId := ⟨1⟩
  owner := ⟨⟨2⟩, ⟨3⟩⟩
  family
  familyVersion := 1
  parameters := ∅
  universe_ := [⟨⟨4⟩, .first⟩]
  frequency := .d1
  settlement := .t1
  valid := firstHalf zone
  execution := .uncapped .cancel
  constraints := ∅
  calibration := none

/-- A result without decisions, for a replay that moved `cash`. -/
def emptyResult (cash : Decimal) : ResultContent where
  identity :=
    { policyId := ⟨1⟩
      policy := .filled 1
      dataSnapshot := ⟨5⟩
      dataSnapshotContent := .filled 2
      subject := ⟨⟨6⟩, .first⟩
      subjectState := ⟨7⟩
      subjectStateContent := .filled 3
      constraintSet := none
      constraints := []
      funding := .free ⟨⟨8⟩, .first⟩ .rOnly
      carrySource := ⟨⟨9⟩, .first⟩
      carry := .filled 4
      costModel := "ficant.cost.none"
      costParameters := ∅
      seed := 0
      code := .filled 5
      runtime := .filled 6 }
  decisions := []
  fills := []
  pnl := []
  book := ⟨∅, cash⟩

/-- A checksum that is enough to tell the inputs below apart. -/
def checksum (bytes : List UInt8) : ContentHash :=
  ⟨List.replicate 32 (UInt8.ofNat (bytes.foldl (fun s b => s + b.toNat) 0)), by simp⟩

/-- The samples can be encoded when their bytes are short enough. -/
theorem plainPolicy_encodable (family zone : String)
    (h : (policyBytes (plainPolicy family zone)).length < lengthLimit) :
    (plainPolicy family zone).Encodable := by
  exact ⟨⟨rfl, rfl⟩, by simp [plainPolicy], h⟩

theorem emptyResult_encodable (cash : Decimal)
    (h : (resultBytes (emptyResult cash)).length < lengthLimit) :
    (emptyResult cash).Encodable :=
  ⟨by simp [emptyResult], by simp [emptyResult], by simp [emptyResult], h⟩

theorem identity_injective_plainPolicy :
    (resultBytes (emptyResult 0) = resultBytes (emptyResult 1) → emptyResult 0 = emptyResult 1) ∧
      (policyBytes (plainPolicy "a" "Asia/Shanghai") = policyBytes (plainPolicy "b" "Asia/Shanghai") →
        plainPolicy "a" "Asia/Shanghai" = plainPolicy "b" "Asia/Shanghai") := by
  have h := (identity_injective_iff checksum (emptyResult 0) (emptyResult 1)
    (plainPolicy "a" "Asia/Shanghai") (plainPolicy "b" "Asia/Shanghai")
    (emptyResult_encodable 0 (by decide +kernel)) (emptyResult_encodable 1 (by decide +kernel))
    (plainPolicy_encodable _ _ (by decide +kernel)) (plainPolicy_encodable _ _ (by decide +kernel))
    (fun h => absurd h (by decide +kernel)) (fun h => absurd h (by decide +kernel))).mpr ⟨?_, ?_⟩
  · exact ⟨h.1, h.2.1⟩
  · rintro ⟨-, hresults⟩
    have hcash := congrArg (fun c : ResultContent => c.book.cash) hresults.rest
    exact absurd hcash (by decide)
  · rintro ⟨-, hpolicies⟩
    have hfamily := congrArg PolicyArtifactInput.family hpolicies.rest
    exact absurd hfamily (by decide)

/-- Two policies that differ in the zone of their validity period, both with bounds that
    `MarketTime::new` admits, have the same bytes, and so the same hash under every digest. -/
theorem policyBytes_not_injective :
    (∀ zone ∈ ["Asia/Shanghai", "Asia/Singapore"],
      ∀ t ∈ [(firstHalf zone).from_, (firstHalf zone).to_],
        MarketTime.new easternZones t.instant zone t.localTradingDate = some (.ok t)) ∧
    plainPolicy "a" "Asia/Shanghai" ≠ plainPolicy "a" "Asia/Singapore" ∧
    policyBytes (plainPolicy "a" "Asia/Shanghai") = policyBytes (plainPolicy "a" "Asia/Singapore") ∧
    ∀ digest, ∃ p q, PolicyArtifact.new digest (plainPolicy "a" "Asia/Shanghai") = .ok p ∧
      PolicyArtifact.new digest (plainPolicy "a" "Asia/Singapore") = .ok q ∧
      p.contentHash = q.contentHash ∧ p ≠ q := by
  refine ⟨?_, by decide +kernel, rfl, ?_⟩
  · intro zone hz t ht
    simp only [List.mem_cons, List.not_mem_nil, or_false] at hz ht
    rcases hz with rfl | rfl <;> rcases ht with rfl | rfl <;> decide +kernel
  · intro digest
    refine ⟨⟨_, _, _⟩, ⟨_, _, _⟩, rfl, rfl, rfl, ?_⟩
    intro h
    have hzone : "Asia/Shanghai" = "Asia/Singapore" :=
      congrArg (fun p : PolicyArtifact => p.input.valid.from_.marketTimezone) h
    exact absurd hzone (by decide)

end Ficant
