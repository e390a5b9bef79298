import Ficant.Application.FingerprintBinding
import Ficant.Storage.PayloadFields

namespace Ficant.Payload

open Lib

/-!
# Stored market facts

The payload of a cash flow, a quote, a trade or a valuation (`ficant-storage/src/postgres/codec.rs`).
The first byte says which fact it is and which optional parts it has.

* `encodeFact`, `decodeFact` — the codec, a definition for each kind of fact;
* `rereadFact` — what comes back: decimals as `rereadDecimal` says, and a cash flow without its
  registered source, for which its payload has no place;
* `fact_payload_exact` — every fact that the constructors make comes back as `rereadFact` says, it is
  the same fact exactly when nothing of it is lost, and no byte string stops the decoder.
-/

/-! ### Codes -/

/-- `cashflow_type_code`. -/
def cashflowTypeCode : CashflowType → ℕ
  | .coupon => 1
  | .principal => 2
  | .fee => 3
  | .other => 4

/-- `decode_cashflow_type`. -/
def cashflowTypeOfCode : ℕ → Option CashflowType
  | 1 => some .coupon
  | 2 => some .principal
  | 3 => some .fee
  | 4 => some .other
  | _ => none

/-- `valuation_value_role_code`. -/
def valuationValueRoleCode : ValuationValueRole → ℕ
  | .price => 1
  | .yield => 2
  | .remainingYears => 3

/-- `decode_valuation_value_role`. -/
def valuationValueRoleOfCode : ℕ → Option ValuationValueRole
  | 1 => some .price
  | 2 => some .yield
  | 3 => some .remainingYears
  | _ => none

/-- The first byte of a valuation. -/
def valuationKind (value : Valuation) : ℕ :=
  match value.hasTypedValueRoles, value.input.source.dataSource.isSome with
  | false, false => 4
  | false, true => 14
  | true, false => 24
  | true, true => 34

/-! ### The encoder -/

/-- The fields of a cash flow. -/
def encodeCashflow (value : Cashflow) : List UInt8 :=
  let i := value.input
  prefixedText i.cashflowId.text ++ (encodeVersionRef i.bond ++ (encodeMarketTime i.paymentTime ++
    (encodeDecimal i.amount ++ (encodeOwner i.owner ++ (encodeSource i.source ++
    (encodeOptionalId i.supersedesId ++ (encodeCode (cashflowTypeCode i.cashflowType) ++
    (prefixedText i.scheduleId ++ bigEndian 8 i.sequence))))))))

/-- The fields of a quote. -/
def encodeQuote (value : Quote) : List UInt8 :=
  let i := value.input
  prefixedText i.quoteId.text ++ (encodeVersionRef i.instrument ++ (encodeOwner i.owner ++
    (encodeTypedSource i.source ++ (encodeMarketTime i.observedAt ++
    (encodeMarketTime i.receivedAt ++ (writeOptional encodeDecimal i.bid ++
    (writeOptional encodeDecimal i.ask ++ encodeOptionalId i.supersedesId)))))))

/-- The fields of a trade. -/
def encodeTrade (value : Trade) : List UInt8 :=
  let i := value.input
  prefixedText i.tradeId.text ++ (encodeVersionRef i.instrument ++ (encodeOwner i.owner ++
    (encodeTypedSource i.source ++ (encodeMarketTime i.executedAt ++ (encodeDecimal i.price ++
    (encodeDecimal i.quantity ++ encodeOptionalId i.supersedesId))))))

/-- The roles of a valuation, unless they are all prices. -/
def encodeValueRoles (value : Valuation) : List UInt8 :=
  if value.hasTypedValueRoles then
    writeList (fun role => encodeCode (valuationValueRoleCode role)) value.valueRoles
  else []

/-- The fields of a valuation. -/
def encodeValuation (value : Valuation) : List UInt8 :=
  let i := value.input
  prefixedText i.valuationId.text ++ (encodeVersionRef i.instrument ++ (encodeOwner i.owner ++
    (encodeTypedSource i.source ++ (encodeMarketTime i.valuationAt ++ (prefixedText i.method ++
    (encodeVersionRef i.rulePack ++ (writeList encodeDecimal i.values ++
    (encodeValueRoles value ++ encodeOptionalId i.supersedesId))))))))

/-- The fields of a fact, behind the byte for its kind. -/
def encodeFactFields : MarketFact → List UInt8
  | .cashflow value => encodeCode 1 ++ encodeCashflow value
  | .quote value =>
    encodeCode (if value.input.source.dataSource.isSome then 12 else 2) ++ encodeQuote value
  | .trade value =>
    encodeCode (if value.input.source.dataSource.isSome then 13 else 3) ++ encodeTrade value
  | .valuation value => encodeCode (valuationKind value) ++ encodeValuation value

/-- `encode_fact`. -/
def encodeFact (value : MarketFact) : List UInt8 := header ++ encodeFactFields value

/-! ### The decoder -/

section Decoder

variable (zones : ZoneTable) (texts : TextParsers)

/-- The branch of a cash flow. -/
def decodeCashflow : PayloadReader Cashflow := do
  let cashflowId ← decodeUlid
  let bond ← decodeVersionRef
  let paymentTime ← decodeMarketTime zones texts
  let amount ← decodeDecimal
  let owner ← decodeOwner
  let source ← decodeSource
  let supersedesId ← decodeOptionalId
  let cashflowType ← coded cashflowTypeOfCode
  let scheduleId ← string
  let sequence ← u64
  construct (Cashflow.new ⟨cashflowId, bond, paymentTime, amount, owner, source, supersedesId,
    cashflowType, scheduleId, sequence⟩)

/-- The branch of a quote. -/
def decodeQuote (hasDataSource : Bool) : PayloadReader Quote := do
  let quoteId ← decodeUlid
  let instrument ← decodeVersionRef
  let owner ← decodeOwner
  let source ← decodeTypedSource hasDataSource
  let observedAt ← decodeMarketTime zones texts
  let receivedAt ← decodeMarketTime zones texts
  let bid ← decodeOptionalDecimal
  let ask ← decodeOptionalDecimal
  let supersedesId ← decodeOptionalId
  construct (Quote.new ⟨quoteId, instrument, owner, source, observedAt, receivedAt, bid, ask,
    supersedesId⟩)

/-- The branch of a trade. -/
def decodeTrade (hasDataSource : Bool) : PayloadReader Trade := do
  let tradeId ← decodeUlid
  let instrument ← decodeVersionRef
  let owner ← decodeOwner
  let source ← decodeTypedSource hasDataSource
  let executedAt ← decodeMarketTime zones texts
  let price ← decodeDecimal
  let quantity ← decodeDecimal
  let supersedesId ← decodeOptionalId
  construct (Trade.new ⟨tradeId, instrument, owner, source, executedAt, price, quantity,
    supersedesId⟩)

/-- The roles of a valuation, as many as its values. -/
def decodeValueRoles (typed : Bool) (valueCount : ℕ) : PayloadReader (List ValuationValueRole) :=
  if typed then do
    let roleCount ← len
    if roleCount ≠ valueCount then Reader.fail ↑codecError
    else Reader.count (coded valuationValueRoleOfCode) roleCount
  else pure []

/-- `decode_valuation`. -/
def decodeValuation (typed hasDataSource : Bool) : PayloadReader Valuation := do
  let valuationId ← decodeUlid
  let instrument ← decodeVersionRef
  let owner ← decodeOwner
  let source ← decodeTypedSource hasDataSource
  let valuationAt ← decodeMarketTime zones texts
  let method ← string
  let rulePack ← decodeVersionRef
  let values ← list decodeDecimal
  let valueRoles ← decodeValueRoles typed values.length
  let supersedesId ← decodeOptionalId
  construct (Valuation.newWithValueRoles ⟨valuationId, instrument, owner, source, valuationAt,
    method, rulePack, values, supersedesId⟩ valueRoles)

/-- The branches of `decode_fact`. -/
def decodeFactFields (kind : ℕ) : PayloadReader MarketFact :=
  match kind with
  | 1 => MarketFact.cashflow <$> decodeCashflow zones texts
  | 2 => MarketFact.quote <$> decodeQuote zones texts false
  | 12 => MarketFact.quote <$> decodeQuote zones texts true
  | 3 => MarketFact.trade <$> decodeTrade zones texts false
  | 13 => MarketFact.trade <$> decodeTrade zones texts true
  | 4 => MarketFact.valuation <$> decodeValuation zones texts false false
  | 14 => MarketFact.valuation <$> decodeValuation zones texts false true
  | 24 => MarketFact.valuation <$> decodeValuation zones texts true false
  | 34 => MarketFact.valuation <$> decodeValuation zones texts true true
  | _ => Reader.fail ↑codecError

/-- `decode_fact`. -/
def decodeFact (payload : List UInt8) : Option (Except (Failure ApplicationError) MarketFact) :=
  decodePayload (u8 >>= decodeFactFields zones texts) payload

end Decoder

/-! ### What comes back -/

/-- A cash flow as it is read back: without its registered source. -/
def rereadCashflow (value : Cashflow) : Cashflow where
  input :=
    { value.input with
      amount := rereadDecimal value.input.amount
      source := { value.input.source with dataSource := none } }
  valid := value.valid
  fits := value.fits

/-- The checks of a quote do not look at what a decimal loses. -/
theorem check_rereadQuote (i : QuoteInput) :
    QuoteInput.check { i with bid := i.bid.map rereadDecimal, ask := i.ask.map rereadDecimal } =
      i.check := by
  obtain ⟨_, _, _, _, _, _, bid, ask, _⟩ := i
  cases bid <;> cases ask <;> simp [QuoteInput.check, checkSpread]

/-- A quote as it is read back. -/
def rereadQuote (value : Quote) : Quote where
  input :=
    { value.input with
      bid := value.input.bid.map rereadDecimal
      ask := value.input.ask.map rereadDecimal }
  valid := (check_rereadQuote value.input).trans value.valid

/-- The amounts of a trade are positive, so that nothing is lost of them. -/
theorem stable_of_isPositive {d : StoredDecimal} (h : d.isPositive = true) : Stable d := by
  intro hzero
  rw [StoredDecimal.isPositive, hzero] at h
  cases h

/-- The roles and the other checks of a valuation do not look at its decimals. -/
def rereadValuation (value : Valuation) : Valuation where
  input := { value.input with values := value.input.values.map rereadDecimal }
  valueRoles := value.valueRoles
  proper := value.proper
  nonempty := by
    intro h
    exact value.nonempty (List.map_eq_nil_iff.mp h)
  roles := value.roles.trans (List.length_map _).symm

/-- **What is read back of a fact.** -/
def rereadFact : MarketFact → MarketFact
  | .cashflow value => .cashflow (rereadCashflow value)
  | .quote value => .quote (rereadQuote value)
  | .trade value => .trade value
  | .valuation value => .valuation (rereadValuation value)

/-- **Nothing is lost of a fact**: a cash flow has no registered source, and no decimal is a zero with
    a scale. -/
def Kept : MarketFact → Prop
  | .cashflow value => value.input.source.dataSource = none ∧ Stable value.input.amount
  | .quote value => (∀ d ∈ value.input.bid, Stable d) ∧ ∀ d ∈ value.input.ask, Stable d
  | .trade _ => True
  | .valuation value => ∀ d ∈ value.input.values, Stable d

/-- The times of a fact. -/
def factTimes : MarketFact → List MarketTime
  | .cashflow value => [value.input.paymentTime]
  | .quote value => [value.input.observedAt, value.input.receivedAt]
  | .trade value => [value.input.executedAt]
  | .valuation value => [value.input.valuationAt]

/-- A side of a quote comes back as it was exactly when it is no zero with a scale. -/
theorem map_rereadDecimal_eq_iff {value : Option StoredDecimal} :
    value.map rereadDecimal = value ↔ ∀ d ∈ value, Stable d := by
  cases value with
  | none => simp
  | some d => simp [rereadDecimal_eq_iff]

/-- So do the values of a valuation. -/
theorem mapList_rereadDecimal_eq_iff {values : List StoredDecimal} :
    values.map rereadDecimal = values ↔ ∀ d ∈ values, Stable d := by
  constructor
  · intro h d hd
    apply rereadDecimal_eq_iff.mp
    have hall : values.map rereadDecimal = values.map id := by
      rw [List.map_id]
      exact h
    exact List.map_inj_left.mp hall d hd
  · intro h
    rw [List.map_congr_left fun d hd => rereadDecimal_eq_iff.mpr (h d hd), List.map_id']

/-- What is read back is the same exactly when nothing is lost. -/
theorem rereadFact_eq_iff {fact : MarketFact} : rereadFact fact = fact ↔ Kept fact := by
  -- Only a cash flow drops its data source; every kind rereads its decimals.
  cases fact with
  | cashflow value =>
    constructor
    · intro h
      have hvalue := MarketFact.cashflow.inj h
      have hamount := congrArg (fun v : Cashflow => v.input.amount) hvalue
      have hsource := congrArg (fun v : Cashflow => v.input.source.dataSource) hvalue
      exact ⟨hsource.symm, rereadDecimal_eq_iff.mp hamount⟩
    · rintro ⟨hsource, hstable⟩
      obtain ⟨⟨_, _, _, amount, _, ⟨_, _, _, dataSource, _, _, _, _⟩, _, _, _, _⟩, _, _⟩ := value
      obtain rfl : dataSource = none := hsource
      have hamount : rereadDecimal amount = amount := rereadDecimal_eq_iff.mpr hstable
      simp only [rereadFact, rereadCashflow, hamount]
  | quote value =>
    obtain ⟨⟨_, _, _, _, _, _, bid, ask, _⟩, _⟩ := value
    simp only [rereadFact, rereadQuote, Kept, MarketFact.quote.injEq, Quote.mk.injEq,
      QuoteInput.mk.injEq, true_and, and_true]
    rw [map_rereadDecimal_eq_iff, map_rereadDecimal_eq_iff]
  | trade value => exact iff_of_true rfl trivial
  | valuation value =>
    obtain ⟨⟨_, _, _, _, _, _, _, values, _⟩, _, _, _, _⟩ := value
    simp only [rereadFact, rereadValuation, Kept, MarketFact.valuation.injEq, Valuation.mk.injEq,
      ValuationInput.mk.injEq, true_and, and_true]
    exact mapList_rereadDecimal_eq_iff

/-! ### Reading back -/

section Reading

open Reader

variable {zones : ZoneTable} {texts : TextParsers}

/-- A cash flow comes back without its registered source, which the payload does not have. -/
theorem reads_cashflow (htexts : texts.ReadsBack) {value : Cashflow}
    (htime : StoredTime zones value.input.paymentTime) :
    Reads (decodeCashflow zones texts) (encodeCashflow value) (rereadCashflow value) := by
  have htype : cashflowTypeOfCode (cashflowTypeCode value.input.cashflowType) =
      some value.input.cashflowType := by
    cases value.input.cashflowType <;> rfl
  have hcode : cashflowTypeCode value.input.cashflowType < 256 := by
    cases value.input.cashflowType <;> decide
  have hnew : Cashflow.new (rereadCashflow value).input = .ok (rereadCashflow value) :=
    dif_pos ⟨(rereadCashflow value).valid, value.fits⟩
  exact (codec_faithful.ulid _).bind
    ((codec_faithful.versionRef _).bind ((reads_marketTime htexts htime).bind
    ((reads_decimal _).bind ((codec_faithful.owner _).bind ((reads_source _).bind
    ((reads_optionalId _).bind ((reads_coded hcode htype).bind ((reads_string _).bind
    ((reads_u64 _ value.fits).thenPure (reads_construct hnew))))))))))

/-- A quote comes back with its sides reread. -/
theorem reads_quote (htexts : texts.ReadsBack) {value : Quote}
    (hobserved : StoredTime zones value.input.observedAt)
    (hreceived : StoredTime zones value.input.receivedAt) :
    Reads (decodeQuote zones texts value.input.source.dataSource.isSome) (encodeQuote value)
      (rereadQuote value) := by
  have hnew : Quote.new (rereadQuote value).input = .ok (rereadQuote value) := by
    unfold Quote.new
    split
    · rfl
    · rename_i error herror
      rw [(rereadQuote value).valid] at herror
      cases herror
  exact (codec_faithful.ulid _).bind ((codec_faithful.versionRef _).bind ((codec_faithful.owner _).bind
    ((reads_typedSource _).bind ((reads_marketTime htexts hobserved).bind
    ((reads_marketTime htexts hreceived).bind
    ((reads_optional fun d _ => reads_decimal d).bind
    ((reads_optional fun d _ => reads_decimal d).bind
    ((reads_optionalId _).thenPure (reads_construct hnew)))))))))

/-- A trade comes back as it was, since it has no decimals of zero. -/
theorem reads_trade (htexts : texts.ReadsBack) {value : Trade}
    (htime : StoredTime zones value.input.executedAt) :
    Reads (decodeTrade zones texts value.input.source.dataSource.isSome) (encodeTrade value)
      value := by
  have hpositive : value.input.price.isPositive = true ∧ value.input.quantity.isPositive = true := by
    have hvalid := value.valid
    unfold TradeInput.check at hvalid
    split at hvalid
    · assumption
    · cases hvalid
  -- Price and quantity are positive, so rereading leaves them as they are.
  have hprice := reads_decimal value.input.price
  have hquantity := reads_decimal value.input.quantity
  rw [rereadDecimal_eq_iff.mpr (stable_of_isPositive hpositive.1)] at hprice
  rw [rereadDecimal_eq_iff.mpr (stable_of_isPositive hpositive.2)] at hquantity
  have hnew : Trade.new value.input = .ok value := by
    unfold Trade.new
    split
    · rfl
    · rename_i error herror
      rw [value.valid] at herror
      cases herror
  exact (codec_faithful.ulid _).bind ((codec_faithful.versionRef _).bind ((codec_faithful.owner _).bind
    ((reads_typedSource _).bind ((reads_marketTime htexts htime).bind (hprice.bind (hquantity.bind
    ((reads_optionalId _).thenPure (reads_construct hnew))))))))

/-- The roles come back; where they are all prices there are none, which stands for prices. -/
theorem reads_valueRoles (value : Valuation) :
    Reads (decodeValueRoles value.hasTypedValueRoles (value.input.values.map rereadDecimal).length)
      (encodeValueRoles value) (if value.hasTypedValueRoles then value.valueRoles else []) := by
  unfold decodeValueRoles encodeValueRoles
  cases htyped : value.hasTypedValueRoles with
  | false => exact reads_pure []
  | true =>
    have hcode : ∀ role, Reads (coded valuationValueRoleOfCode)
        (encodeCode (valuationValueRoleCode role)) role := by
      intro role
      cases role <;> exact reads_coded (by decide) rfl
    have hcount : value.valueRoles.length = (value.input.values.map rereadDecimal).length := by
      rw [List.length_map]
      exact value.roles
    refine reads_len (length_le_flatMap (fun role h => by cases h) _) ?_
    rw [if_neg (not_not.mpr hcount)]
    exact reads_count hcode _

/-- The constructor makes the valuation of what is read. -/
theorem newWithValueRoles_reread (value : Valuation) :
    Valuation.newWithValueRoles (rereadValuation value).input
        (if value.hasTypedValueRoles then value.valueRoles else []) =
      .ok (rereadValuation value) := by
  have hchecks := And.intro (rereadValuation value).proper (rereadValuation value).nonempty
  unfold Valuation.newWithValueRoles
  rw [dif_pos hchecks]
  cases htyped : value.hasTypedValueRoles with
  | false =>
    -- no typed role: the stored roles are all prices
    have hroles := Valuation.valueRoles_of_untyped htyped
    simp only [Bool.false_eq_true, if_false, if_true]
    congr 1
    show _ = Valuation.mk _ value.valueRoles _ _ _
    congr 1
    rw [hroles]
    show List.replicate (value.input.values.map rereadDecimal).length _ = _
    rw [List.length_map]
  | true =>
    have hsome : value.valueRoles ≠ [] := by
      intro hnil
      have hlength := value.roles
      rw [hnil, List.length_nil] at hlength
      exact value.nonempty (List.eq_nil_of_length_eq_zero hlength.symm)
    have hroles : value.valueRoles.length = (rereadValuation value).input.values.length :=
      (rereadValuation value).roles
    simp only [if_true]
    rw [if_neg hsome, dif_pos hroles]
    rfl

/-- A valuation comes back with its values reread, in the roles that it has. -/
theorem reads_valuation (htexts : texts.ReadsBack) {value : Valuation}
    (htime : StoredTime zones value.input.valuationAt) :
    Reads (decodeValuation zones texts value.hasTypedValueRoles
      value.input.source.dataSource.isSome) (encodeValuation value) (rereadValuation value) :=
  (codec_faithful.ulid _).bind ((codec_faithful.versionRef _).bind ((codec_faithful.owner _).bind
    ((reads_typedSource _).bind ((reads_marketTime htexts htime).bind ((reads_string _).bind
    ((codec_faithful.versionRef _).bind
    ((reads_list encodeDecimal_ne_nil fun d _ => reads_decimal d).bind
    ((reads_valueRoles value).bind ((reads_optionalId _).thenPure
      (reads_construct (newWithValueRoles_reread value)))))))))))

/-- A reader followed by a constructor of the fact. -/
theorem reads_mapped {α β : Type} {read : PayloadReader α} {written : List UInt8} {a : α} {g : α → β}
    (h : Reads read written a) : Reads (g <$> read) written (g a) :=
  h.thenPure (reads_pure (g a))

/-- The byte of the kind, and the fields behind it. -/
theorem reads_kind {α : Type} {branch : ℕ → PayloadReader α} {kind : ℕ} {written : List UInt8}
    {a : α} (hlt : kind < 256) (h : Reads (branch kind) written a) :
    Reads (u8 >>= branch) (encodeCode kind ++ written) a := by
  refine (reads_u8 _ (UInt8.ofNat kind)).bind ?_
  rw [UInt8.toNat_ofNat', Nat.mod_eq_of_lt hlt]
  exact h

/-- **Facts.** The byte in front says which of the eight shapes follows. -/
theorem reads_fact (htexts : texts.ReadsBack) {fact : MarketFact}
    (htimes : ∀ time ∈ factTimes fact, StoredTime zones time) :
    Reads (u8 >>= decodeFactFields zones texts) (encodeFactFields fact) (rereadFact fact) := by
  cases fact with
  | cashflow value =>
    have htime := htimes value.input.paymentTime (by simp [factTimes])
    exact reads_kind (by decide) (reads_mapped (reads_cashflow htexts htime))
  | quote value =>
    have hread := reads_quote htexts (htimes value.input.observedAt (by simp [factTimes]))
      (htimes value.input.receivedAt (by simp [factTimes]))
    cases hsource : value.input.source.dataSource.isSome with
    | false =>
      rw [hsource] at hread
      rw [encodeFactFields, hsource, if_neg (by decide)]
      exact reads_kind (by decide) (reads_mapped hread)
    | true =>
      rw [hsource] at hread
      rw [encodeFactFields, hsource, if_pos rfl]
      exact reads_kind (by decide) (reads_mapped hread)
  | trade value =>
    have hread := reads_trade htexts (htimes value.input.executedAt (by simp [factTimes]))
    cases hsource : value.input.source.dataSource.isSome with
    | false =>
      rw [hsource] at hread
      rw [encodeFactFields, hsource, if_neg (by decide)]
      exact reads_kind (by decide) (reads_mapped hread)
    | true =>
      rw [hsource] at hread
      rw [encodeFactFields, hsource, if_pos rfl]
      exact reads_kind (by decide) (reads_mapped hread)
  | valuation value =>
    have hread := reads_valuation htexts (htimes value.input.valuationAt (by simp [factTimes]))
    -- the byte of the kind says which of the two optional parts there are
    cases htyped : value.hasTypedValueRoles <;>
      cases hsource : value.input.source.dataSource.isSome <;>
      (rw [htyped, hsource] at hread
       rw [encodeFactFields, valuationKind, htyped, hsource]
       exact reads_kind (by decide) (reads_mapped hread))

end Reading

/-! ### No payload stops the decoder -/

section Safety

open Reader

variable (zones : ZoneTable) (texts : TextParsers)

/-- What is made of a value that was read reads nothing more. -/
theorem safe_mapped {α β : Type} {read : PayloadReader α} (h : Safe read) (g : α → β) :
    Safe (g <$> read) :=
  h.bind fun _ => safe_pure _

/-- The readers of facts are safe, each because its parts are. -/
theorem safe_decodeCashflow : Safe (decodeCashflow zones texts) :=
  codec_safe.ulid.bind fun _ => codec_safe.versionRef.bind fun _ =>
    (safe_decodeMarketTime zones texts).bind fun _ => safe_decodeDecimal.bind fun _ =>
      codec_safe.owner.bind fun _ => safe_decodeSource.bind fun _ =>
        (safe_optional codec_safe.ulid).bind fun _ => (safe_coded _).bind fun _ =>
          safe_string.bind fun _ => (safe_u64 _).bind fun _ => safe_construct _

theorem safe_decodeQuote (hasDataSource : Bool) : Safe (decodeQuote zones texts hasDataSource) :=
  codec_safe.ulid.bind fun _ => codec_safe.versionRef.bind fun _ => codec_safe.owner.bind fun _ =>
    (safe_decodeTypedSource hasDataSource).bind fun _ =>
      (safe_decodeMarketTime zones texts).bind fun _ =>
        (safe_decodeMarketTime zones texts).bind fun _ =>
          (safe_optional safe_decodeDecimal).bind fun _ =>
            (safe_optional safe_decodeDecimal).bind fun _ =>
              (safe_optional codec_safe.ulid).bind fun _ => safe_construct _

theorem safe_decodeTrade (hasDataSource : Bool) : Safe (decodeTrade zones texts hasDataSource) :=
  codec_safe.ulid.bind fun _ => codec_safe.versionRef.bind fun _ => codec_safe.owner.bind fun _ =>
    (safe_decodeTypedSource hasDataSource).bind fun _ =>
      (safe_decodeMarketTime zones texts).bind fun _ => safe_decodeDecimal.bind fun _ =>
        safe_decodeDecimal.bind fun _ => (safe_optional codec_safe.ulid).bind fun _ =>
          safe_construct _

theorem safe_decodeValueRoles (typed : Bool) (valueCount : ℕ) :
    Safe (decodeValueRoles typed valueCount) := by
  unfold decodeValueRoles
  cases typed with
  | false => exact safe_pure _
  | true =>
    refine safe_len.bind fun roleCount => ?_
    by_cases h : roleCount ≠ valueCount
    · rw [if_pos h]
      exact safe_fail _
    · rw [if_neg h]
      exact safe_count (safe_coded _) _

theorem safe_decodeValuation (typed hasDataSource : Bool) :
    Safe (decodeValuation zones texts typed hasDataSource) :=
  codec_safe.ulid.bind fun _ => codec_safe.versionRef.bind fun _ => codec_safe.owner.bind fun _ =>
    (safe_decodeTypedSource hasDataSource).bind fun _ =>
      (safe_decodeMarketTime zones texts).bind fun _ => safe_string.bind fun _ =>
        codec_safe.versionRef.bind fun _ => (safe_list safe_decodeDecimal).bind fun _ =>
          (safe_decodeValueRoles typed _).bind fun _ =>
            (safe_optional codec_safe.ulid).bind fun _ => safe_construct _

theorem safe_decodeFactFields (kind : ℕ) : Safe (decodeFactFields zones texts kind) := by
  unfold decodeFactFields
  split
  · exact safe_mapped (safe_decodeCashflow zones texts) _
  · exact safe_mapped (safe_decodeQuote zones texts _) _
  · exact safe_mapped (safe_decodeQuote zones texts _) _
  · exact safe_mapped (safe_decodeTrade zones texts _) _
  · exact safe_mapped (safe_decodeTrade zones texts _) _
  · exact safe_mapped (safe_decodeValuation zones texts _ _) _
  · exact safe_mapped (safe_decodeValuation zones texts _ _) _
  · exact safe_mapped (safe_decodeValuation zones texts _ _) _
  · exact safe_mapped (safe_decodeValuation zones texts _ _) _
  · exact safe_fail _

end Safety

/-- **Stored facts, exactly.**  A fact whose times were constructed comes back as `rereadFact` says; it
    comes back as it was exactly when nothing of it is lost; and no byte string stops the decoder. -/
theorem fact_payload_exact (zones : ZoneTable) (texts : TextParsers) (htexts : texts.ReadsBack)
    (fact : MarketFact) (htimes : ∀ time ∈ factTimes fact, StoredTime zones time)
    (hlength : (encodeFact fact).length < 2 ^ 64) :
    decodeFact zones texts (encodeFact fact) = some (.ok (rereadFact fact)) ∧
      (decodeFact zones texts (encodeFact fact) = some (.ok fact) ↔ Kept fact) ∧
      ∀ payload, (decodeFact zones texts payload).isSome := by
  have hread : decodeFact zones texts (encodeFact fact) = some (.ok (rereadFact fact)) :=
    decodePayload_encode (reads_fact htexts htimes).all hlength
  refine ⟨hread, ?_, fun payload => decodePayload_isSome ?_ payload⟩
  · rw [hread, ← rereadFact_eq_iff]
    exact ⟨fun h => Except.ok.inj (Option.some.inj h), fun h => by rw [h]⟩
  · exact (Reader.safe_u8 _).toReturns.bind fun kind =>
      (safe_decodeFactFields zones texts kind).toReturns

/-! ### A sample -/

/-- What parses the texts that are displayed. -/
noncomputable def displayedTexts : TextParsers where
  parseDate := Function.partialInv NaiveDate.text
  parseTime := Function.partialInv NaiveTime.text

/-- The texts of dates and of times of day tell them apart, so they can be parsed. -/
theorem displayedTexts_readsBack : displayedTexts.ReadsBack where
  date := fun _ => Function.partialInv_left NaiveDate.text_injective _
  time := fun _ => Function.partialInv_left NaiveTime.text_injective _

/-- A trade, behind its byte and its header. -/
theorem fact_payload_sample :
    decodeFact .utc displayedTexts (encodeFact Fingerprint.sampleTrade) =
        some (.ok (rereadFact Fingerprint.sampleTrade)) ∧
      (decodeFact .utc displayedTexts (encodeFact Fingerprint.sampleTrade) =
        some (.ok Fingerprint.sampleTrade) ↔ Kept Fingerprint.sampleTrade) ∧
      ∀ payload, (decodeFact .utc displayedTexts payload).isSome := by
  apply fact_payload_exact .utc displayedTexts displayedTexts_readsBack
  · intro time hmem
    obtain rfl := List.mem_singleton.mp hmem
    rfl
  · decide +kernel

end Ficant.Payload
