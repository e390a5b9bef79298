import Ficant.Lib.Decoder
import Ficant.Research.ResearchGraph
import Ficant.Runtime.GraphExecution

namespace Ficant

open Lib

/-!
# Node outputs and their envelope

The values on a node's ports and the bytes they are stored as
(`ficant-runtime/src/native_execution.rs`).

* `NativePortValue` — a port, a type and a payload with its hash;
* `canonicalOutputBytes` — the envelope of a node's outputs;
* `decodeCanonicalOutputBytes` — reads an envelope, checking each length against the bytes left;
* `decodes_outputs` — the decoder of the output list is exact (`Lib.Decodes`), by induction on the
  declared count.
-/

/-! ### Port values -/

/-- `NativePortValue`. -/
structure NativePortValue (digest : List UInt8 → ContentHash) where
  portName : String
  valueType : TypedValue
  payload : List UInt8
  contentHash : ContentHash
  portName_proper : portName ≠ "" ∧ trim portName = portName
  payload_ne_nil : payload ≠ []
  contentHash_eq : contentHash = digest payload

instance {digest : List UInt8 → ContentHash} : DecidableEq (NativePortValue digest) := fun a b =>
  decidable_of_iff
    (a.portName = b.portName ∧ a.valueType = b.valueType ∧ a.payload = b.payload ∧
      a.contentHash = b.contentHash)
    (by cases a; cases b; simp)

variable (digest : List UInt8 → ContentHash)

/-- `NativePortValue::new`. -/
def NativePortValue.new (portName : String) (valueType : TypedValue) (payload : List UInt8) :
    Except RuntimeError (NativePortValue digest) :=
  if h : portName = "" ∨ trim portName ≠ portName ∨ payload = [] then .error invalidValue
  else .ok
    { portName, valueType, payload
      contentHash := digest payload
      portName_proper := by push Not at h; exact ⟨h.1, h.2.1⟩
      payload_ne_nil := by push Not at h; exact h.2.2
      contentHash_eq := rfl }

/-- `hash_mismatch`. -/
def hashMismatch : RuntimeError := .domain .contentHashMismatch

/-! ### The envelope -/

/-- The magic text at the start of an envelope. -/
def envelopeMagic : List UInt8 := utf8 "ficant/native-node-output-envelope/v1"

variable {digest}

/-- The bytes of one output. -/
def outputBytes (output : NativePortValue digest) : List UInt8 :=
  prefixedText output.portName ++ ResearchGraph.typedValueBytes output.valueType ++
    output.contentHash.bytes ++ (bigEndian 8 output.payload.length ++ output.payload)

/-- `canonical_output_bytes`. -/
def canonicalOutputBytes (outputs : List (NativePortValue digest)) : List UInt8 :=
  envelopeMagic ++ bigEndian 8 outputs.length ++ outputs.flatMap outputBytes

namespace EnvelopeDecoder

/-- `EnvelopeDecoder::take`. -/
def take (length : ℕ) : Decoder RuntimeError (List UInt8) := Decoder.take invalidValue length

/-- `EnvelopeDecoder::try_u64`, and `EnvelopeDecoder::usize` where sizes have 64 bits. -/
def tryU64 : Decoder RuntimeError ℕ := Decoder.u64 invalidValue

/-- `EnvelopeDecoder::bytes`. -/
def bytes : Decoder RuntimeError (List UInt8) := Decoder.bytes invalidValue

/-- `EnvelopeDecoder::string`. -/
def string : Decoder RuntimeError String := do
  let value ← bytes
  match fromUtf8 value with
  | some text => pure text
  | none => throw invalidValue

/-- A version: a 64-bit number through `Version::new`. -/
def version : Decoder RuntimeError Version := do
  let value ← tryU64
  liftM ((Version.new value).mapError RuntimeError.domain)

/-- A content hash: 32 bytes through `ContentHash::from_bytes`. -/
def hash : Decoder RuntimeError ContentHash := do
  let value ← take 32
  liftM ((ContentHash.fromBytes value).mapError RuntimeError.domain)

end EnvelopeDecoder

/-- The value of an output, from what one round of the decoder has read. -/
def assembleOutput (digest : List UInt8 → ContentHash) (portName typeId : String)
    (typeVersion : Version) (schemaHash declared : ContentHash) (payload : List UInt8) :
    Except RuntimeError (NativePortValue digest) := do
  let valueType ← (TypedValue.new typeId typeVersion schemaHash).mapError RuntimeError.domain
  let output ← NativePortValue.new digest portName valueType payload
  if output.contentHash ≠ declared then .error hashMismatch else pure output

/-- One round of the decoder's loop: the next output, on a port after the previous one. -/
def decodeOutput (digest : List UInt8 → ContentHash) (previous : Option String) :
    Decoder RuntimeError (NativePortValue digest) := do
  let portName ← EnvelopeDecoder.string
  if ∃ p ∈ previous, portName ≤ p then throw invalidValue
  else
    let typeId ← EnvelopeDecoder.string
    let typeVersion ← EnvelopeDecoder.version
    let schemaHash ← EnvelopeDecoder.hash
    let declared ← EnvelopeDecoder.hash
    let payload ← EnvelopeDecoder.bytes
    liftM (assembleOutput digest portName typeId typeVersion schemaHash declared payload)

/-- The decoder's loop over the declared count. -/
def decodeOutputs (digest : List UInt8 → ContentHash) :
    ℕ → Option String → Decoder RuntimeError (List (NativePortValue digest))
  | 0, _ => pure []
  | count + 1, previous => do
    let output ← decodeOutput digest previous
    let outputs ← decodeOutputs digest count (some output.portName)
    pure (output :: outputs)

/-- The magic text, the count and the outputs. -/
def decodeEnvelope (digest : List UInt8 → ContentHash) :
    Decoder RuntimeError (List (NativePortValue digest)) := do
  let magic ← EnvelopeDecoder.take envelopeMagic.length
  if magic ≠ envelopeMagic then throw invalidValue
  else
    let count ← EnvelopeDecoder.tryU64
    if count = 0 then throw invalidValue else decodeOutputs digest count none

/-- `decode_canonical_output_bytes`. -/
def decodeCanonicalOutputBytes (digest : List UInt8 → ContentHash) (bytes : List UInt8)
    (expectedEnvelopeHash : Option ContentHash) :
    Except RuntimeError (List (NativePortValue digest)) :=
  if ∃ expected ∈ expectedEnvelopeHash, digest bytes ≠ expected then .error hashMismatch
  else do
    let (outputs, decoder) ← decodeEnvelope digest ⟨bytes, 0⟩
    if decoder.offset ≠ decoder.bytes.length then .error invalidValue else pure outputs

/-! ### Fields of the envelope -/

namespace EnvelopeDecoder

/-- A length and its bytes read back a text. -/
theorem decodes_string :
    Decodes string (fun text => (utf8 text).length < 2 ^ 64) prefixedText := by
  have htext : ∀ value : List UInt8, value.length < 2 ^ 64 →
      Decodes (match fromUtf8 value with | some text => pure text | none => throw invalidValue :
        Decoder RuntimeError String) (fun text => fromUtf8 value = some text) fun _ => [] := by
    intro value _
    cases hvalue : fromUtf8 value with
    | some text => exact (Decodes.pure text).congr (fun t => by simp [eq_comm]) fun _ _ => rfl
    | none => exact ⟨fun _ _ _ h _ => (by cases h), fun _ _ _ h _ _ _ => (by cases h)⟩
  have h := (decodes_bytes invalidValue).bind utf8 htext fun _ _ _ h => utf8_of_fromUtf8 h
  refine h.congr (fun text => ?_) fun text _ => by simp [prefixedText]
  simp [fromUtf8_utf8]

/-- Eight bytes read back a version. -/
theorem decodes_version :
    Decodes version (fun _ => True) fun v => bigEndian 8 v.value := by
  have h := (decodes_u64 invalidValue).bind Version.value
    (fun value _ => Decodes.lift ((Version.new value).mapError RuntimeError.domain))
    fun _ _ _ h => Version.value_of_new (mapError_eq_ok.mp h)
  refine h.congr (fun v => ?_) fun v _ => by simp
  simp only [iff_true]
  exact ⟨v.fits, mapError_eq_ok.mpr (Version.new_value v)⟩

/-- Thirty-two bytes read back a hash. -/
theorem decodes_hash : Decodes hash (fun _ => True) ContentHash.bytes := by
  have h := (decodes_take invalidValue 32).bind ContentHash.bytes
    (fun value _ => Decodes.lift ((ContentHash.fromBytes value).mapError RuntimeError.domain))
    fun value hash hlength h => by
      have h := mapError_eq_ok.mp h
      rw [ContentHash.fromBytes, dif_pos hlength] at h
      exact (congrArg ContentHash.bytes (Except.ok.inj h)).symm
  refine h.congr (fun hash => ?_) fun hash _ => by simp
  simp only [iff_true]
  refine ⟨hash.length_eq, mapError_eq_ok.mpr ?_⟩
  rw [ContentHash.fromBytes, dif_pos hash.length_eq]

end EnvelopeDecoder

/-! ### Outputs -/

/-- A port value that is built holds what it was built from. -/
theorem NativePortValue.new_eq_ok {portName : String} {valueType : TypedValue}
    {payload : List UInt8} {value : NativePortValue digest}
    (h : NativePortValue.new digest portName valueType payload = .ok value) :
    value.portName = portName ∧ value.valueType = valueType ∧ value.payload = payload := by
  rw [NativePortValue.new] at h
  split at h
  · cases h
  obtain rfl := Except.ok.inj h
  exact ⟨rfl, rfl, rfl⟩

/-- A port value is built again from its own fields. -/
theorem NativePortValue.new_self (value : NativePortValue digest) :
    NativePortValue.new digest value.portName value.valueType value.payload = .ok value := by
  have hport := value.portName_proper
  have hproper : ¬(value.portName = "" ∨ trim value.portName ≠ value.portName ∨
      value.payload = []) := by
    push Not
    exact ⟨hport.1, hport.2, value.payload_ne_nil⟩
  rw [NativePortValue.new, dif_neg hproper]
  congr 1
  cases value with
  | mk portName valueType payload contentHash _ _ hhash =>
    subst hhash
    rfl

/-- An assembled output consists of what was read. -/
theorem assembleOutput_eq_ok {portName typeId : String} {typeVersion : Version}
    {schemaHash declared : ContentHash} {payload : List UInt8} {output : NativePortValue digest}
    (h : assembleOutput digest portName typeId typeVersion schemaHash declared payload =
      .ok output) :
    output.portName = portName ∧ output.valueType.typeId = typeId ∧
      output.valueType.typeVersion = typeVersion ∧ output.valueType.schemaHash = schemaHash ∧
      output.contentHash = declared ∧ output.payload = payload := by
  obtain ⟨valueType, htype, h⟩ := bind_eq_ok.mp h
  obtain ⟨made, hmade, h⟩ := bind_eq_ok.mp h
  split at h
  · cases h
  rename_i hdeclared
  obtain rfl := Except.ok.inj h
  obtain ⟨hport, hvalue, hpayload⟩ := NativePortValue.new_eq_ok hmade
  obtain ⟨hid, hversion, hschema⟩ := TypedValue.new_eq_ok (mapError_eq_ok.mp htype)
  rw [hvalue]
  exact ⟨hport, hid, hversion, hschema, not_not.mp hdeclared, hpayload⟩

/-- Every output is assembled from its own fields. -/
theorem assembleOutput_self (output : NativePortValue digest) :
    assembleOutput digest output.portName output.valueType.typeId output.valueType.typeVersion
      output.valueType.schemaHash output.contentHash output.payload = .ok output := by
  refine bind_eq_ok.mpr ⟨output.valueType, mapError_eq_ok.mpr (TypedValue.new_self _), ?_⟩
  refine bind_eq_ok.mpr ⟨output, NativePortValue.new_self output, ?_⟩
  rw [if_neg (by simp)]
  rfl

/-- What 64-bit lengths need of an output. -/
def NativePortValue.Fits (output : NativePortValue digest) : Prop :=
  (utf8 output.portName).length < 2 ^ 64 ∧ (utf8 output.valueType.typeId).length < 2 ^ 64 ∧
    output.payload.length < 2 ^ 64

/-- One round of the loop is exact. -/
theorem decodes_output (previous : Option String) :
    Decodes (decodeOutput digest previous)
      (fun output => (∀ p ∈ previous, p < output.portName) ∧ output.Fits) outputBytes := by
  -- every field read is a field of the assembled output
  have h := EnvelopeDecoder.decodes_string.bind NativePortValue.portName (fun portName _ =>
    Decodes.ite (∃ p ∈ previous, portName ≤ p) invalidValue fun _ =>
    EnvelopeDecoder.decodes_string.bind (fun o => o.valueType.typeId) (fun typeId _ =>
    EnvelopeDecoder.decodes_version.bind (fun o => o.valueType.typeVersion) (fun typeVersion _ =>
    EnvelopeDecoder.decodes_hash.bind (fun o => o.valueType.schemaHash) (fun schemaHash _ =>
    EnvelopeDecoder.decodes_hash.bind NativePortValue.contentHash (fun declared _ =>
    (decodes_bytes invalidValue).bind NativePortValue.payload (fun payload _ =>
    Decodes.lift (assembleOutput digest portName typeId typeVersion schemaHash declared payload))
    fun _ _ _ h => (assembleOutput_eq_ok h).2.2.2.2.2)
    fun _ _ _ h => (assembleOutput_eq_ok h.2).2.2.2.2.1)
    fun _ _ _ h => (assembleOutput_eq_ok h.2.2).2.2.2.1)
    fun _ _ _ h => (assembleOutput_eq_ok h.2.2.2).2.2.1)
    fun _ _ _ h => (assembleOutput_eq_ok h.2.2.2.2).2.1)
    fun _ _ _ h => (assembleOutput_eq_ok h.2.2.2.2.2.2).1
  refine h.congr (fun output => ?_) fun output _ => ?_
  · simp only [assembleOutput_self, NativePortValue.Fits, not_exists, not_and, not_le]
    tauto
  · simp [outputBytes, ResearchGraph.typedValueBytes]

/-- Ports that increase, starting after the previous one. -/
def PortsIncrease (previous : Option String) (outputs : List (NativePortValue digest)) : Prop :=
  (∀ p ∈ previous, ∀ output ∈ outputs.head?, p < output.portName) ∧
    outputs.IsChain fun a b => a.portName < b.portName

/-- Ports increase when the first is above what came before and the others increase from it. -/
theorem portsIncrease_cons {previous : Option String} {output : NativePortValue digest}
    {outputs : List (NativePortValue digest)} :
    PortsIncrease previous (output :: outputs) ↔
      (∀ p ∈ previous, p < output.portName) ∧ PortsIncrease (some output.portName) outputs := by
  simp [PortsIncrease, List.isChain_cons]

/-- The loop is exact: as many outputs as declared, on increasing ports. -/
theorem decodes_outputs (count : ℕ) (previous : Option String) :
    Decodes (decodeOutputs digest count previous)
      (fun outputs => outputs.length = count ∧ PortsIncrease previous outputs ∧
        ∀ output ∈ outputs, output.Fits)
      fun outputs => outputs.flatMap outputBytes := by
  induction count generalizing previous with
  | zero =>
    refine (Decodes.pure []).congr (fun outputs => ⟨?_, fun h => ?_⟩) fun outputs h => ?_
    · rintro rfl
      exact ⟨rfl, ⟨by simp, .nil⟩, by simp⟩
    · exact List.eq_nil_of_length_eq_zero h.1
    · rw [h]
      rfl
  | succ count ih =>
    -- After one output the others are read with its port as the one before.
    have hcons : ∀ output : NativePortValue digest,
        Decodes (decodeOutputs digest count (some output.portName) >>= fun outputs =>
            pure (output :: outputs)) (fun outputs => ∃ rest, (rest.length = count ∧
              PortsIncrease (some output.portName) rest ∧ ∀ output ∈ rest, output.Fits) ∧
              outputs = output :: rest)
          fun outputs => outputs.tail.flatMap outputBytes := fun output =>
      (ih (some output.portName)).map (output :: ·) (fun _ => Iff.rfl) fun _ _ => rfl
    refine (decodes_output previous).bindRel (fun output _ => hcons output)
      (fun outputs => ⟨?_, ?_⟩) ?_
    · rintro ⟨hlength, hports, hfits⟩
      cases outputs with
      | nil => simp at hlength
      | cons output outputs =>
        obtain ⟨hfirst, hrest⟩ := portsIncrease_cons.mp hports
        exact ⟨output, ⟨hfirst, hfits output List.mem_cons_self⟩, outputs,
          ⟨by simpa using hlength, hrest, fun o ho => hfits o (List.mem_cons_of_mem _ ho)⟩, rfl⟩
    · rintro ⟨output, ⟨hfirst, hfit⟩, rest, ⟨hlength, hports, hfits⟩, rfl⟩
      refine ⟨by simp [hlength], portsIncrease_cons.mpr ⟨hfirst, hports⟩, ?_⟩
      intro o ho
      rcases List.mem_cons.mp ho with rfl | ho
      · exact hfit
      · exact hfits o ho
    · rintro output outputs - ⟨rest, -, rfl⟩
      rfl

/-- The decoder of the envelope is exact. -/
theorem decodes_envelope :
    Decodes (decodeEnvelope digest)
      (fun outputs => outputs ≠ [] ∧ outputs.length < 2 ^ 64 ∧ PortsIncrease none outputs ∧
        ∀ output ∈ outputs, output.Fits)
      canonicalOutputBytes := by
  have h := (decodes_take invalidValue envelopeMagic.length).bind
    (fun _ : List (NativePortValue digest) => envelopeMagic)
    (fun magic _ => Decodes.ite (magic ≠ envelopeMagic) invalidValue fun _ =>
      (decodes_u64 invalidValue).bind List.length
        (fun count _ => Decodes.ite (count = 0) invalidValue fun _ => decodes_outputs count none)
        fun _ _ _ h => h.2.1)
    fun _ _ _ h => (not_not.mp h.1).symm
  refine h.congr (fun outputs => ?_) fun outputs _ => by simp [canonicalOutputBytes]
  rw [← List.length_pos_iff]
  simp only [true_and, not_true_eq_false, not_false_eq_true, ne_eq]
  constructor
  · rintro ⟨hlt, hpos, hrest⟩
    exact ⟨by omega, hlt, hrest⟩
  · rintro ⟨hpos, hlt, hrest⟩
    exact ⟨hlt, by omega, hrest⟩

/-! ### The codec -/

/-- With nothing before them, ports increase when each is below all later ones. -/
theorem portsIncrease_none_iff {outputs : List (NativePortValue digest)} :
    PortsIncrease none outputs ↔ outputs.Pairwise fun a b => a.portName < b.portName := by
  have htrans : IsTrans (NativePortValue digest) fun a b => a.portName < b.portName :=
    ⟨fun _ _ _ => lt_trans⟩
  rw [← List.isChain_iff_pairwise]
  simp [PortsIncrease]

/-- Outputs whose envelope has a 64-bit length have 64-bit lengths themselves. -/
theorem fits_of_length {outputs : List (NativePortValue digest)}
    (h : (canonicalOutputBytes outputs).length < 2 ^ 64) :
    outputs.length < 2 ^ 64 ∧ ∀ output ∈ outputs, output.Fits := by
  rw [canonicalOutputBytes, List.length_append] at h
  have hcount : outputs.length ≤ (outputs.flatMap outputBytes).length := by
    apply length_le_flatMap
    intro output hempty
    have := congrArg List.length hempty
    simp [outputBytes, prefixedText] at this
  refine ⟨by omega, fun output hmem => ?_⟩
  obtain ⟨before, after, rfl⟩ := List.append_of_mem hmem
  simp only [List.flatMap_append, List.flatMap_cons, List.length_append, outputBytes,
    ResearchGraph.typedValueBytes, prefixedText] at h
  refine ⟨?_, ?_, ?_⟩ <;> omega

/-- What the decoder does on accepted bytes: it reads all of them, and they are the envelope of what
    it returns. -/
theorem decodeCanonicalOutputBytes_eq_ok {bytes : List UInt8} {expected : Option ContentHash}
    {outputs : List (NativePortValue digest)}
    (h : decodeCanonicalOutputBytes digest bytes expected = .ok outputs) :
    canonicalOutputBytes outputs = bytes ∧ bytes.length < 2 ^ 64 ∧ outputs ≠ [] ∧
      (outputs.Pairwise fun a b => a.portName < b.portName) ∧
      ∀ hash ∈ expected, digest bytes = hash := by
  rw [decodeCanonicalOutputBytes] at h
  split at h
  · cases h
  rename_i hexpected
  obtain ⟨⟨decoded, cursor⟩, hrun, h⟩ := bind_eq_ok.mp h
  simp only at h
  split at h
  · cases h
  rename_i hfinished
  obtain rfl := Except.ok.inj h
  obtain ⟨⟨hne, -, hports, -⟩, hrest, rfl, hrange⟩ :=
    decodes_envelope.sound ⟨bytes, 0⟩ decoded cursor hrun ⟨by simp, by simp⟩
  have hoffset : (canonicalOutputBytes decoded).length = bytes.length := by
    simpa [Cursor.advance] using hfinished
  refine ⟨?_, ?_, hne, portsIncrease_none_iff.mp hports, ?_⟩
  · -- nothing is left behind the envelope
    rw [Cursor.rest_advance] at hrest
    simp only [Cursor.rest, List.drop_zero] at hrest
    rw [hoffset, List.drop_length, List.append_nil] at hrest
    exact hrest.symm
  · rw [← hoffset]
    simpa [Cursor.advance] using hrange.offset_lt
  · intro hash hmem
    by_contra hne
    exact hexpected ⟨hash, hmem, hne⟩

/-- The decoder run on an envelope with something behind it. -/
theorem decodeEnvelope_append {outputs : List (NativePortValue digest)} (hne : outputs ≠ [])
    (hports : outputs.Pairwise fun a b => a.portName < b.portName) (extra : List UInt8)
    (hlength : (canonicalOutputBytes outputs ++ extra).length < 2 ^ 64) :
    decodeEnvelope digest ⟨canonicalOutputBytes outputs ++ extra, 0⟩ =
      .ok (outputs, ⟨canonicalOutputBytes outputs ++ extra,
        (canonicalOutputBytes outputs).length⟩) := by
  have hshort : (canonicalOutputBytes outputs).length < 2 ^ 64 := by
    rw [List.length_append] at hlength
    omega
  obtain ⟨hcount, hfits⟩ := fits_of_length hshort
  have h := decodes_envelope.complete ⟨canonicalOutputBytes outputs ++ extra, 0⟩ outputs extra
    ⟨hne, hcount, portsIncrease_none_iff.mpr hports, hfits⟩ (by simp [Cursor.rest]) (by simp) hlength
  simpa [Cursor.advance] using h

/-- **The envelope codec is a bijection onto its accepted bytes.**  Outputs on strictly increasing
    ports are read back from their envelope; accepted bytes are the envelope of what is read; bytes
    behind an envelope are refused; and each read of the decoder stays inside the byte string.  An
    envelope is a byte vector, so its length has 64 bits. -/
theorem outputEnvelope_bijection (digest : List UInt8 → ContentHash) :
    (∀ (outputs : List (NativePortValue digest)) (expected : Option ContentHash), outputs ≠ [] →
      (outputs.Pairwise fun a b => a.portName < b.portName) →
      (canonicalOutputBytes outputs).length < 2 ^ 64 →
      (∀ hash ∈ expected, digest (canonicalOutputBytes outputs) = hash) →
      decodeCanonicalOutputBytes digest (canonicalOutputBytes outputs) expected = .ok outputs) ∧
    (∀ bytes expected (outputs : List (NativePortValue digest)),
      decodeCanonicalOutputBytes digest bytes expected = .ok outputs →
      canonicalOutputBytes outputs = bytes ∧ outputs ≠ [] ∧
        outputs.Pairwise fun a b => a.portName < b.portName) ∧
    (∀ bytes expected expected' extra (outputs : List (NativePortValue digest)),
      decodeCanonicalOutputBytes digest bytes expected = .ok outputs → extra ≠ [] →
      ∃ error, decodeCanonicalOutputBytes digest (bytes ++ extra) expected' = .error error) ∧
    (∀ length (decoder next : Cursor) value,
      EnvelopeDecoder.take length decoder = .ok (value, next) →
      next.offset = decoder.offset + length ∧ next.offset ≤ decoder.bytes.length ∧
        next.bytes = decoder.bytes ∧ value.length = length) := by
  refine ⟨?_, ?_, ?_, ?_⟩
  · intro outputs expected hne hports hlength hhash
    have hrun := decodeEnvelope_append hne hports [] (by simpa using hlength)
    rw [List.append_nil] at hrun
    rw [decodeCanonicalOutputBytes, if_neg (by simpa using hhash)]
    refine bind_eq_ok.mpr ⟨_, hrun, ?_⟩
    simp
    rfl
  · intro bytes expected outputs h
    obtain ⟨hbytes, -, hne, hports, -⟩ := decodeCanonicalOutputBytes_eq_ok h
    exact ⟨hbytes, hne, hports⟩
  · intro bytes expected expected' extra outputs h hextra
    obtain ⟨hbytes, -, hne, hports, -⟩ := decodeCanonicalOutputBytes_eq_ok h
    cases hlonger : decodeCanonicalOutputBytes digest (bytes ++ extra) expected' with
    | error error => exact ⟨error, rfl⟩
    | ok others =>
      -- the decoder reads the first envelope only, and what follows it remains
      exfalso
      obtain ⟨-, hlength, -, -, -⟩ := decodeCanonicalOutputBytes_eq_ok hlonger
      rw [decodeCanonicalOutputBytes] at hlonger
      split at hlonger
      · cases hlonger
      subst hbytes
      rw [decodeEnvelope_append hne hports extra hlength] at hlonger
      have hpos := List.length_pos_iff.mpr hextra
      have hunread : (canonicalOutputBytes outputs).length ≠
          (canonicalOutputBytes outputs ++ extra).length := by
        rw [List.length_append]
        omega
      obtain ⟨_, hrun, hcheck⟩ := bind_eq_ok.mp hlonger
      obtain rfl := Except.ok.inj hrun
      simp only [if_pos hunread] at hcheck
      cases hcheck
  · intro length decoder next value h
    rw [EnvelopeDecoder.take, Decoder.take] at h
    split at h
    · cases h
    split at h
    · cases h
    obtain ⟨rfl, rfl⟩ := Prod.mk.inj (Except.ok.inj h)
    refine ⟨rfl, ?_, rfl, ?_⟩
    · show decoder.offset + length ≤ decoder.bytes.length
      omega
    · rw [List.length_take, List.length_drop]
      omega

end Ficant
