import Ficant.Runtime.GraphReplay
import Ficant.Runtime.ReproducibilityIdentity

namespace Ficant

open Lib

/-!
# The preimages of runtime identities

The bytes that formal evidence and reproducibility identities are digests of determine what they are
about, and do not depend on the order of the caller's lists.

* Every record of the canonical writer is told apart by its bytes (`Lib.Injects`): its fields are
  tagged and carry their lengths.
* The bytes of a reproducibility identity have no tags; each part is told apart from what follows
  (`Lib.Separable`).  A payload enters through its hash.
* The lists are sorted by a key that the constructors require to be unique, so any order of them
  gives the same sorted list.
-/

/-! ### Records of the canonical writer -/

/-- An optional value behind its length. -/
theorem injects_optional {α : Type} {ok : α → Prop} {write : α → List UInt8} (h : Injects ok write) :
    Injects (fun o : Option α => ∀ a ∈ o, ok a)
      fun o => writeOptional (taggedField []) (o.map write) := by
  have hseparable := separable_writeOptional (h.taggedField [])
  intro a b ha hb la lb heq
  have hmap : ∀ o : Option α, writeOptional (taggedField []) (o.map write) =
      writeOptional (fun x => taggedField [] (write x)) o := by
    intro o
    cases o <;> rfl
  simp only [hmap] at la lb heq
  exact hseparable.inj ha hb la lb heq

/-- A number that may be missing, behind the byte that says so. -/
theorem injects_optionalU64 :
    Injects (fun o : Option ℕ => ∀ n ∈ o, n < 2 ^ 64) (writeOptional (bigEndian 8)) :=
  (separable_writeOptional (separable_bigEndian 8)).injects

theorem Version.value_injective : Function.Injective Version.value := by
  intro a b h
  cases a
  cases b
  simpa using h

/-- A version that may be missing. -/
theorem injects_optionalVersion :
    Injects (fun _ => True) fun o : Option Version =>
    writeOptional (bigEndian 8) (o.map Version.value) := by
  intro a b _ _ la lb heq
  have hfits : ∀ o : Option Version, ∀ n ∈ o.map Version.value, n < 2 ^ 64 := by
    intro o n hn
    obtain ⟨v, -, rfl⟩ := Option.mem_map.mp hn
    exact v.fits
  exact Option.map_injective Version.value_injective
    (injects_optionalU64 _ _ (hfits a) (hfits b) la lb heq)

/-- An owner is told apart by its two identifiers. -/
theorem injects_owner : Injects (fun _ => True) ownerBytes := by
  have hreads := ((Reads.tag (fun _ : OwnerRef => True) (CanonicalWriter.new "owner-ref/v1")).append
    (injects_ulid.reads (bigEndian 2 2) OwnerRef.tenantId fun _ _ => trivial)).append
    (injects_ulid.reads (bigEndian 2 3) OwnerRef.ownerId fun _ _ => trivial)
  refine (hreads.separable fun a b _ _ h => ?_).injects
  cases a
  cases b
  simp_all

/-- A time is told apart by its seconds, its nanoseconds, its zone and its date, so a leap second by
    its nanoseconds. -/
theorem injects_marketTime : Injects (fun _ => True) marketTimeBytes := by
  have hdate : Injects (fun _ => True) fun d : NaiveDate => utf8 d.text :=
    injects_of_injective fun _ _ h => NaiveDate.text_injective (utf8_inj h)
  have hreads := ((((Reads.tag (fun _ : MarketTime => True)
    (CanonicalWriter.new "market-time/v1")).append
    (injects_bytes.reads (bigEndian 2 2) (fun t : MarketTime => secondsBytes t.instant)
      fun _ _ => trivial)).append
    (injects_bytes.reads (bigEndian 2 3) (fun t : MarketTime => nanosBytes t.instant)
      fun _ _ => trivial)).append
    (injects_utf8.reads (bigEndian 2 4) MarketTime.marketTimezone fun _ _ => trivial)).append
    (hdate.reads (bigEndian 2 5) MarketTime.localTradingDate fun _ _ => trivial)
  refine (hreads.separable fun a b _ _ h => ?_).injects
  simp only [Prod.mk.injEq, true_and] at h
  obtain ⟨⟨⟨hseconds, hnanos⟩, hzone⟩, hdate⟩ := h
  have hinstant := instant_eq_of_bytes hseconds hnanos
  cases a
  cases b
  simp_all

theorem injects_optionalTime : Injects (fun _ => True) fun o : Option MarketTime =>
    writeOptional (taggedField []) (o.map marketTimeBytes) :=
  fun a b _ _ => injects_optional injects_marketTime a b (fun _ _ => trivial) fun _ _ => trivial

/-- A reference to an object is told apart by all that it has. -/
theorem injects_objectReference : Injects (fun _ => True) objectReferenceBytes := by
  have hhash : Injects (fun _ => True) fun o : Option ContentHash =>
      writeOptional (taggedField []) (o.map ContentHash.bytes) :=
    fun a b _ _ => injects_optional injects_hash a b (fun _ _ => trivial) fun _ _ => trivial
  have hreads := (((Reads.tag (fun _ : LineageRef => True)
    (CanonicalWriter.new "exact-lineage-reference/v1")).append
    (injects_ulid.reads (bigEndian 2 2) LineageRef.objectId fun _ _ => trivial)).append
    (injects_optionalVersion.reads (bigEndian 2 3) LineageRef.version fun _ _ => trivial)).append
    (hhash.reads (bigEndian 2 4) LineageRef.contentHash fun _ _ => trivial)
  refine (hreads.separable fun a b _ _ h => ?_).injects
  cases a
  cases b
  simp_all

/-- A reference by name is told apart by the name and the hash. -/
theorem injects_namedReference : Injects (fun _ => True) fun reference : NamedContentRef =>
    CanonicalWriter.field 3 (utf8 reference.identity) ++
      CanonicalWriter.field 4 reference.contentHash.bytes := by
  have hreads :=
    (injects_utf8.reads (bigEndian 2 3) NamedContentRef.identity fun _ _ => trivial).append
      (injects_hash.reads (bigEndian 2 4) NamedContentRef.contentHash
        fun (_ : NamedContentRef) (_ : True) => trivial)
  refine (hreads.separable fun a b _ _ h => ?_).injects
  cases a
  cases b
  simp_all

/-- The kind of a reference stands in front of its fields. -/
theorem canonicalBytes_named (reference : NamedContentRef) :
    FormalInputReference.canonicalBytes (.named reference) =
      CanonicalWriter.new "formal-input-reference/v1" ++ CanonicalWriter.field 2 [2] ++
        (CanonicalWriter.field 3 (utf8 reference.identity) ++
          CanonicalWriter.field 4 reference.contentHash.bytes) := by
  simp only [FormalInputReference.canonicalBytes, List.append_assoc]

/-- **References.** The kind in front tells the two sorts apart, and the fields what is of one
    sort. -/
theorem injects_reference : Injects (fun _ => True) FormalInputReference.canonicalBytes := by
  -- the byte that says which kind of reference follows
  have hkind : ∀ (s t : UInt8) (x y : List UInt8),
      CanonicalWriter.new "formal-input-reference/v1" ++ CanonicalWriter.field 2 [s] ++ x =
        CanonicalWriter.new "formal-input-reference/v1" ++ CanonicalWriter.field 2 [t] ++ y →
      s = t ∧ x = y := by
    intro s t x y h
    obtain ⟨hhead, htail⟩ := List.append_inj h (by simp [CanonicalWriter.field, taggedField])
    have hfield := List.append_cancel_left hhead
    simp [CanonicalWriter.field, taggedField] at hfield
    exact ⟨hfield, htail⟩
  intro a b _ _ la lb heq
  cases a with
  | object r =>
    cases b with
    | object s =>
      simp only [FormalInputReference.canonicalBytes, List.length_append] at la lb
      have hseparable := injects_objectReference.taggedField (bigEndian 2 3)
      rw [hseparable.inj trivial trivial (lt_of_le_of_lt (Nat.le_add_left _ _) la)
        (lt_of_le_of_lt (Nat.le_add_left _ _) lb) (hkind _ _ _ _ heq).2]
    | named s =>
      rw [canonicalBytes_named] at heq
      exact absurd (hkind _ _ _ _ heq).1 (by decide)
  | named r =>
    cases b with
    | object s =>
      rw [canonicalBytes_named] at heq
      exact absurd (hkind _ _ _ _ heq).1 (by decide)
    | named s =>
      rw [canonicalBytes_named, List.length_append] at la lb
      rw [canonicalBytes_named, canonicalBytes_named] at heq
      rw [injects_namedReference r s trivial trivial (lt_of_le_of_lt (Nat.le_add_left _ _) la)
        (lt_of_le_of_lt (Nat.le_add_left _ _) lb) (hkind _ _ _ _ heq).2]

theorem FormalInputKind.code_injective : Function.Injective FormalInputKind.code := by
  intro a b h
  cases a <;> cases b <;> first | rfl | cases h

/-- A kind is one byte, its code. -/
theorem injects_kind :
    Injects (fun _ => True) fun kind : FormalInputKind => bigEndian 1 kind.code := by
  intro a b _ _ _ _ h
  have hsmall : ∀ kind : FormalInputKind, kind.code < 256 ^ 1 := by
    intro kind
    cases kind <;> decide
  exact FormalInputKind.code_injective (bigEndian_inj (hsmall a) (hsmall b) h)

/-- **Input bindings.** Every field is tagged; the times may be missing. -/
theorem injects_inputBinding : Injects (fun _ => True) FormalInputBinding.canonicalBytes := by
  -- The fields in the order in which they are written, each behind its tag.
  have hreads := ((((((((Reads.tag (fun _ : FormalInputBinding => True)
    (CanonicalWriter.new "formal-input-binding/v1")).append
    (injects_utf8.reads (bigEndian 2 2) (fun b : FormalInputBinding => b.role)
      fun _ _ => trivial)).append
    (injects_kind.reads (bigEndian 2 3) (fun b : FormalInputBinding => b.kind)
      fun _ _ => trivial)).append
    (injects_owner.reads (bigEndian 2 4) (fun b : FormalInputBinding => b.owner)
      fun _ _ => trivial)).append
    (injects_reference.reads (bigEndian 2 5) (fun b : FormalInputBinding => b.reference)
      fun _ _ => trivial)).append
    (injects_optionalTime.reads (bigEndian 2 6) (fun b : FormalInputBinding => b.observedAt)
      fun _ _ => trivial)).append
    (injects_optionalTime.reads (bigEndian 2 7) (fun b : FormalInputBinding => b.visibleAt)
      fun _ _ => trivial)).append
    (injects_optionalTime.reads (bigEndian 2 8) (fun b : FormalInputBinding => b.effectiveFrom)
      fun _ _ => trivial)).append
    (injects_optionalTime.reads (bigEndian 2 9) (fun b : FormalInputBinding => b.effectiveTo)
      fun _ _ => trivial)
  refine (hreads.separable fun a b _ _ h => ?_).injects
  obtain ⟨⟨⟩, _⟩ := a
  obtain ⟨⟨⟩, _⟩ := b
  simp_all

/-- A code is told apart by its commit, its tree and their digest. -/
theorem injects_codeBinding : Injects (fun _ => True) CodeBinding.canonicalBytes := by
  have hreads := (((Reads.tag (fun _ : CodeBinding => True)
    (CanonicalWriter.new "code-binding/v1")).append
    (injects_utf8.reads (bigEndian 2 2) CodeBinding.gitCommitSha fun _ _ => trivial)).append
    (injects_utf8.reads (bigEndian 2 3) CodeBinding.gitTreeSha fun _ _ => trivial)).append
    (injects_hash.reads (bigEndian 2 4) CodeBinding.digest fun _ _ => trivial)
  refine (hreads.separable fun a b _ _ h => ?_).injects
  cases a
  cases b
  simp_all

/-- A runtime is told apart by its image and its environment. -/
theorem injects_runtimeBinding : Injects (fun _ => True) RuntimeBinding.canonicalBytes := by
  have hreads := ((Reads.tag (fun _ : RuntimeBinding => True)
    (CanonicalWriter.new "runtime-binding/v1")).append
    (injects_hash.reads (bigEndian 2 2) RuntimeBinding.imageDigest fun _ _ => trivial)).append
    (injects_hash.reads (bigEndian 2 3) RuntimeBinding.environmentDigest fun _ _ => trivial)
  refine (hreads.separable fun a b _ _ h => ?_).injects
  cases a
  cases b
  simp_all

/-- An implementation is told apart by its role and its digest. -/
theorem injects_implementationBinding :
    Injects (fun _ => True) FormalImplementationBinding.canonicalBytes := by
  have hreads := ((Reads.tag (fun _ : FormalImplementationBinding => True)
    (CanonicalWriter.new "formal-implementation-binding/v1")).append
    (injects_utf8.reads (bigEndian 2 2) FormalImplementationBinding.role
      fun _ _ => trivial)).append
    (injects_hash.reads (bigEndian 2 3) FormalImplementationBinding.digest fun _ _ => trivial)
  refine (hreads.separable fun a b _ _ h => ?_).injects
  cases a
  cases b
  simp_all

/-- A list of records, each in a field of its own, behind a field with their number. -/
theorem separable_recordList {α : Type} {write : α → List UInt8} (h : Injects (fun _ => True) write)
    (countTag tag : ℕ) : Separable (fun _ => True) fun l : List α =>
      CanonicalWriter.u64 countTag l.length ++
        l.flatMap fun a => CanonicalWriter.field tag (write a) :=
  (separable_counted ((injects_bigEndian 8).taggedField (bigEndian 2 countTag))
    (h.taggedField (bigEndian 2 tag)) fun _ => taggedField_ne_nil _ _).mono fun _ _ _ _ => trivial

/-- What the source's types say of evidence: a 64-bit seed, and a preimage that is short enough for
    the 64-bit lengths in it. -/
structure FormalOutputEvidenceInput.Encodable (evidence : FormalOutputEvidenceInput) : Prop where
  seed : ∀ seed ∈ evidence.seed, seed < 2 ^ 64
  length : evidence.identityBytes.length < lengthLimit

/-- **The preimage of an output identity determines the evidence.** -/
theorem FormalOutputEvidenceInput.identityBytes_inj {a b : FormalOutputEvidenceInput}
    (ha : a.Encodable) (hb : b.Encodable) (h : a.identityBytes = b.identityBytes) : a = b := by
  -- The fields in the order in which they are written, each behind its tag.
  have hreads := (((((((((Reads.tag
    (fun e : FormalOutputEvidenceInput => ∀ seed ∈ e.seed, seed < 2 ^ 64)
    (CanonicalWriter.new "ficant/formal-output-evidence/v1")).append
    (injects_utf8.reads (bigEndian 2 2) FormalOutputEvidenceInput.schemaId
      fun _ _ => trivial)).append
    (injects_inputBinding.reads (bigEndian 2 3) FormalOutputEvidenceInput.subject
      fun _ _ => trivial)).append
    ((separable_recordList injects_inputBinding 4 5).reads FormalOutputEvidenceInput.consumedInputs
      fun _ _ => trivial)).append
    (injects_codeBinding.reads (bigEndian 2 6) FormalOutputEvidenceInput.code
      fun _ _ => trivial)).append
    (injects_runtimeBinding.reads (bigEndian 2 7) FormalOutputEvidenceInput.runtime
      fun _ _ => trivial)).append
    ((separable_recordList injects_implementationBinding 8 9).reads
      FormalOutputEvidenceInput.implementations fun _ _ => trivial)).append
    (injects_hash.reads (bigEndian 2 10) FormalOutputEvidenceInput.parametersHash
      fun _ _ => trivial)).append
    (injects_optionalU64.reads (bigEndian 2 11) FormalOutputEvidenceInput.seed
      fun _ h => h)).append
    (injects_hash.reads (bigEndian 2 12) FormalOutputEvidenceInput.resultHash fun _ _ => trivial)
  refine (hreads.separable fun a b _ _ h => ?_).inj ha.seed hb.seed ha.length hb.length h
  cases a
  cases b
  simp_all

/-! ### Reproducibility identities -/

/-- The identity of a run writes hashes without a length, since all have thirty-two bytes. -/
theorem separable_contentHash : Separable (fun _ => True) ContentHash.bytes :=
  separable_of_length ContentHash.length_eq fun a b _ _ h =>
    injects_hash a b trivial trivial (by rw [a.length_eq]; decide) (by rw [b.length_eq]; decide) h

/-- A version takes eight bytes. -/
theorem separable_version : Separable (fun _ => True) fun v : Version => bigEndian 8 v.value :=
  ((separable_bigEndian 8).comap Version.value fun _ _ h => Version.value_injective h).mono
    fun v _ => v.fits

theorem separable_ulidText : Separable (fun _ => True) fun id : Ulid => prefixedText id.text :=
  separable_prefixedText.comap Ulid.text fun _ _ h => Ulid.text_injective h

/-- A type is told apart by its name, its version and its schema. -/
theorem separable_typedValue : Separable (fun _ => True) ResearchGraph.typedValueBytes := by
  have hreads := ((separable_prefixedText.reads TypedValue.typeId
    fun (_ : TypedValue) (_ : True) => trivial).append
    (separable_version.reads TypedValue.typeVersion fun _ _ => trivial)).append
    (separable_contentHash.reads TypedValue.schemaHash fun _ _ => trivial)
  refine hreads.separable fun a b _ _ h => ?_
  cases a
  cases b
  simp_all

/-- What the identity of a run binds of an external input. -/
def ExecutionExternalInput.bound (input : ExecutionExternalInput) :
    String × TypedValue × ContentHash :=
  (input.inputId, input.valueType, input.contentHash)

/-- The bytes of a bound input. -/
def boundBytes (bound : String × TypedValue × ContentHash) : List UInt8 :=
  prefixedText bound.1 ++ ResearchGraph.typedValueBytes bound.2.1 ++ bound.2.2.bytes

/-- What is bound of an input is told apart: its name, its type and its hash. -/
theorem separable_bound : Separable (fun _ => True) boundBytes := by
  have hreads := ((separable_prefixedText.reads Prod.fst
    fun (_ : String × TypedValue × ContentHash) (_ : True) => trivial).append
    (separable_typedValue.reads (fun b => b.2.1) fun _ _ => trivial)).append
    (separable_contentHash.reads (fun b => b.2.2) fun _ _ => trivial)
  exact hreads.separable fun a b _ _ h => by simp_all [Prod.ext_iff]

/-- A text takes eight bytes at least, so a list of what begins with one can be counted. -/
theorem prefixedText_ne_nil (s : String) (rest : List UInt8) : prefixedText s ++ rest ≠ [] := by
  intro h
  have := congrArg List.length h
  simp [prefixedText] at this

/-- Lists of values that are all told apart. -/
theorem separable_list {α : Type} {write : α → List UInt8} (h : Separable (fun _ => True) write)
    (hne : ∀ a, write a ≠ []) : Separable (fun _ => True) (writeList write) :=
  (separable_writeList h hne).mono fun _ _ _ _ => trivial

/-- The list of external inputs is read up to their payloads. -/
theorem reads_externalInputs (ok : ReproducibilityContent → Prop) :
    Reads ok
      (fun c => writeList externalInputBytes c.externalInputs)
      fun c => c.externalInputs.map ExecutionExternalInput.bound := by
  have hbytes : ∀ l : List ExecutionExternalInput, writeList externalInputBytes l =
      writeList boundBytes (l.map ExecutionExternalInput.bound) := by
    intro l
    rw [writeList, writeList, List.length_map, List.flatMap_map]
    rfl
  have hlist := separable_list separable_bound fun b => by
    rw [boundBytes, List.append_assoc]
    exact prefixedText_ne_nil _ _
  simp only [hbytes]
  exact hlist.reads
    (fun c : ReproducibilityContent => c.externalInputs.map ExecutionExternalInput.bound)
    fun _ _ => trivial

/-- A rule pack is told apart by its name, its version and its hash. -/
theorem separable_rulePack : Separable (fun _ => True) rulePackBytes := by
  have hreads := ((separable_prefixedText.reads RulePackBinding.rulePackId
    fun (_ : RulePackBinding) (_ : True) => trivial).append
    (separable_version.reads RulePackBinding.version fun _ _ => trivial)).append
    (separable_contentHash.reads RulePackBinding.contentHash fun _ _ => trivial)
  refine hreads.separable fun a b _ _ h => ?_
  cases a
  cases b
  simp_all

/-- An implementation is told apart by its node and its digest. -/
theorem separable_implementation : Separable (fun _ => True) implementationBytes := by
  have hreads := (separable_ulidText.reads NodeImplementation.nodeId
    fun (_ : NodeImplementation) (_ : True) => trivial).append
    (separable_contentHash.reads NodeImplementation.implementationDigest fun _ _ => trivial)
  refine hreads.separable fun a b _ _ h => ?_
  cases a
  cases b
  simp_all

/-- Two contents agree in everything an identity binds: in all fields, up to the payloads of
    external inputs. -/
def ReproducibilityContent.SameBound (a b : ReproducibilityContent) : Prop :=
  a.externalInputs.map ExecutionExternalInput.bound =
      b.externalInputs.map ExecutionExternalInput.bound ∧
    { a with externalInputs := [] } = { b with externalInputs := [] }

/-- What the source's types say of the content of an identity: a 64-bit seed, and a preimage that is
    short enough for the 64-bit lengths in it. -/
structure ReproducibilityContent.Encodable (c : ReproducibilityContent) : Prop where
  seed : c.seed < 2 ^ 64
  length : c.canonicalBytes.length < lengthLimit

/-- The common part of the canonical bytes binds all fields but the subject and the code. -/
theorem reads_commonBytes :
    Reads (fun c : ReproducibilityContent => c.seed < 2 ^ 64) ReproducibilityContent.commonBytes
      fun c => (c.externalInputs.map ExecutionExternalInput.bound,
        { c with externalInputs := [], subject := none, code := none }) := by
  -- The lists are sorted before they are written, each behind its length.
  have hrulePacks := separable_list separable_rulePack fun b => by
    rw [rulePackBytes, List.append_assoc]
    exact prefixedText_ne_nil _ _
  have himplementations := separable_list separable_implementation fun b => prefixedText_ne_nil _ _
  have hreads := (((((((((reads_externalInputs _).append
    (hrulePacks.reads ReproducibilityContent.rulePackBindings fun _ _ => trivial)).append
    (separable_contentHash.reads ReproducibilityContent.graphDigest fun _ _ => trivial)).append
    (separable_contentHash.reads ReproducibilityContent.dataSnapshotHash fun _ _ => trivial)).append
    (separable_contentHash.reads ReproducibilityContent.universeSnapshotHash
      fun _ _ => trivial)).append
    (separable_contentHash.reads ReproducibilityContent.parametersHash fun _ _ => trivial)).append
    (separable_contentHash.reads ReproducibilityContent.runtimeImageDigest
      fun _ _ => trivial)).append
    (separable_contentHash.reads ReproducibilityContent.environmentDigest fun _ _ => trivial)).append
    ((separable_bigEndian 8).reads ReproducibilityContent.seed fun _ h => h)).append
    (himplementations.reads ReproducibilityContent.nodeImplementations fun _ _ => trivial)
  intro a b r s ha hb la lb heq
  obtain ⟨hfields, hrest⟩ := hreads a b r s ha hb la lb heq
  refine ⟨?_, hrest⟩
  simp only [Prod.mk.injEq] at hfields
  obtain ⟨⟨⟨⟨⟨⟨⟨⟨⟨h1, h2⟩, h3⟩, h4⟩, h5⟩, h6⟩, h7⟩, h8⟩, h9⟩, h10⟩ := hfields
  simp only [h1, h2, h3, h4, h5, h6, h7, h8, h9, h10]

/-- What the common part binds, with the subject and the code, is all that is bound. -/
theorem ReproducibilityContent.sameBound_of_common {a b : ReproducibilityContent}
    (h : (a.externalInputs.map ExecutionExternalInput.bound,
        { a with externalInputs := [], subject := none, code := none }) =
      (b.externalInputs.map ExecutionExternalInput.bound,
        { b with externalInputs := [], subject := none, code := none }))
    (hsubject : a.subject = b.subject) (hcode : a.code = b.code) : a.SameBound b := by
  obtain ⟨hinputs, hrest⟩ := Prod.mk.inj h
  refine ⟨hinputs, ?_⟩
  cases a
  cases b
  simp_all

/-- The version in the magic text says whether a subject and code follow. -/
theorem magic_ne (u v : List UInt8) :
    utf8 "ficant/reproducibility-identity/v1" ++ u ≠ utf8 "ficant/reproducibility-identity/v2" ++
    v := by
  intro h
  have hlength : (utf8 "ficant/reproducibility-identity/v1").length =
      (utf8 "ficant/reproducibility-identity/v2").length := by decide +kernel
  exact absurd (utf8_inj (List.append_inj h hlength).1) (by decide)

/-- **The preimage of a reproducibility identity determines what it binds.** -/
theorem ReproducibilityContent.canonicalBytes_inj {a b : ReproducibilityContent}
    (ha : a.Encodable) (hb : b.Encodable) (hpa : a.subject.isSome = a.code.isSome)
    (hpb : b.subject.isSome = b.code.isSome) (h : a.canonicalBytes = b.canonicalBytes) :
    a.SameBound b := by
  have la := ha.length
  have lb := hb.length
  have hplain : ∀ c : ReproducibilityContent, c.subject = none → c.canonicalBytes =
      utf8 "ficant/reproducibility-identity/v1" ++ c.commonBytes := by
    intro c hc
    rw [canonicalBytes, hc]
  have hformal : ∀ (c : ReproducibilityContent) subject code, c.subject = some subject →
      c.code = some code → c.canonicalBytes = utf8 "ficant/reproducibility-identity/v2" ++
        (c.commonBytes ++ (taggedField [] subject.canonicalBytes ++
          taggedField [] code.canonicalBytes)) := by
    intro c subject code hs hc
    rw [canonicalBytes, hs, hc]
    simp only [List.append_assoc]
  -- With a subject the magic is another one, so both have one or neither has.
  cases hsa : a.subject with
  | none =>
    have hca : a.code = none := by simpa [hsa] using hpa
    rw [hplain a hsa] at la h
    cases hsb : b.subject with
    | none =>
      have hcb : b.code = none := by simpa [hsb] using hpb
      rw [hplain b hsb] at lb h
      rw [List.length_append] at la lb
      have hcommon := List.append_cancel_left h
      refine sameBound_of_common (reads_commonBytes a b [] [] ha.seed hb.seed (by omega) (by omega)
        (by rw [hcommon])).1 (hsa.trans hsb.symm) (hca.trans hcb.symm)
    | some subject =>
      obtain ⟨code, hcb⟩ := Option.isSome_iff_exists.mp (by rw [← hpb, hsb]; rfl)
      rw [hformal b subject code hsb hcb] at h
      exact absurd h (magic_ne _ _)
  | some subject =>
    obtain ⟨code, hca⟩ := Option.isSome_iff_exists.mp (by rw [← hpa, hsa]; rfl)
    rw [hformal a subject code hsa hca] at la h
    cases hsb : b.subject with
    | none =>
      rw [hplain b hsb] at h
      exact absurd h.symm (magic_ne _ _)
    | some subject' =>
      obtain ⟨code', hcb⟩ := Option.isSome_iff_exists.mp (by rw [← hpb, hsb]; rfl)
      rw [hformal b subject' code' hsb hcb] at lb h
      simp only [List.length_append] at la lb
      obtain ⟨hcommon, htail⟩ := reads_commonBytes a b _ _ ha.seed hb.seed (by omega) (by omega)
        (List.append_cancel_left h)
      obtain ⟨hsubject, hcode⟩ := injects_inputBinding.taggedField [] subject subject' _ _ trivial
        trivial (show (taggedField [] subject.canonicalBytes).length < lengthLimit by omega)
        (show (taggedField [] subject'.canonicalBytes).length < lengthLimit by omega) htail
      have hcode := (injects_codeBinding.taggedField []).inj trivial trivial
        (show (taggedField [] code.canonicalBytes).length < lengthLimit by omega)
        (show (taggedField [] code'.canonicalBytes).length < lengthLimit by omega) hcode
      exact sameBound_of_common hcommon (by rw [hsa, hsb, hsubject]) (by rw [hca, hcb, hcode])

/-! ### The order of the caller's lists -/

/-- A list sorted by a key, with a check that no two elements are the same in a coarser sense: in
    any order of the caller, the check and the list that passes it are the same. -/
theorem sorted_perm {α κ μ ν : Type} [LinearOrder κ] [DecidableEq μ] [LinearOrder ν] (key : α → κ)
    (same : α → μ) (rank : α → ν) (hsame : ∀ a b, same a = same b ↔ rank a = rank b)
    (hrank : ∀ a b, key a ≤ key b → rank a ≤ rank b) {l l' : List α} (h : l.Perm l') :
    ResearchGraph.adjacentEqual same (l.insertionSort fun a b => key a ≤ key b) =
        ResearchGraph.adjacentEqual same (l'.insertionSort fun a b => key a ≤ key b) ∧
      (ResearchGraph.adjacentEqual same (l.insertionSort fun a b => key a ≤ key b) = false →
        (l.insertionSort fun a b => key a ≤ key b) = l'.insertionSort fun a b => key a ≤ key b) := by
  have htotal : Std.Total fun a b : α => key a ≤ key b := ⟨fun a b => le_total (key a) (key b)⟩
  have htrans : IsTrans α fun a b => key a ≤ key b := ⟨fun _ _ _ => le_trans⟩
  -- the check looks at neighbours only, and the sorting brings equal ranks together
  have hdistinct : ∀ m : List α,
      ResearchGraph.adjacentEqual same (m.insertionSort fun a b => key a ≤ key b) = true ↔
        ¬(m.map rank).Nodup := by
    intro m
    have hsorted := (List.pairwise_insertionSort (fun a b => key a ≤ key b) m).imp
      fun h => hrank _ _ h
    have hcheck := any_zip_tail_iff hsorted
    rw [((List.perm_insertionSort _ m).map rank).nodup_iff] at hcheck
    rw [← hcheck, ResearchGraph.adjacentEqual]
    simp only [hsame]
  constructor
  · rw [Bool.eq_iff_iff, hdistinct, hdistinct, not_iff_not]
    exact (h.map rank).nodup_iff
  · intro hfalse
    have hnodup : (l.map rank).Nodup := by
      by_contra hbad
      rw [(hdistinct l).mpr hbad] at hfalse
      cases hfalse
    exact insertionSort_eq_of_perm _ h hnodup fun a b hab hba =>
      le_antisymm (hrank a b hab) (hrank b a hba)

/-- Evidence does not depend on the order of the inputs and implementations. -/
theorem FormalOutputEvidence.new_perm (digest : List UInt8 → ContentHash)
    {input : FormalOutputEvidenceInput} {consumed : List FormalInputBinding}
    {implementations : List FormalImplementationBinding}
    (hconsumed : input.consumedInputs.Perm consumed)
    (himplementations : input.implementations.Perm implementations) :
    new digest { input with consumedInputs := consumed, implementations := implementations } =
      new digest input := by
  obtain ⟨hcheck, hsorted⟩ := sorted_perm inputKey (fun b : FormalInputBinding => b.role)
    (fun b => b.role) (fun _ _ => Iff.rfl) (fun a b h => by
      rcases Prod.Lex.le_iff.mp h with h | h
      · exact le_of_lt h
      · exact le_of_eq h.1) hconsumed
  obtain ⟨hcheck', hsorted'⟩ := sorted_perm FormalImplementationBinding.role
    FormalImplementationBinding.role FormalImplementationBinding.role (fun _ _ => Iff.rfl)
    (fun _ _ h => h) himplementations
  simp only [new]
  congr 1
  funext _
  split
  · rfl
  by_cases hroles : ResearchGraph.adjacentEqual (fun b : FormalInputBinding => b.role)
      (input.consumedInputs.insertionSort fun a b => inputKey a ≤ inputKey b) = true
  · rw [if_pos (.inl (hcheck ▸ hroles)), if_pos (.inl hroles)]
  · rw [hsorted (by simpa using hroles), ← hcheck']
    by_cases hsame : ResearchGraph.adjacentEqual FormalImplementationBinding.role
        (input.implementations.insertionSort fun a b => a.role ≤ b.role) = true
    · rw [if_pos hsame, if_pos hsame]
    · rw [hsorted' (by simpa using hsame)]

/-- An identity does not depend on the order of the inputs, rule packs and implementations. -/
theorem ReproducibilityIdentity.build_perm (digest : List UInt8 → ContentHash)
    (graph : ResearchGraph) {input : ReproducibilityIdentityInput}
    {externalInputs : List ExecutionExternalInput} {rulePacks : List RulePackBinding}
    {implementations : List NodeImplementation} (hinputs : input.externalInputs.Perm externalInputs)
    (hrulePacks : input.rulePackBindings.Perm rulePacks)
    (himplementations : input.nodeImplementations.Perm implementations)
    (subject : Option FormalInputBinding) (code : Option CodeBinding) :
    build digest graph
        { input with
          externalInputs := externalInputs
          rulePackBindings := rulePacks
          nodeImplementations := implementations } subject code =
      build digest graph input subject code := by
  obtain ⟨hcheck₁, hsorted₁⟩ := sorted_perm ExecutionExternalInput.inputId
    ExecutionExternalInput.inputId ExecutionExternalInput.inputId (fun _ _ => Iff.rfl)
    (fun _ _ h => h) hinputs
  obtain ⟨hcheck₂, hsorted₂⟩ := sorted_perm NodeImplementation.nodeId NodeImplementation.nodeId
    NodeImplementation.nodeId (fun _ _ => Iff.rfl) (fun _ _ h => h) himplementations
  obtain ⟨hcheck₃, hsorted₃⟩ := sorted_perm RulePackBinding.key
    (fun b : RulePackBinding => (b.rulePackId, b.version))
    (fun b => toLex (b.rulePackId, b.version.value))
    (fun a b => by simp [Version.value_injective.eq_iff]) (fun a b h => by
      rw [Prod.Lex.le_iff]
      rcases Prod.Lex.le_iff.mp h with h | ⟨hid, h⟩
      · exact .inl h
      · refine .inr ⟨hid, ?_⟩
        rcases Prod.Lex.le_iff.mp h with h | h
        · exact le_of_lt h
        · exact le_of_eq h.1) hrulePacks
  have hany : ∀ p : RulePackBinding → Bool, rulePacks.any p = input.rulePackBindings.any p :=
    fun p => hrulePacks.symm.any_eq
  simp only [build, hany]
  -- where a check on neighbours fails, both sides refuse; otherwise the sorted lists are equal
  by_cases h₁ : ResearchGraph.adjacentEqual ExecutionExternalInput.inputId
      (input.externalInputs.insertionSort fun a b => a.inputId ≤ b.inputId) = true
  · simp only [inputsCover, ← hcheck₁, h₁, Bool.not_true, Bool.false_and, Bool.not_false, if_true]
  rw [hsorted₁ (by simpa using h₁)]
  split
  · rfl
  by_cases h₂ : ResearchGraph.adjacentEqual NodeImplementation.nodeId
      (input.nodeImplementations.insertionSort fun a b => a.nodeId ≤ b.nodeId) = true
  · simp only [implementationsCover, ← hcheck₂, h₂, Bool.not_true, Bool.false_and, Bool.not_false,
      if_true]
  rw [hsorted₂ (by simpa using h₂)]
  split
  · rfl
  split
  · rfl
  by_cases h₃ : ResearchGraph.adjacentEqual (fun b : RulePackBinding => (b.rulePackId, b.version))
      (input.rulePackBindings.insertionSort fun a b => a.key ≤ b.key) = true
  · rw [if_pos (hcheck₃ ▸ h₃), if_pos h₃]
  · rw [hsorted₃ (by simpa using h₃)]

/-! ### Equal digests -/

/-- An identity made by one of the public constructors, from external inputs made by theirs. -/
def ReproducibilityIdentity.Made (digest : List UInt8 → ContentHash)
    (identity : ReproducibilityIdentity) : Prop :=
  ∃ graph input, (∀ e ∈ input.externalInputs, e.contentHash = digest e.payload) ∧
    (new digest graph input = .ok identity ∨
      ∃ subject code, newFormal digest graph input subject code = .ok identity)

/-- What `build` returns: the caller's subject and code, the sorted inputs and the digest of it all. -/
theorem ReproducibilityIdentity.build_eq_ok {digest : List UInt8 → ContentHash}
    {graph : ResearchGraph} {input : ReproducibilityIdentityInput}
    {subject : Option FormalInputBinding} {code : Option CodeBinding}
    {identity : ReproducibilityIdentity} (h : build digest graph input subject code = .ok identity) :
    identity.digest = digest identity.canonicalBytes ∧ identity.subject = subject ∧
      identity.code = code ∧ ∀ e ∈ identity.externalInputs, e ∈ input.externalInputs := by
  simp only [build] at h
  split at h
  · cases h
  split at h
  · cases h
  split at h
  · cases h
  split at h
  · cases h
  obtain rfl := Except.ok.inj h
  exact ⟨rfl, rfl, rfl, fun e he => (List.mem_insertionSort _).mp he⟩

/-- **What a constructor makes**: the digest of the bytes, a subject and a code or neither, and
    external inputs with the hashes of their payloads. -/
theorem ReproducibilityIdentity.Made.spec {digest : List UInt8 → ContentHash}
    {identity : ReproducibilityIdentity} (h : identity.Made digest) :
    identity.digest = digest identity.canonicalBytes ∧
      identity.subject.isSome = identity.code.isSome ∧
      ∀ e ∈ identity.externalInputs, e.contentHash = digest e.payload := by
  obtain ⟨graph, input, hinputs, hnew | ⟨subject, code, hnew⟩⟩ := h
  · obtain ⟨hdigest, hsubject, hcode, hmem⟩ := build_eq_ok hnew
    exact ⟨hdigest, by rw [hsubject, hcode]; rfl, fun e he => hinputs e (hmem e he)⟩
  · rw [newFormal] at hnew
    split at hnew
    · cases hnew
    obtain ⟨hdigest, hsubject, hcode, hmem⟩ := build_eq_ok hnew
    exact ⟨hdigest, by rw [hsubject, hcode]; rfl, fun e he => hinputs e (hmem e he)⟩

/-- Inputs that are bound alike are the same, where the digest keeps their payloads apart. -/
theorem externalInputs_eq_of_bound {digest : List UInt8 → ContentHash}
    {l m : List ExecutionExternalInput}
    (h : l.map ExecutionExternalInput.bound = m.map ExecutionExternalInput.bound)
    (hl : ∀ e ∈ l, e.contentHash = digest e.payload) (hm : ∀ e ∈ m, e.contentHash = digest e.payload)
    (hdigest : ∀ x ∈ l, ∀ y ∈ m, NoCollision digest x.payload y.payload) : l = m := by
  induction l generalizing m with
  | nil => exact (List.map_eq_nil_iff.mp h.symm).symm
  | cons x l ih =>
    cases m with
    | nil => simp at h
    | cons y m =>
      rw [List.map_cons, List.map_cons, List.cons.injEq] at h
      obtain ⟨hid, htype⟩ := Prod.mk.inj h.1
      obtain ⟨htype, hhash⟩ := Prod.mk.inj htype
      have hpayload : x.payload = y.payload := by
        apply hdigest x List.mem_cons_self y List.mem_cons_self
        rw [← hl x List.mem_cons_self, ← hm y List.mem_cons_self, hhash]
      have hxy : x = y := by
        cases x
        cases y
        simp_all
      rw [hxy, ih h.2 (fun e he => hl e (List.mem_cons_of_mem _ he))
        (fun e he => hm e (List.mem_cons_of_mem _ he)) fun a ha b hb =>
          hdigest a (List.mem_cons_of_mem _ ha) b (List.mem_cons_of_mem _ hb)]

/-- The identity of an output is the digest of its bytes. -/
theorem FormalOutputEvidence.outputIdentity_of_new {digest : List UInt8 → ContentHash}
    {input : FormalOutputEvidenceInput} {evidence : FormalOutputEvidence}
    (h : new digest input = .ok evidence) :
    evidence.outputIdentity = digest evidence.identityBytes := by
  obtain ⟨_, -, h⟩ := bind_eq_ok.mp h
  split at h
  · cases h
  simp only at h
  split at h
  · cases h
  split at h
  · cases h
  obtain rfl := Except.ok.inj h
  rfl

/-- **The preimages of runtime identities are injective and do not depend on the caller's order.**
    The bytes of a journal event, of a reproducibility identity and of formal evidence determine
    every field that is bound; with a digest that keeps the preimages in question apart, equal
    hashes mean equal content; and permuting the caller's lists changes nothing. -/
theorem identityPreimages_injective (digest : List UInt8 → ContentHash) :
    (∀ a b : RunJournalInput, a.Encodable → b.Encodable →
      a.canonicalBytes = b.canonicalBytes → a = b) ∧
    (∀ a b : RunJournal, a.verifyCanonical digest = .ok () → b.verifyCanonical digest = .ok () →
      a.input.Encodable → b.input.Encodable →
      NoCollision digest a.input.canonicalBytes b.input.canonicalBytes →
      a.eventHash = b.eventHash → a = b) ∧
    (∀ a b : ReproducibilityIdentity, a.Made digest → b.Made digest → a.Encodable → b.Encodable →
      (a.canonicalBytes = b.canonicalBytes →
        a.toReproducibilityContent.SameBound b.toReproducibilityContent) ∧
      (NoCollision digest a.canonicalBytes b.canonicalBytes →
        (∀ x ∈ a.externalInputs, ∀ y ∈ b.externalInputs, NoCollision digest x.payload y.payload) →
        a.digest = b.digest → a = b)) ∧
    (∀ (inputA inputB : FormalOutputEvidenceInput) (a b : FormalOutputEvidence),
      FormalOutputEvidence.new digest inputA = .ok a →
      FormalOutputEvidence.new digest inputB = .ok b → a.Encodable → b.Encodable →
      (a.identityBytes = b.identityBytes →
        a.toFormalOutputEvidenceInput = b.toFormalOutputEvidenceInput) ∧
      (NoCollision digest a.identityBytes b.identityBytes →
        a.outputIdentity = b.outputIdentity → a = b)) ∧
    (∀ graph (input : ReproducibilityIdentityInput) externalInputs rulePacks implementations
        subject code,
      input.externalInputs.Perm externalInputs → input.rulePackBindings.Perm rulePacks →
      input.nodeImplementations.Perm implementations →
      ReproducibilityIdentity.build digest graph
          { input with
            externalInputs := externalInputs
            rulePackBindings := rulePacks
            nodeImplementations := implementations } subject code =
        ReproducibilityIdentity.build digest graph input subject code) ∧
    (∀ (input : FormalOutputEvidenceInput) consumedInputs implementations,
      input.consumedInputs.Perm consumedInputs → input.implementations.Perm implementations →
      FormalOutputEvidence.new digest
          { input with consumedInputs := consumedInputs, implementations := implementations } =
        FormalOutputEvidence.new digest input) := by
  refine ⟨?_, ?_, ?_, ?_, ?_, ?_⟩
  · intro a b ha hb h
    exact RunJournalInput.canonicalBytes_inj ha hb h
  · intro a b ha hb hea heb hdigest h
    exact RunJournal.eq_of_eventHash ha hb hea heb hdigest h
  · intro a b hma hmb ha hb
    obtain ⟨hda, hpa, hia⟩ := hma.spec
    obtain ⟨hdb, hpb, hib⟩ := hmb.spec
    have hinj := ReproducibilityContent.canonicalBytes_inj ha hb hpa hpb
    refine ⟨hinj, fun hdigest hpayloads h => ?_⟩
    obtain ⟨hinputs, hrest⟩ := hinj (hdigest (by rw [← hda, ← hdb, h]))
    have hlist := externalInputs_eq_of_bound hinputs hia hib hpayloads
    obtain ⟨contentA, _⟩ := a
    obtain ⟨contentB, _⟩ := b
    cases contentA
    cases contentB
    simp_all
  · intro inputA inputB a b hma hmb ha hb
    have hinj := FormalOutputEvidenceInput.identityBytes_inj ha hb
    refine ⟨hinj, fun hdigest h => ?_⟩
    have hcontent := hinj (hdigest (by
      rw [← FormalOutputEvidence.outputIdentity_of_new hma,
        ← FormalOutputEvidence.outputIdentity_of_new hmb, h]))
    cases a
    cases b
    simp_all
  · intro graph input externalInputs rulePacks implementations subject code h₁ h₂ h₃
    exact ReproducibilityIdentity.build_perm digest graph h₁ h₂ h₃ subject code
  · intro input consumedInputs implementations h₁ h₂
    exact FormalOutputEvidence.new_perm digest h₁ h₂

/-! ### The identities of a small run -/

namespace SmallRun

/-- The subject of the run. -/
def subject : FormalInputBinding :=
  (FormalInputBinding.new
    { role := "subject"
      kind := .subject
      owner := ⟨tenantId, ownerId⟩
      reference := .object ⟨⟨4⟩, some .first, some (digest [4])⟩
      observedAt := none
      visibleAt := none
      effectiveFrom := none
      effectiveTo := none }).toOption.get (by decide +kernel)

def code : CodeBinding :=
  (CodeBinding.new digest "0123456789abcdef0123456789abcdef01234567"
    "76543210fedcba9876543210fedcba9876543210").toOption.get (by decide +kernel)

/-- What the run binds, with two rule packs. -/
def inputs : ReproducibilityIdentityInput :=
  { externalInputs := []
    dataSnapshotHash := digest [10]
    universeSnapshotHash := digest [11]
    parametersHash := digest [12]
    runtimeImageDigest := digest [13]
    environmentDigest := digest [14]
    seed := 0
    rulePackBindings := [⟨"fees", .first, digest [15]⟩, ⟨"tax", .first, digest [16]⟩]
    nodeImplementations := [⟨nodeId, digest [3]⟩] }

/-- The identity of the run, and that of the same run with another seed. -/
def identity : ReproducibilityIdentity :=
  (ReproducibilityIdentity.newFormal digest graph inputs subject code).toOption.get
    (by decide +kernel)

def reseeded : ReproducibilityIdentity :=
  (ReproducibilityIdentity.newFormal digest graph { inputs with seed := 1 } subject
    code).toOption.get (by decide +kernel)

/-- A snapshot that the result was computed from. -/
def consumed : FormalInputBinding :=
  (FormalInputBinding.new
    { role := "prices"
      kind := .dataSnapshot
      owner := ⟨tenantId, ownerId⟩
      reference := .object ⟨⟨5⟩, none, some (digest [10])⟩
      observedAt := some occurredAt
      visibleAt := some occurredAt
      effectiveFrom := none
      effectiveTo := none }).toOption.get (by decide +kernel)

/-- What a result was computed from, by two implementations. -/
def evidenceInput (result : List UInt8) : FormalOutputEvidenceInput :=
  { schemaId := "ficant.result.v1"
    subject
    consumedInputs := [consumed]
    code
    runtime := ⟨digest [13], digest [14]⟩
    implementations := [⟨"kernel", digest [17], by decide +kernel⟩,
      ⟨"runtime", digest [18], by decide +kernel⟩]
    parametersHash := digest [12]
    seed := some 0
    resultHash := digest result }

/-- The evidence of two results. -/
def evidence : FormalOutputEvidence :=
  (FormalOutputEvidence.new digest (evidenceInput [1])).toOption.get (by decide +kernel)

def otherEvidence : FormalOutputEvidence :=
  (FormalOutputEvidence.new digest (evidenceInput [2])).toOption.get (by decide +kernel)

theorem identity_made : identity.Made digest :=
  ⟨graph, inputs, by simp [inputs], .inr ⟨subject, code, eq_ok_get _⟩⟩

theorem reseeded_made : reseeded.Made digest :=
  ⟨graph, { inputs with seed := 1 }, by simp [inputs], .inr ⟨subject, code, eq_ok_get _⟩⟩

end SmallRun

theorem identityPreimages_injective_small :
    (SmallRun.journal.map fun event => event.input.canonicalBytes).Nodup ∧
      (SmallRun.journal.map RunJournal.eventHash).Nodup ∧
      SmallRun.identity.digest ≠ SmallRun.reseeded.digest ∧
      SmallRun.evidence.outputIdentity ≠ SmallRun.otherEvidence.outputIdentity ∧
      ReproducibilityIdentity.build SmallRun.digest SmallRun.graph
          { SmallRun.inputs with rulePackBindings := SmallRun.inputs.rulePackBindings.reverse }
          (some SmallRun.subject) (some SmallRun.code) = .ok SmallRun.identity ∧
      FormalOutputEvidence.new SmallRun.digest
          { SmallRun.evidenceInput [1] with
            implementations := (SmallRun.evidenceInput [1]).implementations.reverse } =
        .ok SmallRun.evidence := by
  obtain ⟨hbytes, hevents, hidentities, hevidence, hbuild, hnew⟩ :=
    identityPreimages_injective SmallRun.digest
  have hjournal : SmallRun.journal.Nodup := by decide +kernel
  have hencodable : ∀ event ∈ SmallRun.journal, event.input.Encodable := by
    have hsmall : ∀ event ∈ SmallRun.journal, event.input.sequence < 2 ^ 64 ∧
        event.input.canonicalBytes.length < lengthLimit := by decide +kernel
    exact fun event hevent => ⟨(hsmall event hevent).1, (hsmall event hevent).2⟩
  have hcanonical : ∀ event ∈ SmallRun.journal,
      event.verifyCanonical SmallRun.digest = .ok () := by decide +kernel
  have hnone : SmallRun.identity.externalInputs = [] := by decide +kernel
  refine ⟨?_, ?_, ?_, ?_, ?_, ?_⟩
  · refine hjournal.map_on fun a ha b hb h => ?_
    have hinput := hbytes a.input b.input (hencodable a ha) (hencodable b hb) h
    have hsame : ∀ a ∈ SmallRun.journal, ∀ b ∈ SmallRun.journal, a.input = b.input → a = b := by
      decide +kernel
    exact hsame a ha b hb hinput
  · have hcollision : ∀ a ∈ SmallRun.journal, ∀ b ∈ SmallRun.journal,
        SmallRun.digest a.input.canonicalBytes = SmallRun.digest b.input.canonicalBytes →
          a.input.canonicalBytes = b.input.canonicalBytes := by decide +kernel
    exact hjournal.map_on fun a ha b hb => hevents a b (hcanonical a ha) (hcanonical b hb)
      (hencodable a ha) (hencodable b hb) (hcollision a ha b hb)
  · intro h
    have hsame := (hidentities SmallRun.identity SmallRun.reseeded SmallRun.identity_made
      SmallRun.reseeded_made ⟨by decide +kernel, by decide +kernel⟩
      ⟨by decide +kernel, by decide +kernel⟩).2
      (fun hdigest => absurd hdigest (by decide +kernel)) (by simp [hnone]) h
    exact absurd hsame (by decide +kernel)
  · intro h
    have hsame := (hevidence (SmallRun.evidenceInput [1]) (SmallRun.evidenceInput [2])
      SmallRun.evidence SmallRun.otherEvidence (eq_ok_get _) (eq_ok_get _)
      ⟨by decide +kernel, by decide +kernel⟩ ⟨by decide +kernel, by decide +kernel⟩).2
      (fun hdigest => absurd hdigest (by decide +kernel)) h
    exact absurd hsame (by decide +kernel)
  · rw [hbuild SmallRun.graph SmallRun.inputs SmallRun.inputs.externalInputs
      SmallRun.inputs.rulePackBindings.reverse SmallRun.inputs.nodeImplementations
      (some SmallRun.subject) (some SmallRun.code) (List.Perm.refl _) (List.reverse_perm _).symm
      (List.Perm.refl _)]
    exact eq_ok_get _
  · rw [hnew (SmallRun.evidenceInput [1]) (SmallRun.evidenceInput [1]).consumedInputs
      (SmallRun.evidenceInput [1]).implementations.reverse (List.Perm.refl _)
      (List.reverse_perm _).symm]
    exact eq_ok_get _

end Ficant
