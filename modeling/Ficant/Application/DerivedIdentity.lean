import Ficant.Application.Governance

namespace Ficant

open Lib

/-!
# Derived identities

Two functions spell the first 128 bits of a digest as an identifier: that of a native node's artifact
(`ficant-application/src/ports/phase4_execution.rs`) takes the base-32 digits of a number from behind,
that of a staged object (`ficant-storage/src/s3/staging.rs`) collects five bits at a time from the
bytes.

* `encodeValue_eq`, `groupValue_eq` — the digits that each loop writes;
* `derived_identities_exact` — both write the canonical text of the number that the bytes spell.
-/

/-- The first 16 bytes of a hash. -/
def ContentHash.prefixBytes (hash : ContentHash) : List UInt8 := hash.bytes.take 16

theorem ContentHash.length_prefixBytes (hash : ContentHash) : hash.prefixBytes.length = 16 := by
  rw [prefixBytes, List.length_take, hash.length_eq]
  rfl

/-- The number that the first 16 bytes of a hash spell. -/
def ContentHash.prefixValue (hash : ContentHash) : Fin (2 ^ 128) :=
  ⟨fromBigEndian hash.prefixBytes, by
    have hlt := fromBigEndian_lt hash.prefixBytes
    rw [hash.length_prefixBytes] at hlt
    exact lt_of_lt_of_le hlt (by norm_num)⟩

theorem ContentHash.prefixValue_inj {a b : ContentHash} :
    a.prefixValue = b.prefixValue ↔ a.prefixBytes = b.prefixBytes := by
  constructor
  · intro h
    have hvalue : fromBigEndian a.prefixBytes = fromBigEndian b.prefixBytes := congrArg Fin.val h
    rw [← bigEndian_fromBigEndian a.prefixBytes, ← bigEndian_fromBigEndian b.prefixBytes, hvalue,
      a.length_prefixBytes, b.length_prefixBytes]
  · intro h
    apply Fin.ext
    show fromBigEndian a.prefixBytes = fromBigEndian b.prefixBytes
    rw [h]

/-! ### Digits from behind -/

/-- One turn of the loop of `stable_node_artifact_id`: what is encoded so far, and the rest of the
    value. -/
def encodeDigit (state : List Char × ℕ) (position : ℕ) : List Char × ℕ :=
  (state.1.set position (Ulid.alphabet.getD (state.2 &&& 31) '0'), state.2 >>> 5)

/-- The loop of `stable_node_artifact_id`. -/
def encodeValue (value : ℕ) : List Char :=
  ((List.range 26).reverse.foldl encodeDigit (List.replicate 26 '0', value)).1

/-- `stable_node_artifact_id`; the error is where the source panics. -/
def stableNodeArtifactId (digest : List UInt8 → ContentHash) (reproducibilityDigest : ContentHash)
    (nodeId : Ulid) : Except DomainErrorCode Ulid :=
  let bytes := utf8 "ficant/native-node-artifact-id/v1" ++ reproducibilityDigest.bytes ++
    utf8 nodeId.text
  Ulid.new (String.ofList (encodeValue (fromBigEndian (digest bytes).prefixBytes)))

/-- From the last position to the first the loop writes the digits of the value. -/
theorem foldl_encodeDigit (count value : ℕ) {encoded : List Char} (h : count ≤ encoded.length) :
    ((List.range count).reverse.foldl encodeDigit (encoded, value)).1 =
      ((Ulid.base32 count value).map fun d => Ulid.alphabet.getD d '0') ++ encoded.drop count := by
  induction count generalizing value encoded with
  | zero => rfl
  | succ count ih =>
    rw [List.range_succ, List.reverse_append, List.reverse_singleton, List.singleton_append,
      List.foldl_cons]
    -- One turn writes the low five bits at `count` and keeps the rest of the value.
    have hdigit : value &&& 31 = value % 32 := Nat.and_two_pow_sub_one_eq_mod value 5
    have hrest : value >>> 5 = value / 32 := Nat.shiftRight_eq_div_pow value 5
    have hdrop : (encoded.set count (Ulid.alphabet.getD (value % 32) '0')).drop count =
        Ulid.alphabet.getD (value % 32) '0' :: encoded.drop (count + 1) := by
      rw [List.drop_eq_getElem_cons (by rw [List.length_set]; exact h), List.getElem_set_self,
        List.drop_set_of_lt (Nat.lt_succ_self count)]
    have hlength : count ≤ (encoded.set count (Ulid.alphabet.getD (value % 32) '0')).length := by
      rw [List.length_set]
      omega
    have hturn : encodeDigit (encoded, value) count =
        (encoded.set count (Ulid.alphabet.getD (value % 32) '0'), value / 32) := by
      rw [encodeDigit, hdigit, hrest]
    -- The turns below `count` write left of it, so the digits already there are kept.
    rw [hturn, ih _ hlength, hdrop, Ulid.base32, List.map_append, List.append_assoc]
    rfl

/-- **The loop writes the canonical text.** -/
theorem encodeValue_eq (value : Fin (2 ^ 128)) :
    String.ofList (encodeValue value) = (⟨value⟩ : Ulid).text := by
  rw [encodeValue, foldl_encodeDigit 26 _ (by simp), List.drop_of_length_le (by simp),
    List.append_nil]
  rfl

/-! ### Five bits at a time -/

/-- One turn of the inner loop of `ulid_from_hash`: the next bit of a group, where the first two bits
    of all are padding. -/
def groupBit (source : List UInt8) (group : ℕ) (value : UInt8) (offset : ℕ) : UInt8 :=
  let value := value <<< 1
  let paddedBit := group * 5 + offset
  if 2 ≤ paddedBit then
    let sourceBit := paddedBit - 2
    let byte := source.getD (sourceBit / 8) 0
    value ||| ((byte >>> UInt8.ofNat (7 - sourceBit % 8)) &&& 1)
  else value

/-- The inner loop of `ulid_from_hash`. -/
def groupValue (source : List UInt8) (group : ℕ) : UInt8 :=
  (List.range 5).foldl (groupBit source group) 0

/-- The outer loop of `ulid_from_hash`. -/
def encodeGroups (source : List UInt8) : List Char :=
  (List.range 26).map fun group => Ulid.alphabet.getD (groupValue source group).toNat '0'

/-- `ulid_from_hash`. -/
def ulidFromHash (hash : ContentHash) : Except ApplicationError Ulid :=
  (Ulid.new (String.ofList (encodeGroups hash.prefixBytes))).mapError mapDomainError

/-- A byte of a number. -/
theorem fromBigEndian_getElem (bytes : List UInt8) {k : ℕ} (hk : k < bytes.length) :
    fromBigEndian bytes / 256 ^ (bytes.length - 1 - k) % 256 = bytes[k].toNat := by
  induction bytes using List.reverseRecOn with
  | nil => exact absurd hk (by simp)
  | append_singleton bytes b ih =>
    have hb := b.toNat_lt
    rw [fromBigEndian_concat]
    simp only [List.length_append, List.length_singleton, Nat.add_sub_cancel]
    rcases Nat.lt_or_ge k bytes.length with hlt | hge
    · rw [List.getElem_append_left hlt, ← ih hlt]
      have hpow : bytes.length - k = (bytes.length - 1 - k) + 1 := by omega
      rw [hpow, pow_succ', ← Nat.div_div_eq_div_mul]
      congr 2
      omega
    · obtain rfl : k = bytes.length := by
        rw [List.length_append, List.length_singleton] at hk
        omega
      rw [Nat.sub_self, pow_zero, Nat.div_one, List.getElem_concat_length rfl]
      omega

/-- A bit of a byte is a bit of the number. -/
theorem bit_of_source {source : List UInt8} (hlength : source.length = 16) {bit : ℕ}
    (hbit : bit < 128) :
    ((source.getD (bit / 8) 0 >>> UInt8.ofNat (7 - bit % 8)) &&& 1).toNat =
      fromBigEndian source / 2 ^ (127 - bit) % 2 := by
  have hindex : bit / 8 < source.length := by omega
  have hbyte := fromBigEndian_getElem source hindex
  rw [hlength] at hbyte
  have hshift : (UInt8.ofNat (7 - bit % 8)).toNat = 7 - bit % 8 := by
    rw [UInt8.toNat_ofNat']
    omega
  rw [List.getD_eq_getElem _ _ hindex, UInt8.toNat_and, UInt8.toNat_shiftRight, hshift, ← hbyte]
  show _ &&& 1 = _
  have hmod : (7 - bit % 8) % 8 = 7 - bit % 8 := by omega
  rw [hmod, Nat.and_one_is_mod, Nat.shiftRight_eq_div_pow]
  -- the byte counts 256 ^ (15 - bit / 8), and its bits lie below 2 ^ 8
  have hexponent : 127 - bit = 8 * (15 - bit / 8) + (7 - bit % 8) := by omega
  have hbase : (256 : ℕ) ^ (16 - 1 - bit / 8) = 2 ^ (8 * (15 - bit / 8)) := by
    rw [pow_mul]
    norm_num
  rw [hbase, hexponent, pow_add, ← Nat.div_div_eq_div_mul]
  generalize fromBigEndian source / 2 ^ (8 * (15 - bit / 8)) = rest
  obtain ⟨j, hj, hsub⟩ : ∃ j, j < 8 ∧ 7 - bit % 8 = j := ⟨_, by omega, rfl⟩
  rw [hsub]
  interval_cases j <;> omega

/-- After some turns the value is the number above the next bit, as far as there are turns. -/
theorem foldl_groupBit {source : List UInt8} (hlength : source.length = 16) {group : ℕ}
    (hgroup : group < 26) {turns : ℕ} (hturns : turns ≤ 5) :
    ((List.range turns).foldl (groupBit source group) 0).toNat =
      fromBigEndian source / 2 ^ (130 - 5 * group - turns) % 2 ^ turns := by
  have hlt : fromBigEndian source < 2 ^ 128 := by
    have := fromBigEndian_lt source
    rw [hlength] at this
    exact lt_of_lt_of_le this (by norm_num)
  induction turns with
  | zero => simp [Nat.mod_one]
  | succ turns ih =>
    rw [List.range_succ, List.foldl_append, List.foldl_cons, List.foldl_nil]
    have hvalue := ih (by omega)
    generalize (List.range turns).foldl (groupBit source group) 0 = value at hvalue
    obtain ⟨m, hm⟩ : ∃ m, 130 - 5 * group - turns = m + 1 := ⟨129 - 5 * group - turns, by omega⟩
    have hnext : 130 - 5 * group - (turns + 1) = m := by omega
    rw [hm, pow_succ, ← Nat.div_div_eq_div_mul] at hvalue
    rw [hnext]
    -- the digit of the next bit, which is zero where there is only padding
    have hbit : (groupBit source group value turns).toNat =
        2 * value.toNat + fromBigEndian source / 2 ^ m % 2 := by
      have hsmall : value.toNat < 16 := by
        rw [hvalue]
        refine lt_of_lt_of_le (Nat.mod_lt _ (by positivity)) ?_
        exact Nat.pow_le_pow_right (by decide) (show turns ≤ 4 by omega)
      have hdouble : (value <<< 1).toNat = 2 * value.toNat := by
        rw [UInt8.toNat_shiftLeft]
        show value.toNat <<< 1 % 256 = _
        rw [Nat.shiftLeft_eq]
        omega
      unfold groupBit
      simp only
      split
      · have hsource := @bit_of_source _ hlength (group * 5 + turns - 2) (by omega)
        rw [show 127 - (group * 5 + turns - 2) = m by omega] at hsource
        rw [UInt8.toNat_or, hsource, hdouble]
        have hor : ∀ v < 16, ∀ b < 2, 2 * v ||| b = 2 * v + b := by decide
        exact hor _ hsmall _ (Nat.mod_lt _ (by decide))
      · have hzero : fromBigEndian source / 2 ^ m = 0 := by
          rw [Nat.div_eq_zero_iff]
          refine .inr (lt_of_lt_of_le hlt (Nat.pow_le_pow_right (by decide) (by omega)))
        rw [hdouble, hzero]
        omega
    rw [hbit, hvalue, pow_succ', Nat.mod_mul]
    omega

/-- A digit of a number, counted from the first. -/
theorem base32_eq_map (count value : ℕ) :
    Ulid.base32 count value = (List.range count).map fun k => value / 32 ^ (count - 1 - k) % 32 := by
  induction count generalizing value with
  | zero => rfl
  | succ count ih =>
    rw [Ulid.base32, ih, List.range_succ, List.map_append, List.map_singleton]
    congr 1
    · apply List.map_congr_left
      intro k hk
      rw [List.mem_range] at hk
      rw [Nat.div_div_eq_div_mul, ← pow_succ', show count - 1 - k + 1 = count + 1 - 1 - k by omega]
    · rw [Nat.add_sub_cancel, Nat.sub_self, pow_zero, Nat.div_one]

/-- **The groups spell the canonical text** as well. -/
theorem encodeGroups_eq (hash : ContentHash) :
    String.ofList (encodeGroups hash.prefixBytes) = (⟨hash.prefixValue⟩ : Ulid).text := by
  rw [Ulid.text, base32_eq_map, List.map_map, encodeGroups]
  congr 1
  apply List.map_congr_left
  intro group hgroup
  rw [List.mem_range] at hgroup
  show _ = Ulid.alphabet.getD _ '0'
  rw [groupValue, foldl_groupBit hash.length_prefixBytes hgroup le_rfl]
  have hpow : 2 ^ (130 - 5 * group - 5) = 32 ^ (26 - 1 - group) := by
    rw [show 130 - 5 * group - 5 = 5 * (26 - 1 - group) by omega, pow_mul]
    norm_num
  rw [hpow]
  rfl

/-- **Derived identities.**  Whatever the digest, both functions return the identifier that the first
    128 bits spell: reading the digits of its text back gives these bits as a number, and other bits
    give another text. -/
theorem derived_identities_exact :
    (∀ (digest : List UInt8 → ContentHash) (reproducibilityDigest : ContentHash) (nodeId : Ulid),
      ∃ hash, hash = digest (utf8 "ficant/native-node-artifact-id/v1" ++ reproducibilityDigest.bytes ++
          utf8 nodeId.text) ∧
        stableNodeArtifactId digest reproducibilityDigest nodeId = .ok ⟨hash.prefixValue⟩) ∧
    (∀ hash, ulidFromHash hash = .ok ⟨hash.prefixValue⟩) ∧
    (∀ hash : ContentHash,
      ((encodeValue (fromBigEndian hash.prefixBytes)).mapM Ulid.digitOf).map Ulid.ofDigits =
        some (fromBigEndian hash.prefixBytes) ∧
      ((encodeGroups hash.prefixBytes).mapM Ulid.digitOf).map Ulid.ofDigits =
        some (fromBigEndian hash.prefixBytes)) ∧
    (∀ a b : ContentHash, a.prefixBytes ≠ b.prefixBytes →
      encodeValue (fromBigEndian a.prefixBytes) ≠ encodeValue (fromBigEndian b.prefixBytes) ∧
      encodeGroups a.prefixBytes ≠ encodeGroups b.prefixBytes) := by
  have hvalue : ∀ hash : ContentHash, String.ofList (encodeValue (fromBigEndian hash.prefixBytes)) =
      (⟨hash.prefixValue⟩ : Ulid).text := fun hash => encodeValue_eq hash.prefixValue
  -- the text is that of the identifier, and its digits are those of the number
  have hread : ∀ (hash : ContentHash) (l : List Char),
      String.ofList l = (⟨hash.prefixValue⟩ : Ulid).text →
      (l.mapM Ulid.digitOf).map Ulid.ofDigits = some (fromBigEndian hash.prefixBytes) := by
    intro hash l hl
    have hlist : l = (Ulid.base32 26 hash.prefixValue).map fun d => Ulid.alphabet.getD d '0' :=
      String.ofList_injective hl
    have hlt : (hash.prefixValue : ℕ) < 32 ^ 26 := lt_of_lt_of_le hash.prefixValue.isLt (by norm_num)
    rw [hlist, Ulid.mapM_digitOf Ulid.base32_lt, Option.map_some, Ulid.ofDigits_base32 hlt]
    rfl
  have hdistinct : ∀ a b : ContentHash, a.prefixBytes ≠ b.prefixBytes → ∀ l m : List Char,
      String.ofList l = (⟨a.prefixValue⟩ : Ulid).text →
      String.ofList m = (⟨b.prefixValue⟩ : Ulid).text → l ≠ m := by
    intro a b hne l m hl hm heq
    rw [heq, hm] at hl
    have hids := Ulid.text_injective hl
    rw [Ulid.mk.injEq, ContentHash.prefixValue_inj] at hids
    exact hne hids.symm
  refine ⟨?_, ?_, ?_, ?_⟩
  · intro digest reproducibilityDigest nodeId
    refine ⟨_, rfl, ?_⟩
    rw [stableNodeArtifactId]
    simp only [hvalue, Ulid.new_text]
  · intro hash
    rw [ulidFromHash, encodeGroups_eq, Ulid.new_text]
    rfl
  · exact fun hash => ⟨hread hash _ (hvalue hash), hread hash _ (encodeGroups_eq hash)⟩
  · exact fun a b hne => ⟨hdistinct a b hne _ _ (hvalue a) (hvalue b),
      hdistinct a b hne _ _ (encodeGroups_eq a) (encodeGroups_eq b)⟩

end Ficant
