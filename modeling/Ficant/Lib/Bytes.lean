import Mathlib

namespace Lib

/-!
# Unambiguous byte encodings

Canonical encoders append fields one after another, without tags.  Two notions say that nothing is
lost on the way:

* `Separable ok write` — an encoded value can be told apart from whatever follows it;
* `Reads ok write field` — the bytes written for a record determine one of its fields, and where
  the rest begins.  `Reads.append` puts the fields of a record together.

Both are stated for encodings shorter than `2 ^ 64` bytes, which is what a 64-bit length or count
in front of a text or a list can express; `ok` collects what a value must satisfy beyond that.
-/

variable {α β γ : Type*}

/-! ### Fixed-width numbers -/

/-- The number `n` in `width` bytes, most significant first; what does not fit is cut. -/
def bigEndian : ℕ → ℕ → List UInt8
  | 0, _ => []
  | width + 1, n => bigEndian width (n / 256) ++ [UInt8.ofNat (n % 256)]

@[simp] theorem length_bigEndian (width n : ℕ) : (bigEndian width n).length = width := by
  induction width generalizing n with
  | zero => rfl
  | succ width ih => simp [bigEndian, ih]

/-- Numbers that fit are told apart by their bytes. -/
theorem bigEndian_inj {width m n : ℕ} (hm : m < 256 ^ width) (hn : n < 256 ^ width)
    (h : bigEndian width m = bigEndian width n) : m = n := by
  induction width generalizing m n with
  | zero => simp at hm hn; omega
  | succ width ih =>
    obtain ⟨hhigh, hlow⟩ := List.append_inj h (by simp)
    have hdiv : m / 256 = n / 256 :=
      ih (Nat.div_lt_of_lt_mul (by rwa [pow_succ, mul_comm] at hm))
        (Nat.div_lt_of_lt_mul (by rwa [pow_succ, mul_comm] at hn)) hhigh
    have hmod : m % 256 = n % 256 := by
      have := congrArg UInt8.toNat (List.singleton_inj.mp hlow)
      simpa using this
    rw [← Nat.div_add_mod m 256, ← Nat.div_add_mod n 256, hdiv, hmod]

/-- The number that bytes spell, most significant first. -/
def fromBigEndian (bytes : List UInt8) : ℕ := bytes.foldl (fun n b => n * 256 + b.toNat) 0

/-- A number that fits comes back from its bytes. -/
theorem fromBigEndian_bigEndian {width n : ℕ} (h : n < 256 ^ width) :
    fromBigEndian (bigEndian width n) = n := by
  induction width generalizing n with
  | zero => simp at h; simp [bigEndian, fromBigEndian, h]
  | succ width ih =>
    have hdiv : n / 256 < 256 ^ width := by
      apply Nat.div_lt_of_lt_mul
      rwa [pow_succ, mul_comm] at h
    have hhigh := ih hdiv
    unfold fromBigEndian at hhigh ⊢
    rw [bigEndian, List.foldl_append, hhigh]
    simp
    omega

/-- The last byte is the lowest one. -/
theorem fromBigEndian_concat (bytes : List UInt8) (b : UInt8) :
    fromBigEndian (bytes ++ [b]) = fromBigEndian bytes * 256 + b.toNat := by
  simp [fromBigEndian]

/-- The number of some bytes fits into as many. -/
theorem fromBigEndian_lt (bytes : List UInt8) : fromBigEndian bytes < 256 ^ bytes.length := by
  induction bytes using List.reverseRecOn with
  | nil => simp [fromBigEndian]
  | append_singleton bytes b ih =>
    have := b.toNat_lt
    rw [fromBigEndian_concat, List.length_append, List.length_singleton, pow_succ]
    omega

/-- Bytes come back from their number. -/
theorem bigEndian_fromBigEndian (bytes : List UInt8) :
    bigEndian bytes.length (fromBigEndian bytes) = bytes := by
  induction bytes using List.reverseRecOn with
  | nil => rfl
  | append_singleton bytes b ih =>
    have hlow := b.toNat_lt
    have hdiv : (fromBigEndian bytes * 256 + b.toNat) / 256 = fromBigEndian bytes := by omega
    have hmod : (fromBigEndian bytes * 256 + b.toNat) % 256 = b.toNat := by omega
    rw [List.length_append, List.length_singleton, bigEndian, fromBigEndian_concat, hdiv, hmod, ih]
    simp

/-! ### Encodings that can be told apart from what follows -/

/-- The largest length a 64-bit count expresses, plus one. -/
def lengthLimit : ℕ := 2 ^ 64

/-- An encoded value can be told apart from whatever follows it. -/
def Separable (ok : α → Prop) (write : α → List UInt8) : Prop :=
  ∀ a b r s, ok a → ok b → (write a).length < lengthLimit → (write b).length < lengthLimit →
    write a ++ r = write b ++ s → a = b ∧ r = s

/-- The bytes written for a record determine `field` of it, and where the rest begins. -/
def Reads (ok : α → Prop) (write : α → List UInt8) (field : α → β) : Prop :=
  ∀ a b r s, ok a → ok b → (write a).length < lengthLimit → (write b).length < lengthLimit →
    write a ++ r = write b ++ s → field a = field b ∧ r = s

/-- A separable encoding of a field reads that field. -/
theorem Separable.reads {ok : β → Prop} {write : β → List UInt8} (h : Separable ok write)
    {ok' : α → Prop} (field : α → β) (hok : ∀ a, ok' a → ok (field a)) :
    Reads ok' (fun a => write (field a)) field :=
  fun a b r s ha hb la lb heq => h (field a) (field b) r s (hok a ha) (hok b hb) la lb heq

/-- What is read of a part is read of the record that has the part. -/
theorem Reads.of_part {ok : β → Prop} {write : β → List UInt8} {field : β → γ}
    (h : Reads ok write field) {ok' : α → Prop} (part : α → β) (hok : ∀ a, ok' a → ok (part a)) :
    Reads ok' (fun a => write (part a)) fun a => field (part a) :=
  fun a b r s ha hb la lb heq => h (part a) (part b) r s (hok a ha) (hok b hb) la lb heq

/-- Fields written one after the other are all read. -/
theorem Reads.append {ok : α → Prop} {write₁ write₂ : α → List UInt8} {field₁ : α → β}
    {field₂ : α → γ} (h₁ : Reads ok write₁ field₁) (h₂ : Reads ok write₂ field₂) :
    Reads ok (fun a => write₁ a ++ write₂ a) fun a => (field₁ a, field₂ a) := by
  intro a b r s ha hb la lb heq
  simp only [List.length_append] at la lb
  rw [List.append_assoc, List.append_assoc] at heq
  obtain ⟨hf, hrest⟩ := h₁ a b _ _ ha hb (by omega) (by omega) heq
  obtain ⟨hg, htail⟩ := h₂ a b _ _ ha hb (by omega) (by omega) hrest
  exact ⟨Prod.ext hf hg, htail⟩

/-- Bytes that do not depend on the value, such as a tag, read nothing. -/
theorem Reads.tag (ok : α → Prop) (bytes : List UInt8) :
    Reads ok (fun _ => bytes) fun _ => () :=
  fun _ _ _ _ _ _ _ _ heq => ⟨rfl, List.append_cancel_left heq⟩

/-- A record whose fields are all read is separable. -/
theorem Reads.separable {ok : α → Prop} {write : α → List UInt8} {field : α → β}
    (h : Reads ok write field) (hinj : ∀ a b, ok a → ok b → field a = field b → a = b) :
    Separable ok write :=
  fun a b r s ha hb la lb heq =>
    have ⟨hf, hrest⟩ := h a b r s ha hb la lb heq
    ⟨hinj a b ha hb hf, hrest⟩

/-- What follows from what is read is read too. -/
theorem Reads.imp {ok : α → Prop} {write : α → List UInt8} {field : α → β} {field' : α → γ}
    (h : Reads ok write field) (himp : ∀ a b, field a = field b → field' a = field' b) :
    Reads ok write field' :=
  fun a b r s ha hb la lb heq =>
    have ⟨hf, hrest⟩ := h a b r s ha hb la lb heq
    ⟨himp a b hf, hrest⟩

/-- A separable encoding is injective. -/
theorem Separable.inj {ok : α → Prop} {write : α → List UInt8} (h : Separable ok write) {a b : α}
    (ha : ok a) (hb : ok b) (la : (write a).length < lengthLimit)
    (lb : (write b).length < lengthLimit) (heq : write a = write b) : a = b :=
  (h a b [] [] ha hb la lb (by rw [heq])).1

/-- What is told apart among more values is so among fewer. -/
theorem Separable.mono {ok ok' : α → Prop} {write : α → List UInt8} (h : Separable ok write)
    (hok : ∀ a, ok' a → ok a) : Separable ok' write :=
  fun a b r s ha hb => h a b r s (hok a ha) (hok b hb)

/-- An injective code of a separably encoded type is separable. -/
theorem Separable.comap {ok : β → Prop} {write : β → List UInt8} (h : Separable ok write)
    (code : α → β) (hinj : ∀ a b, code a = code b → a = b) :
    Separable (fun a => ok (code a)) fun a => write (code a) :=
  (h.reads code fun _ ha => ha).separable fun a b _ _ => hinj a b

/-- Encodings of one length are separable when they are injective. -/
theorem separable_of_length {ok : α → Prop} {write : α → List UInt8} {n : ℕ}
    (hlen : ∀ a, (write a).length = n) (hinj : ∀ a b, ok a → ok b → write a = write b → a = b) :
    Separable ok write := by
  intro a b r s ha hb _ _ heq
  obtain ⟨hab, hrs⟩ := List.append_inj heq ((hlen a).trans (hlen b).symm)
  exact ⟨hinj a b ha hb hab, hrs⟩

/-- Numbers of a fixed width need no length. -/
theorem separable_bigEndian (width : ℕ) :
    Separable (fun n => n < 256 ^ width) (bigEndian width) :=
  separable_of_length (length_bigEndian width) fun _ _ => bigEndian_inj

/-! ### Texts, options and lists -/

/-- The UTF-8 bytes of a text. -/
def utf8 (s : String) : List UInt8 := s.toUTF8.data.toList

/-- Texts are told apart by their bytes. -/
theorem utf8_inj {s t : String} (h : utf8 s = utf8 t) : s = t := by
  apply String.toByteArray_inj.mp
  apply ByteArray.ext
  exact Array.toList_inj.mp h

/-- The text that bytes spell in UTF-8. -/
def fromUtf8 (bytes : List UInt8) : Option String := String.fromUTF8? ⟨bytes.toArray⟩

/-- A text comes back from its bytes. -/
theorem fromUtf8_utf8 (s : String) : fromUtf8 (utf8 s) = some s := by
  have hbytes : (⟨(utf8 s).toArray⟩ : ByteArray) = s.toByteArray := by
    simp [utf8]
  rw [fromUtf8, hbytes, String.fromUTF8?, dif_pos s.isValidUTF8]
  rfl

/-- Bytes that are a text are the bytes of that text. -/
theorem utf8_of_fromUtf8 {bytes : List UInt8} {s : String} (h : fromUtf8 bytes = some s) :
    utf8 s = bytes := by
  rw [fromUtf8, String.fromUTF8?] at h
  split at h
  · obtain rfl := Option.some.inj h
    rfl
  · cases h

/-- The bytes of a text are those of its characters, one after the other. -/
theorem utf8_ofList (l : List Char) : utf8 (String.ofList l) = l.flatMap String.utf8EncodeChar := by
  show ((l.flatMap String.utf8EncodeChar).toByteArray).data.toList = _
  simp

/-- A text of ASCII characters has as many bytes. -/
theorem length_utf8_ofList {l : List Char} (h : ∀ c ∈ l, c.utf8Size = 1) :
    (utf8 (String.ofList l)).length = l.length := by
  rw [utf8_ofList, List.length_flatMap]
  have hone : l.map (fun c => (String.utf8EncodeChar c).length) = List.replicate l.length 1 := by
    rw [List.eq_replicate_iff]
    simpa using h
  rw [hone]
  simp

/-- A text behind its length in bytes. -/
def prefixedText (s : String) : List UInt8 := bigEndian 8 (utf8 s).length ++ utf8 s

/-- A text behind its length is told apart from what follows. -/
theorem separable_prefixedText : Separable (fun _ => True) prefixedText := by
  intro s t r r' _ _ ls lt heq
  simp only [prefixedText, List.length_append, length_bigEndian, lengthLimit] at ls lt
  rw [prefixedText, prefixedText, List.append_assoc, List.append_assoc] at heq
  obtain ⟨hcount, hrest⟩ := List.append_inj heq (by simp)
  have hlen : (utf8 s).length = (utf8 t).length := bigEndian_inj (by omega) (by omega) hcount
  obtain ⟨htext, hrest⟩ := List.append_inj hrest hlen
  exact ⟨utf8_inj htext, hrest⟩

/-- An optional value behind a byte that says whether there is one. -/
def writeOptional (write : α → List UInt8) : Option α → List UInt8
  | some a => 1 :: write a
  | none => [0]

/-- What is read of a value is read of an optional value. -/
theorem Reads.writeOptional {ok : α → Prop} {write : α → List UInt8} {field : α → β}
    (h : Reads ok write field) :
    Reads (fun o => ∀ a ∈ o, ok a) (Lib.writeOptional write) (Option.map field) := by
  intro o p r s ho hp lo lp heq
  cases o with
  | none =>
    cases p with
    | none => exact ⟨rfl, by simpa [Lib.writeOptional] using heq⟩
    | some b => simp [Lib.writeOptional] at heq
  | some a =>
    cases p with
    | none => simp [Lib.writeOptional] at heq
    | some b =>
      simp only [Lib.writeOptional, List.length_cons, List.cons_append, List.cons.injEq,
        true_and] at lo lp heq
      obtain ⟨hab, hrs⟩ := h a b r s (ho a rfl) (hp b rfl) (by omega) (by omega) heq
      exact ⟨congrArg some hab, hrs⟩

/-- Optional values that are written alike when there are any are written alike. -/
theorem writeOptional_congr {write : α → List UInt8} {rel : α → α → Prop} {o p : Option α}
    (h : Option.Rel rel o p) (hrel : ∀ a b, rel a b → write a = write b) :
    writeOptional write o = writeOptional write p := by
  cases h with
  | none => rfl
  | some hab => exact congrArg (List.cons 1) (hrel _ _ hab)

/-- A byte says whether the value follows. -/
theorem separable_writeOptional {ok : α → Prop} {write : α → List UInt8}
    (h : Separable ok write) : Separable (fun o => ∀ a ∈ o, ok a) (writeOptional write) := by
  have hreads : Reads ok write id := h
  exact hreads.writeOptional.separable fun a b _ _ hab => by simpa using hab

/-- A list behind its number of elements. -/
def writeList (write : α → List UInt8) (l : List α) : List UInt8 :=
  bigEndian 8 l.length ++ l.flatMap write

/-- A list is no longer than its bytes, where every value has some. -/
theorem length_le_flatMap {write : α → List β} (hne : ∀ a, write a ≠ []) (l : List α) :
    l.length ≤ (l.flatMap write).length := by
  induction l with
  | nil => simp
  | cons a rest ih =>
    have := List.length_pos_iff.mpr (hne a)
    simp only [List.flatMap_cons, List.length_cons, List.length_append]
    omega

/-- What is read of each element is read of lists of one length, element after element. -/
theorem flatMap_reads {ok : α → Prop} {write : α → List UInt8} {field : α → β}
    (h : Reads ok write field) (l m : List α) (hlen : l.length = m.length) (hl : ∀ a ∈ l, ok a)
    (hm : ∀ a ∈ m, ok a)
    (r s : List UInt8) (ll : (l.flatMap write).length < lengthLimit)
    (lm : (m.flatMap write).length < lengthLimit)
    (heq : l.flatMap write ++ r = m.flatMap write ++ s) :
    l.map field = m.map field ∧ r = s := by
  induction l generalizing m with
  | nil =>
    cases m with
    | nil => exact ⟨rfl, by simpa using heq⟩
    | cons b m => simp at hlen
  | cons a l ih =>
    cases m with
    | nil => simp at hlen
    | cons b m =>
      simp only [List.flatMap_cons, List.length_append] at ll lm
      rw [List.flatMap_cons, List.flatMap_cons, List.append_assoc, List.append_assoc] at heq
      obtain ⟨hab, hrest⟩ := h a b _ _ (hl a List.mem_cons_self) (hm b List.mem_cons_self)
        (by omega) (by omega) heq
      obtain ⟨hlm, hrs⟩ := ih m (by simpa using hlen) (fun x hx => hl x (List.mem_cons_of_mem _ hx))
        (fun x hx => hm x (List.mem_cons_of_mem _ hx)) (by omega) (by omega) hrest
      exact ⟨by rw [List.map_cons, List.map_cons, hab, hlm], hrs⟩

/-- Lists whose elements are written alike are written alike. -/
theorem writeList_congr {write : α → List UInt8} {l m : List α}
    (h : List.Forall₂ (fun a b => write a = write b) l m) : writeList write l = writeList write m := by
  have hflat : l.flatMap write = m.flatMap write := by
    induction h with
    | nil => rfl
    | cons hab _ ih => rw [List.flatMap_cons, List.flatMap_cons, hab, ih]
  rw [writeList, writeList, h.length_eq, hflat]

/-- What is read of two lists agrees when it agrees element after element. -/
theorem map_eq_map_iff_forall₂ {rel : α → α → Prop} {key : α → β} {l m : List α}
    (h : ∀ a ∈ l, ∀ b ∈ m, (key a = key b ↔ rel a b)) :
    l.map key = m.map key ↔ List.Forall₂ rel l m := by
  induction l generalizing m with
  | nil => rw [List.map_nil, List.forall₂_nil_left_iff, List.nil_eq, List.map_eq_nil_iff]
  | cons a l ih =>
    cases m with
    | nil => simp
    | cons b m =>
      have htail : ∀ c ∈ l, ∀ d ∈ m, (key c = key d ↔ rel c d) := fun c hc d hd =>
        h c (List.mem_cons_of_mem _ hc) d (List.mem_cons_of_mem _ hd)
      rw [List.map_cons, List.map_cons, List.cons.injEq, List.forall₂_cons, ih htail,
        h a List.mem_cons_self b List.mem_cons_self]

/-! ### Tagged fields -/

/-- A value behind a tag and its length in bytes. -/
def taggedField (tag value : List UInt8) : List UInt8 :=
  tag ++ bigEndian 8 value.length ++ value

/-- An encoding that tells values apart when nothing follows it. -/
def Injects (ok : α → Prop) (write : α → List UInt8) : Prop :=
  ∀ a b, ok a → ok b → (write a).length < lengthLimit → (write b).length < lengthLimit →
    write a = write b → a = b

/-- What is told apart from what follows is told apart. -/
theorem Separable.injects {ok : α → Prop} {write : α → List UInt8} (h : Separable ok write) :
    Injects ok write := fun _ _ ha hb la lb heq => h.inj ha hb la lb heq

/-- Values with bytes of their own are told apart. -/
theorem injects_of_injective {ok : α → Prop} {write : α → List UInt8}
    (h : Function.Injective write) : Injects ok write := fun _ _ _ _ _ _ heq => h heq

/-- Equal encodings are equally long, so one bound is enough. -/
theorem Injects.eq {ok : α → Prop} {write : α → List UInt8} (h : Injects ok write) {a b : α}
    (ha : ok a) (hb : ok b) (la : (write a).length < lengthLimit) (heq : write a = write b) :
    a = b := h a b ha hb la (heq ▸ la) heq

/-- Behind its length, such an encoding can be told apart from what follows. -/
theorem Injects.taggedField {ok : α → Prop} {write : α → List UInt8} (h : Injects ok write)
    (tag : List UInt8) : Separable ok fun a => taggedField tag (write a) := by
  intro a b r s ha hb la lb heq
  simp only [Lib.taggedField, List.length_append, length_bigEndian, lengthLimit] at la lb
  simp only [Lib.taggedField, List.append_assoc] at heq
  have hcount := (List.append_inj (List.append_cancel_left heq) (by simp)).1
  have hrest := (List.append_inj (List.append_cancel_left heq) (by simp)).2
  have hlength : (write a).length = (write b).length := bigEndian_inj (by omega) (by omega) hcount
  obtain ⟨hvalue, htail⟩ := List.append_inj hrest hlength
  exact ⟨h a b ha hb (by rw [lengthLimit]; omega) (by rw [lengthLimit]; omega) hvalue, htail⟩

/-- One tagged field of a record is read. -/
theorem Injects.reads {ok : β → Prop} {write : β → List UInt8} (h : Injects ok write)
    (tag : List UInt8) {ok' : α → Prop} (field : α → β) (hok : ∀ a, ok' a → ok (field a)) :
    Reads ok' (fun a => Lib.taggedField tag (write (field a))) field :=
  (h.taggedField tag).reads field hok

theorem taggedField_ne_nil (tag value : List UInt8) : taggedField tag value ≠ [] := by
  intro h
  have := congrArg List.length h
  simp [taggedField] at this

/-- A list behind a written count of its elements. -/
theorem Reads.counted {ok : α → Prop} {write : α → List UInt8} {field : α → β}
    {count : ℕ → List UInt8} (hcount : Separable (fun n => n < 2 ^ 64) count)
    (h : Reads ok write field) (hne : ∀ a, write a ≠ []) :
    Reads (fun l : List α => ∀ a ∈ l, ok a) (fun l => count l.length ++ l.flatMap write)
      (List.map field) := by
  intro l m r s hl hm ll lm heq
  have hcl := length_le_flatMap hne l
  have hcm := length_le_flatMap hne m
  simp only [List.length_append, lengthLimit] at ll lm
  rw [List.append_assoc, List.append_assoc] at heq
  obtain ⟨hlength, hrest⟩ := hcount _ _ _ _ (by omega) (by omega) (by rw [lengthLimit]; omega)
    (by rw [lengthLimit]; omega) heq
  exact flatMap_reads h l m hlength hl hm r s (by rw [lengthLimit]; omega)
    (by rw [lengthLimit]; omega) hrest

/-- **Counted lists.** The number of the values and then the values. -/
theorem separable_counted {ok : α → Prop} {write : α → List UInt8} {count : ℕ → List UInt8}
    (hcount : Separable (fun n => n < 2 ^ 64) count) (h : Separable ok write)
    (hne : ∀ a, write a ≠ []) :
    Separable (fun l : List α => ∀ a ∈ l, ok a) fun l => count l.length ++ l.flatMap write := by
  have hreads : Reads ok write id := h
  exact (hreads.counted hcount hne).separable fun a b _ _ hab => by simpa using hab

/-- What is read of each element is read of a list. -/
theorem Reads.writeList {ok : α → Prop} {write : α → List UInt8} {field : α → β}
    (h : Reads ok write field) (hne : ∀ a, write a ≠ []) :
    Reads (fun l => ∀ a ∈ l, ok a) (Lib.writeList write) (List.map field) :=
  h.counted (separable_bigEndian 8) hne

/-- A list with its number of eight bytes in front. -/
theorem separable_writeList {ok : α → Prop} {write : α → List UInt8} (h : Separable ok write)
    (hne : ∀ a, write a ≠ []) : Separable (fun l => ∀ a ∈ l, ok a) (writeList write) :=
  separable_counted (separable_bigEndian 8) h hne

/-! ### Runs of tagged fields -/

/-- Encodings that can be told apart from what follows can be put one after the other. -/
theorem flatMap_inj {ok : α → Prop} {write : α → List UInt8} (h : Separable ok write)
    (hne : ∀ a, write a ≠ []) {l m : List α} (hl : ∀ a ∈ l, ok a) (hm : ∀ a ∈ m, ok a)
    (ll : (l.flatMap write).length < lengthLimit) (heq : l.flatMap write = m.flatMap write) :
    l = m := by
  induction l generalizing m with
  | nil =>
    cases m with
    | nil => rfl
    | cons b m => exact absurd (List.append_eq_nil_iff.mp heq.symm).1 (hne b)
  | cons a l ih =>
    cases m with
    | nil => exact absurd (List.append_eq_nil_iff.mp heq).1 (hne a)
    | cons b m =>
      have lm : ((b :: m).flatMap write).length < lengthLimit := heq ▸ ll
      simp only [List.flatMap_cons, List.length_append] at ll lm
      rw [List.flatMap_cons, List.flatMap_cons] at heq
      obtain ⟨rfl, hrest⟩ := h a b _ _ (hl a List.mem_cons_self) (hm b List.mem_cons_self)
        (by omega) (by omega) heq
      have htail := ih (fun x hx => hl x (List.mem_cons_of_mem _ hx))
        (fun x hx => hm x (List.mem_cons_of_mem _ hx)) (by omega) hrest
      rw [htail]

/-- Fields behind their one-byte tags. -/
def taggedFields (fields : List (UInt8 × List UInt8)) : List UInt8 :=
  fields.flatMap fun field => taggedField [field.1] field.2

/-- A tagged field is told apart by its tag and its value. -/
theorem separable_tagged :
    Separable (fun _ => True) fun field : UInt8 × List UInt8 => taggedField [field.1] field.2 := by
  rintro ⟨t, v⟩ ⟨t', v'⟩ r s - - la lb heq
  -- the tag is the first byte; with it gone, the value stands behind its length
  obtain ⟨rfl, htail⟩ := List.cons.inj heq
  have hinjects : Injects (fun _ : List UInt8 => True) fun v => v := fun _ _ _ _ _ _ h => h
  obtain ⟨hvalue, hrest⟩ := hinjects.taggedField [t] v v' r s trivial trivial la lb heq
  exact ⟨by rw [hvalue], hrest⟩

/-- A run of tagged fields determines them. -/
theorem taggedFields_inj {fields fields' : List (UInt8 × List UInt8)}
    (hlength : (taggedFields fields).length < lengthLimit)
    (h : taggedFields fields = taggedFields fields') : fields = fields' :=
  flatMap_inj separable_tagged (fun field => taggedField_ne_nil [field.1] field.2) (by simp) (by simp)
    hlength h

/-- A value is no longer than the run of fields it stands in. -/
theorem length_le_taggedFields {fields : List (UInt8 × List UInt8)} {field : UInt8 × List UInt8}
    (h : field ∈ fields) : field.2.length ≤ (taggedFields fields).length := by
  induction fields with
  | nil => cases h
  | cons first fields ih =>
    rw [taggedFields, List.flatMap_cons, List.length_append]
    rcases List.mem_cons.mp h with rfl | h
    · simp only [taggedField, List.length_append]
      omega
    · have := ih h
      unfold taggedFields at this
      omega

/-- Fields of one tag that are followed by another tag, or by nothing, are told apart from what
    follows. -/
theorem map_tag_append_inj {tag : UInt8} {l m : List α} {write : α → List UInt8}
    {r s : List (UInt8 × List UInt8)} (hr : ∀ field ∈ r.head?, field.1 ≠ tag)
    (hs : ∀ field ∈ s.head?, field.1 ≠ tag)
    (h : (l.map fun a => (tag, write a)) ++ r = (m.map fun a => (tag, write a)) ++ s) :
    l.map write = m.map write ∧ r = s := by
  -- The induction runs over both lists: neither can end while the other still has its tag.
  induction l generalizing m with
  | nil =>
    cases m with
    | nil => exact ⟨rfl, h⟩
    | cons b m =>
      refine absurd rfl (hr (tag, write b) ?_)
      rw [show r = _ from h]
      rfl
  | cons a l ih =>
    cases m with
    | nil =>
      refine absurd rfl (hs (tag, write a) ?_)
      rw [show s = _ from h.symm]
      rfl
    | cons b m =>
      simp only [List.map_cons, List.cons_append, List.cons.injEq, Prod.mk.injEq, true_and] at h
      obtain ⟨hab, hrest⟩ := h
      obtain ⟨hlm, hrs⟩ := ih hrest
      exact ⟨by rw [List.map_cons, List.map_cons, hab, hlm], hrs⟩

end Lib
