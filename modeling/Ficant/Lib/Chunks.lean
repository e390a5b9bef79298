import Ficant.Lib.Bytes

namespace Lib

/-!
# Sequences of values behind their lengths

An encoder that puts each value behind its length writes a sequence of values and nothing else: no
tag says what a value is for, and no count says where a list ends.

* `joinChunks_inj` — the bytes determine the sequence;
* `Delimited ok write` — the values written for an element can be told apart from what follows them;
* `Delimited.list` — a list without a count ends where what follows cannot start like an element;
* `lengthAt k` — the length of one of the next values, which is what tells the two apart.
-/

variable {α β ι : Type*}

/-! ### Bytes -/

/-- A value behind its length in eight bytes. -/
def chunk (value : List UInt8) : List UInt8 := bigEndian 8 value.length ++ value

/-- The bytes of a sequence of values. -/
def joinChunks (values : List (List UInt8)) : List UInt8 := values.flatMap chunk

/-- A chunk ends where the next one begins. -/
theorem separable_chunk : Separable (fun _ => True) chunk :=
  (injects_of_injective Function.injective_id).taggedField []

/-- A chunk is never empty. -/
theorem chunk_ne_nil (value : List UInt8) : chunk value ≠ [] := taggedField_ne_nil [] value

/-- **The bytes determine the sequence** of values. -/
theorem joinChunks_inj {l m : List (List UInt8)} (hl : (joinChunks l).length < lengthLimit)
    (heq : joinChunks l = joinChunks m) : l = m := by
  have hm : (joinChunks m).length < lengthLimit := heq ▸ hl
  -- the lists are equally long because each value takes at least one byte of the rest
  induction l generalizing m with
  | nil =>
    cases m with
    | nil => rfl
    | cons v m =>
      have hempty : chunk v ++ joinChunks m = [] := heq.symm
      exact absurd (List.append_eq_nil_iff.mp hempty).1 (chunk_ne_nil v)
  | cons u l ih =>
    cases m with
    | nil =>
      have hempty : chunk u ++ joinChunks l = [] := heq
      exact absurd (List.append_eq_nil_iff.mp hempty).1 (chunk_ne_nil u)
    | cons v m =>
      have hcons : chunk u ++ joinChunks l = chunk v ++ joinChunks m := heq
      have hu : (chunk u).length + (joinChunks l).length < lengthLimit := by
        rw [← List.length_append]
        exact hl
      have hv : (chunk v).length + (joinChunks m).length < lengthLimit := by
        rw [← List.length_append]
        exact hm
      obtain ⟨rfl, hrest⟩ :=
        separable_chunk u v _ _ trivial trivial (by omega) (by omega) hcons
      rw [ih (by omega) hrest (by omega)]

/-! ### Elements and lists of them -/

/-- The values written for an element determine it, and where the rest begins. -/
def Delimited (write : α → List ι) : Prop :=
  ∀ a b r s, write a ++ r = write b ++ s → a = b ∧ r = s

/-- What a delimited encoding writes determines the value. -/
theorem Delimited.inj {write : α → List ι} (h : Delimited write) {a b : α}
    (heq : write a = write b) : a = b := (h a b [] [] (by rw [heq])).1

/-- One value for each element. -/
theorem delimited_single {code : α → ι} (h : Function.Injective code) :
    Delimited fun a => [code a] := by
  intro a b r s heq
  rw [List.singleton_append, List.singleton_append, List.cons.injEq] at heq
  exact ⟨h heq.1, heq.2⟩

/-- **A list without a count** ends where what follows cannot start like an element. -/
theorem Delimited.list {write : α → List ι} (h : Delimited write) (starts : List ι → Prop)
    (hstarts : ∀ a r, starts (write a ++ r)) {l m : List α} {r s : List ι} (hr : ¬ starts r)
    (hs : ¬ starts s) (heq : l.flatMap write ++ r = m.flatMap write ++ s) : l = m ∧ r = s := by
  induction l generalizing m with
  | nil =>
    cases m with
    | nil => exact ⟨rfl, heq⟩
    | cons b m =>
      rw [List.flatMap_nil, List.nil_append, List.flatMap_cons, List.append_assoc] at heq
      exact absurd (heq ▸ hstarts b _) hr
  | cons a l ih =>
    cases m with
    | nil =>
      rw [List.flatMap_nil, List.nil_append, List.flatMap_cons, List.append_assoc] at heq
      exact absurd (heq ▸ hstarts a _) hs
    | cons b m =>
      rw [List.flatMap_cons, List.flatMap_cons, List.append_assoc, List.append_assoc] at heq
      obtain ⟨rfl, hrest⟩ := h a b _ _ heq
      obtain ⟨rfl, htail⟩ := ih hrest
      exact ⟨rfl, htail⟩

/-- Lists with equal values are equal when the values tell their elements apart. -/
theorem map_inj_of_mem {f : α → β} {l m : List α} (hinj : ∀ a ∈ l, ∀ b ∈ m, f a = f b → a = b)
    (h : l.map f = m.map f) : l = m := by
  induction l generalizing m with
  | nil => exact (List.map_eq_nil_iff.mp h.symm).symm
  | cons a l ih =>
    cases m with
    | nil => cases h
    | cons b m =>
      rw [List.map_cons, List.map_cons, List.cons.injEq] at h
      rw [hinj a List.mem_cons_self b List.mem_cons_self h.1,
        ih (fun x hx y hy => hinj x (List.mem_cons_of_mem a hx) y (List.mem_cons_of_mem b hy)) h.2]

/-- A value is no longer than the sequence it is in. -/
theorem length_le_joinChunks {value : List UInt8} {values : List (List UInt8)} (h : value ∈ values) :
    value.length ≤ (joinChunks values).length := by
  obtain ⟨before, after, rfl⟩ := List.append_of_mem h
  simp only [joinChunks, List.flatMap_append, List.flatMap_cons, List.length_append, chunk]
  omega

/-! ### The lengths of what comes next -/

/-- The length of the value at a place of the sequence. -/
def lengthAt : ℕ → List (List UInt8) → Option ℕ
  | _, [] => none
  | 0, value :: _ => some value.length
  | k + 1, _ :: values => lengthAt k values

@[simp] theorem lengthAt_nil (k : ℕ) : lengthAt k [] = none := by
  cases k <;> rfl

@[simp] theorem lengthAt_zero (value : List UInt8) (values : List (List UInt8)) :
    lengthAt 0 (value :: values) = some value.length := rfl

@[simp] theorem lengthAt_succ (k : ℕ) (value : List UInt8) (values : List (List UInt8)) :
    lengthAt (k + 1) (value :: values) = lengthAt k values := rfl

/-- An optional element behind a value that says whether there is one. -/
def writeOption (write : α → List (List UInt8)) : Option α → List (List UInt8)
  | some a => [1] :: write a
  | none => [[0]]

/-- Absence can be written beside a delimited encoding. -/
theorem Delimited.option {write : α → List (List UInt8)} (h : Delimited write) :
    Delimited (writeOption write) := by
  intro o p r s heq
  cases o with
  | none =>
    cases p with
    | none => exact ⟨rfl, (List.cons.inj heq).2⟩
    | some b => exact absurd (List.cons.inj heq).1 (by decide)
  | some a =>
    cases p with
    | none => exact absurd (List.cons.inj heq).1 (by decide)
    | some b =>
      obtain ⟨rfl, hrest⟩ := h a b r s (List.cons.inj heq).2
      exact ⟨rfl, hrest⟩

/-- A list behind the number of its elements. -/
def writeCounted (write : α → List (List UInt8)) (l : List α) : List (List UInt8) :=
  bigEndian 8 l.length :: l.flatMap write

/-- A counted list ends where its number says. -/
theorem Delimited.counted {write : α → List (List UInt8)} (h : Delimited write) {l m : List α}
    {r s : List (List UInt8)} (hl : l.length < lengthLimit) (hm : m.length < lengthLimit)
    (heq : writeCounted write l ++ r = writeCounted write m ++ s) : l = m ∧ r = s := by
  obtain ⟨hcount, hrest⟩ : bigEndian 8 l.length = bigEndian 8 m.length ∧
      l.flatMap write ++ r = m.flatMap write ++ s := List.cons.inj heq
  have hlength : l.length = m.length := bigEndian_inj hl hm hcount
  clear heq hcount
  induction l generalizing m with
  | nil =>
    obtain rfl := List.length_eq_zero_iff.mp hlength.symm
    exact ⟨rfl, hrest⟩
  | cons a l ih =>
    cases m with
    | nil => cases hlength
    | cons b m =>
      rw [List.flatMap_cons, List.flatMap_cons, List.append_assoc, List.append_assoc] at hrest
      obtain ⟨rfl, htail⟩ := h a b _ _ hrest
      rw [List.length_cons] at hl hm
      obtain ⟨rfl, hend⟩ := ih (by omega) (by omega) htail (Nat.succ.inj hlength)
      exact ⟨rfl, hend⟩

/-- A sequence has no more values than bytes. -/
theorem length_le_length_joinChunks (values : List (List UInt8)) :
    values.length ≤ (joinChunks values).length := length_le_flatMap chunk_ne_nil values

/-- A counted list in a sequence is no longer than the sequence. -/
theorem length_le_of_counted {write : α → List (List UInt8)} (hne : ∀ a, write a ≠ []) {l : List α}
    {values : List (List UInt8)} (h : (writeCounted write l).length ≤ values.length) :
    l.length ≤ (joinChunks values).length := by
  have hwritten := length_le_flatMap hne l
  have hvalues := length_le_length_joinChunks values
  rw [writeCounted, List.length_cons] at h
  omega

end Lib
