import Ficant.Lib.Bytes
import Ficant.Lib.Except

namespace Lib

/-!
# Readers over what is left of a byte string

A reader takes bytes from the front of what is left, or fails, or stops the program where a slice is
split behind its end or an index is out of range.

* `Reader.Safe` — a reader that never stops the program, that leaves an end of what was there, and that
  does not look at what it leaves;
* `Reader.Reads` — a reader that reads an encoding as its value, whatever follows;
* `Failure` — the errors of a reader that calls what may panic.

Sizes are 64-bit numbers, so that a byte string has fewer than `2 ^ 64` bytes.
-/

variable {ε α β : Type}

/-- Why a reader fails: it refuses what it reads, or a call that it makes panics. -/
inductive Failure (ε : Type)
  | refused (error : ε)
  | panicked

instance : Coe ε (Failure ε) := ⟨.refused⟩

/-- A reader; `none` stops the program. -/
def Reader (ε α : Type) := List UInt8 → Option (Except ε (α × List UInt8))

namespace Reader

/-- One reader, and another one on what it leaves. -/
def andThen (p : Reader ε α) (f : α → Reader ε β) : Reader ε β := fun s =>
  match p s with
  | none => none
  | some (.error failure) => some (.error failure)
  | some (.ok (a, rest)) => f a rest

instance : Monad (Reader ε) where
  pure a := fun s => some (.ok (a, s))
  bind := andThen

/-- A reader that fails. -/
def fail (failure : ε) : Reader ε α := fun _ => some (.error failure)

/-- The end of the program, where no bytes are left to read. -/
def stop : Reader ε α := fun _ => none

/-- A value computed without reading, or refused. -/
def lift (e : Except ε α) : Reader ε α := fun s => some (e.map fun a => (a, s))

/-- What a call that may panic makes of what was read; `refuse` maps its errors. -/
def attempt {δ : Type} (refuse : δ → ε) (result : Option (Except δ α)) : Reader (Failure ε) α :=
  lift (answered .panicked (fun error => .refused (refuse error)) result)

/-- `split_at`, which stops the program behind the end. -/
def splitAt (length : ℕ) (bytes : List UInt8) : Option (List UInt8 × List UInt8) :=
  if length ≤ bytes.length then some (bytes.take length, bytes.drop length) else none

/-- Takes the next `length` bytes, or fails where there are fewer. -/
def take (failure : ε) (length : ℕ) : Reader ε (List UInt8) := fun s =>
  if s.length < length then some (.error failure) else (splitAt length s).map .ok

/-- The first byte of a slice; the index stops the program where there is none. -/
def firstByte (bytes : List UInt8) : Reader ε UInt8 :=
  match bytes[0]? with
  | some byte => pure byte
  | none => stop

/-- A number of one byte. -/
def u8 (failure : ε) : Reader ε ℕ := do
  let bytes ← take failure 1
  let byte ← firstByte bytes
  pure byte.toNat

/-- The bytes of a number of a fixed size, converted to an array of that size. -/
def array (failure : ε) (width : ℕ) : Reader ε (List UInt8) := do
  let bytes ← take failure width
  if bytes.length = width then pure bytes else fail failure

/-- A number of four bytes. -/
def u32 (failure : ε) : Reader ε ℕ := do
  let bytes ← array failure 4
  pure (fromBigEndian bytes)

/-- A number of eight bytes. -/
def u64 (failure : ε) : Reader ε ℕ := do
  let bytes ← array failure 8
  pure (fromBigEndian bytes)

/-- Bytes behind their length. -/
def bytes (failure : ε) : Reader ε (List UInt8) := do
  let length ← u64 failure
  take failure length

/-- What a partial function makes of a value. -/
def require (failure : ε) (value : Option α) : Reader ε α :=
  match value with
  | some a => pure a
  | none => fail failure

/-- A text behind its length. -/
def string (failure : ε) : Reader ε String := do
  let value ← bytes failure
  require failure (fromUtf8 value)

/-- As many values as asked for. -/
def count (read : Reader ε α) : ℕ → Reader ε (List α)
  | 0 => pure []
  | n + 1 => do
    let a ← read
    let rest ← count read n
    pure (a :: rest)

/-- Fails where a condition on what is left does not hold. -/
def checkRest (failure : ε) (good : List UInt8 → Bool) : Reader ε Unit := fun s =>
  if good s then some (.ok ((), s)) else some (.error failure)

/-! ### Readers that keep to what there is -/

/-- A reader that always returns, leaves an end of what was there, and does not look at what it
    leaves. -/
structure Safe (p : Reader ε α) : Prop where
  returns : ∀ s, ∃ result, p s = some result
  suffix : ∀ s a rest, p s = some (.ok (a, rest)) → rest <:+ s
  extend : ∀ s a rest t, p s = some (.ok (a, rest)) → p (s ++ t) = some (.ok (a, rest ++ t))

/-- A value without a read. -/
theorem safe_pure (a : α) : Safe (pure a : Reader ε α) where
  returns s := ⟨_, rfl⟩
  suffix s b rest h := by
    obtain ⟨rfl, rfl⟩ := Prod.mk.inj (Except.ok.inj (Option.some.inj h))
    exact List.suffix_rfl
  extend s b rest t h := by
    obtain ⟨rfl, rfl⟩ := Prod.mk.inj (Except.ok.inj (Option.some.inj h))
    rfl

/-- A failure without a read. -/
theorem safe_fail (failure : ε) : Safe (fail failure : Reader ε α) where
  returns s := ⟨_, rfl⟩
  suffix s b rest h := by cases h
  extend s b rest t h := by cases h

/-- A computation without a read. -/
theorem safe_lift (e : Except ε α) : Safe (lift e) := by
  cases e with
  | ok a => exact safe_pure a
  | error failure => exact safe_fail failure

theorem safe_attempt {δ : Type} (refuse : δ → ε) (result : Option (Except δ α)) :
    Safe (attempt refuse result) := safe_lift _

/-- The first reader has read a value, or the whole does not succeed. -/
theorem andThen_eq_ok {p : Reader ε α} {f : α → Reader ε β} {s rest : List UInt8} {b : β}
    (h : (p >>= f) s = some (.ok (b, rest))) :
    ∃ a middle, p s = some (.ok (a, middle)) ∧ f a middle = some (.ok (b, rest)) := by
  change andThen p f s = _ at h
  unfold andThen at h
  split at h
  · cases h
  · cases h
  · exact ⟨_, _, by assumption, h⟩

/-- After a success the next reader gets the rest. -/
theorem andThen_of_ok {p : Reader ε α} {f : α → Reader ε β} {s rest : List UInt8} {a : α}
    (h : p s = some (.ok (a, rest))) : (p >>= f) s = f a rest := by
  change andThen p f s = _
  unfold andThen
  rw [h]

/-- Two safe readers in a row, where the second may rely on what the first returns. -/
theorem Safe.bindOf {p : Reader ε α} {f : α → Reader ε β} {P : α → Prop} (hp : Safe p)
    (hP : ∀ s a rest, p s = some (.ok (a, rest)) → P a) (hf : ∀ a, P a → Safe (f a)) :
    Safe (p >>= f) where
  returns s := by
    obtain ⟨result, hresult⟩ := hp.returns s
    match result with
    | .error failure =>
      refine ⟨.error failure, ?_⟩
      change andThen p f s = _
      unfold andThen
      rw [hresult]
    | .ok (a, rest) =>
      rw [andThen_of_ok hresult]
      exact (hf a (hP s a rest hresult)).returns rest
  suffix s b rest h := by
    obtain ⟨a, middle, hfirst, hsecond⟩ := andThen_eq_ok h
    exact ((hf a (hP s a middle hfirst)).suffix _ _ _ hsecond).trans (hp.suffix _ _ _ hfirst)
  extend s b rest t h := by
    obtain ⟨a, middle, hfirst, hsecond⟩ := andThen_eq_ok h
    rw [andThen_of_ok (hp.extend _ _ _ t hfirst)]
    exact (hf a (hP s a middle hfirst)).extend _ _ _ t hsecond

/-- **Safe readers compose.** The second one starts where the first one stopped. -/
theorem Safe.bind {p : Reader ε α} {f : α → Reader ε β} (hp : Safe p) (hf : ∀ a, Safe (f a)) :
    Safe (p >>= f) :=
  hp.bindOf (P := fun _ => True) (fun _ _ _ _ => trivial) fun a _ => hf a

/-- What `take` takes. -/
theorem take_eq_ok {failure : ε} {length : ℕ} {s value rest : List UInt8} :
    take failure length s = some (.ok (value, rest)) ↔ s = value ++ rest ∧ value.length = length := by
  unfold take splitAt
  constructor
  · intro h
    by_cases hshort : s.length < length
    · rw [if_pos hshort] at h
      cases h
    · rw [if_neg hshort, if_pos (not_lt.mp hshort)] at h
      obtain ⟨rfl, rfl⟩ := Prod.mk.inj (Except.ok.inj (Option.some.inj h))
      refine ⟨(List.take_append_drop length s).symm, ?_⟩
      rw [List.length_take, min_eq_left (not_lt.mp hshort)]
  · rintro ⟨rfl, rfl⟩
    have hle : value.length ≤ (value ++ rest).length := by simp
    rw [if_neg (not_lt.mpr hle), if_pos hle, List.take_left, List.drop_left]
    rfl

/-- A slice is taken only where it is long enough. -/
theorem safe_take (failure : ε) (length : ℕ) : Safe (take failure length) where
  returns s := by
    -- the check comes before the split
    unfold take splitAt
    by_cases hshort : s.length < length
    · exact ⟨_, if_pos hshort⟩
    · exact ⟨_, by rw [if_neg hshort, if_pos (not_lt.mp hshort), Option.map_some]⟩
  suffix s value rest h := by
    rw [(take_eq_ok.mp h).1]
    exact List.suffix_append _ _
  extend s value rest t h := by
    obtain ⟨rfl, hlength⟩ := take_eq_ok.mp h
    exact take_eq_ok.mpr ⟨by rw [List.append_assoc], hlength⟩

/-- One byte. -/
theorem safe_u8 (failure : ε) : Safe (u8 failure) := by
  refine (safe_take failure 1).bindOf (P := fun value => value.length = 1)
    (fun s a rest h => (take_eq_ok.mp h).2) fun value hlength => ?_
  obtain ⟨byte, rfl⟩ := List.length_eq_one_iff.mp hlength
  exact (safe_pure byte).bind fun _ => safe_pure _

/-- A slice of a fixed width. -/
theorem safe_array (failure : ε) (width : ℕ) : Safe (array failure width) := by
  refine (safe_take failure width).bind fun value => ?_
  by_cases h : value.length = width
  · rw [if_pos h]
    exact safe_pure _
  · rw [if_neg h]
    exact safe_fail _

theorem safe_u32 (failure : ε) : Safe (u32 failure) := (safe_array failure 4).bind fun _ => safe_pure _

theorem safe_u64 (failure : ε) : Safe (u64 failure) := (safe_array failure 8).bind fun _ => safe_pure _

theorem safe_bytes (failure : ε) : Safe (bytes failure) :=
  (safe_u64 failure).bind fun _ => safe_take failure _

/-- A value that may be missing. -/
theorem safe_require (failure : ε) (value : Option α) : Safe (require failure value) := by
  cases value with
  | none => exact safe_fail failure
  | some a => exact safe_pure a

theorem safe_string (failure : ε) : Safe (string failure) :=
  (safe_bytes failure).bind fun _ => safe_require failure _

/-- As many values as a number says, by induction on the number. -/
theorem safe_count {read : Reader ε α} (h : Safe read) (n : ℕ) : Safe (count read n) := by
  induction n with
  | zero => exact safe_pure []
  | succ n ih => exact h.bind fun _ => ih.bind fun _ => safe_pure _

/-- A condition that more bytes cannot spoil. -/
theorem safe_checkRest (failure : ε) {good : List UInt8 → Bool}
    (hgood : ∀ s t, good s = true → good (s ++ t) = true) : Safe (checkRest failure good) where
  returns s := by
    unfold checkRest
    split <;> exact ⟨_, rfl⟩
  suffix s u rest h := by
    unfold checkRest at h
    split at h
    · obtain ⟨-, rfl⟩ := Prod.mk.inj (Except.ok.inj (Option.some.inj h))
      exact List.suffix_rfl
    · cases h
  extend s u rest t h := by
    unfold checkRest at h ⊢
    split at h
    · rename_i hs
      obtain ⟨-, rfl⟩ := Prod.mk.inj (Except.ok.inj (Option.some.inj h))
      rw [if_pos (hgood s t hs)]
    · cases h

/-! ### Readers that always return -/

/-- A reader that never stops the program, whatever it looks at. -/
def Returns (p : Reader ε α) : Prop := ∀ s, ∃ result, p s = some result

/-- A safe reader always returns. -/
theorem Safe.toReturns {p : Reader ε α} (h : Safe p) : Returns p := h.returns

/-- Readers that always return compose. -/
theorem Returns.bind {p : Reader ε α} {f : α → Reader ε β} (hp : Returns p)
    (hf : ∀ a, Returns (f a)) : Returns (p >>= f) := by
  intro s
  show ∃ result, andThen p f s = some result
  unfold andThen
  obtain ⟨result, hresult⟩ := hp s
  rw [hresult]
  cases result with
  | error failure => exact ⟨_, rfl⟩
  | ok value => exact hf value.1 value.2

/-! ### What readers return -/

/-- Everything that a reader returns has a property. -/
def Yields (p : Reader ε α) (post : α → Prop) : Prop :=
  ∀ s a rest, p s = some (.ok (a, rest)) → post a

/-- What the first reader promises is what the second one may assume. -/
theorem Yields.bind {p : Reader ε α} {f : α → Reader ε β} {pre : α → Prop} {post : β → Prop}
    (hp : Yields p pre) (hf : ∀ a, pre a → Yields (f a) post) : Yields (p >>= f) post := by
  intro s b rest h
  obtain ⟨a, middle, hfirst, hsecond⟩ := andThen_eq_ok h
  exact hf a (hp s a middle hfirst) middle b rest hsecond

theorem yields_pure {a : α} {post : α → Prop} (h : post a) : Yields (pure a : Reader ε α) post := by
  intro s b rest hread
  obtain ⟨rfl, -⟩ := Prod.mk.inj (Except.ok.inj (Option.some.inj hread))
  exact h

/-- Nothing is promised of any reader. -/
theorem yields_any (p : Reader ε α) : Yields p fun _ => True := fun _ _ _ _ => trivial

/-- A number of eight bytes has 64 bits. -/
theorem yields_u64 (failure : ε) : Yields (u64 failure) (· < 2 ^ 64) := by
  intro s n rest h
  obtain ⟨bytes, middle, harray, hpure⟩ := andThen_eq_ok h
  obtain ⟨rfl, -⟩ := Prod.mk.inj (Except.ok.inj (Option.some.inj hpure))
  have hlength : bytes.length = 8 := by
    obtain ⟨value, after, -, hif⟩ := andThen_eq_ok harray
    by_cases hwidth : value.length = 8
    · rw [if_pos hwidth] at hif
      obtain ⟨rfl, -⟩ := Prod.mk.inj (Except.ok.inj (Option.some.inj hif))
      exact hwidth
    · rw [if_neg hwidth] at hif
      cases hif
  have hlt := fromBigEndian_lt bytes
  rw [hlength] at hlt
  exact lt_of_lt_of_eq hlt (by norm_num)

/-! ### Readers of an encoding -/

/-- A reader that reads some bytes as a value, whatever follows. -/
def Reads (p : Reader ε α) (written : List UInt8) (a : α) : Prop :=
  ∀ s, (written ++ s).length < 2 ^ 64 → p (written ++ s) = some (.ok (a, s))

/-- A value is read from no bytes. -/
theorem reads_pure (a : α) : Reads (pure a : Reader ε α) [] a := fun _ _ => rfl

/-- A computation that succeeds is read from no bytes. -/
theorem reads_lift {e : Except ε α} {a : α} (h : e = .ok a) : Reads (lift e) [] a := by
  subst h
  exact fun _ _ => rfl

/-- A call that neither panics nor refuses. -/
theorem reads_attempt {δ : Type} {refuse : δ → ε} {result : Option (Except δ α)} {a : α}
    (h : result = some (.ok a)) : Reads (attempt refuse result) [] a :=
  reads_lift (answered_eq_ok.mpr h)

/-- A value that is there is read from no bytes. -/
theorem reads_require {failure : ε} {value : Option α} {a : α} (h : value = some a) :
    Reads (require failure value) [] a := by
  subst h
  exact fun _ _ => rfl

/-- One encoding behind another. -/
theorem Reads.bind {p : Reader ε α} {f : α → Reader ε β} {written written' : List UInt8} {a : α}
    {b : β}
    (hp : Reads p written a) (hf : Reads (f a) written' b) :
    Reads (p >>= f) (written ++ written') b := by
  intro s hlength
  rw [List.append_assoc] at hlength ⊢
  rw [andThen_of_ok (hp _ hlength)]
  refine hf s (lt_of_le_of_lt ?_ hlength)
  rw [@List.length_append _ written]
  exact Nat.le_add_left _ _

/-- A value computed from the one that was read. -/
theorem Reads.thenPure {p : Reader ε α} {f : α → Reader ε β} {written : List UInt8} {a : α} {b : β}
    (hp : Reads p written a) (hf : Reads (f a) [] b) : Reads (p >>= f) written b := by
  rw [← List.append_nil written]
  exact hp.bind hf

/-- A slice is read by its length. -/
theorem reads_take (failure : ε) (value : List UInt8) :
    Reads (take failure value.length) value value :=
  fun _ _ => take_eq_ok.mpr ⟨rfl, rfl⟩

/-- A slice of a fixed width is read by its width. -/
theorem reads_array (failure : ε) {width : ℕ} {value : List UInt8} (h : value.length = width) :
    Reads (array failure width) value value := by
  subst h
  refine (reads_take failure value).thenPure ?_
  rw [if_pos rfl]
  exact reads_pure value

/-- A byte is read as its number. -/
theorem reads_u8 (failure : ε) (byte : UInt8) : Reads (u8 failure) [byte] byte.toNat :=
  Reads.thenPure (a := [byte]) (reads_take failure [byte])
    (Reads.thenPure (a := byte) (reads_pure byte) (reads_pure _))

/-- Numbers are read back from their bytes, the highest first. -/
theorem reads_u32 (failure : ε) {n : ℕ} (h : n < 2 ^ 32) : Reads (u32 failure) (bigEndian 4 n) n := by
  have hn : fromBigEndian (bigEndian 4 n) = n := fromBigEndian_bigEndian (by omega)
  refine (reads_array failure (length_bigEndian 4 n)).thenPure ?_
  rw [hn]
  exact reads_pure n

theorem reads_u64 (failure : ε) {n : ℕ} (h : n < 2 ^ 64) : Reads (u64 failure) (bigEndian 8 n) n := by
  have hn : fromBigEndian (bigEndian 8 n) = n := fromBigEndian_bigEndian (by omega)
  refine (reads_array failure (length_bigEndian 8 n)).thenPure ?_
  rw [hn]
  exact reads_pure n

/-- Bytes behind their length are read back: their length is a 64-bit number. -/
theorem reads_bytes (failure : ε) (value : List UInt8) :
    Reads (bytes failure) (bigEndian 8 value.length ++ value) value := by
  intro s hlength
  have hfits : value.length < 2 ^ 64 := by
    simp only [List.length_append] at hlength
    omega
  exact ((reads_u64 failure hfits).bind (reads_take failure value)) s hlength

/-- A text is read back from its bytes, behind their length. -/
theorem reads_string (failure : ε) (text : String) : Reads (string failure) (prefixedText text) text :=
  (reads_bytes failure (utf8 text)).thenPure (reads_require (fromUtf8_utf8 text))

/-- As many values as were written. -/
theorem reads_count {read : Reader ε α} {write : α → List UInt8} (h : ∀ a, Reads read (write a) a)
    (l : List α) : Reads (count read l.length) (l.flatMap write) l := by
  induction l with
  | nil => exact reads_pure []
  | cons a l ih =>
    rw [List.flatMap_cons]
    exact (h a).bind (ih.thenPure (reads_pure _))

/-- As many values as were written, where a value may be read as another one. -/
theorem reads_count_map {read : Reader ε β} {write : α → List UInt8} {g : α → β} {l : List α}
    (h : ∀ a ∈ l, Reads read (write a) (g a)) :
    Reads (count read l.length) (l.flatMap write) (l.map g) := by
  induction l with
  | nil => exact reads_pure []
  | cons a l ih =>
    have hrest := ih fun b hb => h b (List.mem_cons_of_mem _ hb)
    rw [List.flatMap_cons]
    exact (h a List.mem_cons_self).bind (hrest.thenPure (reads_pure _))

/-- A check that holds of what was written does not change what is read. -/
theorem reads_checkRest (failure : ε) {good : List UInt8 → Bool} {p : Reader ε α}
    {written : List UInt8} {a : α} (hgood : ∀ s, good (written ++ s) = true) (hp : Reads p written a) :
    Reads (checkRest failure good >>= fun _ => p) written a := by
  intro s hlength
  rw [@andThen_of_ok _ _ _ _ _ _ (written ++ s) ()]
  · exact hp s hlength
  · unfold checkRest
    rw [if_pos (hgood s)]

/-- A reader that reads all there is as a value: it may look at the end. -/
def ReadsAll (p : Reader ε α) (written : List UInt8) (a : α) : Prop :=
  written.length < 2 ^ 64 → p written = some (.ok (a, []))

/-- What reads a value in front of anything reads it in front of nothing. -/
theorem Reads.all {p : Reader ε α} {written : List UInt8} {a : α} (h : Reads p written a) :
    ReadsAll p written a := by
  intro hlength
  have hread := h [] (by rwa [List.append_nil])
  rwa [List.append_nil] at hread

/-- One encoding, and another one up to the end. -/
theorem Reads.bindAll {p : Reader ε α} {f : α → Reader ε β} {written written' : List UInt8} {a : α}
    {b : β} (hp : Reads p written a) (hf : ReadsAll (f a) written' b) :
    ReadsAll (p >>= f) (written ++ written') b := by
  intro hlength
  rw [andThen_of_ok (hp _ hlength)]
  apply hf
  rw [List.length_append] at hlength
  omega

/-! ### Encodings that are refused -/

/-- A reader that fails on some bytes, whatever follows. -/
def Refuses (p : Reader ε α) (written : List UInt8) (failure : ε) : Prop :=
  ∀ s, (written ++ s).length < 2 ^ 64 → p (written ++ s) = some (.error failure)

/-- A computation that fails is refused before a byte is read. -/
theorem refuses_lift {e : Except ε α} {failure : ε} (h : e = .error failure) :
    Refuses (lift e) [] failure := by
  subst h
  exact fun _ _ => rfl

/-- A refusal behind what was read. -/
theorem Reads.bindRefuses {p : Reader ε α} {f : α → Reader ε β} {written written' : List UInt8} {a : α}
    {failure : ε} (hp : Reads p written a) (hf : Refuses (f a) written' failure) :
    Refuses (p >>= f) (written ++ written') failure := by
  intro s hlength
  rw [List.append_assoc] at hlength ⊢
  rw [andThen_of_ok (hp _ hlength)]
  apply hf
  rw [@List.length_append _ written] at hlength
  omega

/-- What follows a refusal is not read. -/
theorem Refuses.bind {p : Reader ε α} {written : List UInt8} {failure : ε}
    (hp : Refuses p written failure) (f : α → Reader ε β) : Refuses (p >>= f) written failure := by
  intro s hlength
  show andThen p f _ = _
  unfold andThen
  rw [hp s hlength]

end Reader

end Lib
