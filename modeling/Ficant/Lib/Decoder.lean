import Ficant.Lib.Bytes
import Ficant.Lib.Except

namespace Lib

/-!
# Decoders over a byte string

A decoder reads fields from a byte string at an offset.  `Decodes p ok write` says that it is exact:

* `Decodes.sound` — what it accepts is the encoding of a value with `ok`, it stops right behind that
  encoding, and that is inside the byte string;
* `Decodes.complete` — it accepts every such encoding, whatever follows.

`Decodes.bind` composes: the second decoder may depend on the first value, as long as that value can
be recovered from the result.  Offsets are 64-bit numbers, so a byte string has fewer than `2 ^ 64`
bytes when something is read from it.
-/

variable {ε α β : Type}

/-- A byte string and the offset of the next byte to read. -/
structure Cursor where
  bytes : List UInt8
  offset : ℕ

namespace Cursor

/-- What has not been read. -/
def rest (c : Cursor) : List UInt8 := c.bytes.drop c.offset

/-- The cursor `n` bytes further. -/
def advance (c : Cursor) (n : ℕ) : Cursor := { c with offset := c.offset + n }

@[simp] theorem bytes_advance (c : Cursor) (n : ℕ) : (c.advance n).bytes = c.bytes := rfl

@[simp] theorem advance_zero (c : Cursor) : c.advance 0 = c := rfl

/-- Advancing twice is advancing by the sum. -/
@[simp] theorem advance_advance (c : Cursor) (m n : ℕ) :
    (c.advance m).advance n = c.advance (m + n) := by
  simp [advance, Nat.add_assoc]

/-- Advancing drops the first bytes of the rest. -/
theorem rest_advance (c : Cursor) (n : ℕ) : (c.advance n).rest = c.rest.drop n := by
  simp [rest, advance, Nat.add_comm]

end Cursor

/-- A decoder: it reads at the cursor and moves it, or fails. -/
abbrev Decoder (ε α : Type) := StateT Cursor (Except ε) α

/-- Reads the next `length` bytes. The sum of offset and length may overflow, and the byte string
    may be too short. -/
def Decoder.take (failure : ε) (length : ℕ) : Decoder ε (List UInt8) := fun c =>
  if 2 ^ 64 ≤ c.offset + length then .error failure
  else if c.bytes.length < c.offset + length then .error failure
  else .ok ((c.bytes.drop c.offset).take length, c.advance length)

/-- The cursor stands inside its byte string, at a 64-bit offset. -/
structure Cursor.InRange (c : Cursor) : Prop where
  offset_le : c.offset ≤ c.bytes.length
  offset_lt : c.offset < 2 ^ 64

/-- The decoder accepts exactly the encodings of the values with `ok`. -/
structure Decodes (p : Decoder ε α) (ok : α → Prop) (write : α → List UInt8) : Prop where
  sound : ∀ c a c', p c = .ok (a, c') → c.InRange →
    ok a ∧ c.rest = write a ++ c'.rest ∧ c' = c.advance (write a).length ∧ c'.InRange
  complete : ∀ c a s, ok a → c.rest = write a ++ s → c.offset ≤ c.bytes.length →
    c.bytes.length < 2 ^ 64 → p c = .ok (a, c.advance (write a).length)

namespace Decodes

/-- What was read is inside the byte string. -/
theorem offset_add_le {c : Cursor} {w s : List UInt8} (h : c.rest = w ++ s)
    (hoffset : c.offset ≤ c.bytes.length) : c.offset + w.length ≤ c.bytes.length := by
  have hlength := congrArg List.length h
  rw [Cursor.rest, List.length_drop, List.length_append] at hlength
  omega

/-- Behind an encoding stands what follows it. -/
theorem rest_advance_of_eq {c : Cursor} {w s : List UInt8} (h : c.rest = w ++ s) :
    (c.advance w.length).rest = s := by
  rw [Cursor.rest_advance, h, List.drop_left]

/-- Returning a value reads no bytes. -/
protected theorem pure (a : α) : Decodes (pure a : Decoder ε α) (· = a) fun _ => [] where
  sound := by
    intro c b c' h hoffset
    obtain ⟨rfl, rfl⟩ := Prod.mk.inj (Except.ok.inj h)
    exact ⟨rfl, rfl, rfl, hoffset⟩
  complete := by
    rintro c b s rfl - - -
    rfl

/-- Two decoders in a row: the values of both, and the encoding that is the two encodings. -/
theorem bindRel {p : Decoder ε α} {f : α → Decoder ε β} {ok : α → Prop} {write : α → List UInt8}
    {ok' : α → β → Prop} {write' : α → β → List UInt8} {okb : β → Prop} {writeb : β → List UInt8}
    (hp : Decodes p ok write) (hf : ∀ a, ok a → Decodes (f a) (ok' a) (write' a))
    (hok : ∀ b, okb b ↔ ∃ a, ok a ∧ ok' a b)
    (hwrite : ∀ a b, ok a → ok' a b → writeb b = write a ++ write' a b) :
    Decodes (p >>= f) okb writeb where
  sound := by
    -- What the two decoders read stands side by side.
    intro c b c' h hrange
    obtain ⟨⟨a, middle⟩, hfirst, hsecond⟩ := bind_eq_ok.mp h
    obtain ⟨ha, hrest, rfl, hmiddle⟩ := hp.sound c a middle hfirst hrange
    obtain ⟨hb, hrest', rfl, hfinal⟩ := (hf a ha).sound _ b c' hsecond hmiddle
    have hbytes := hwrite a b ha hb
    refine ⟨(hok b).mpr ⟨a, ha, hb⟩, ?_, ?_, hfinal⟩
    · rw [hrest, hrest', hbytes, List.append_assoc]
    · rw [Cursor.advance_advance, hbytes, List.length_append]
  complete := by
    intro c b s hb hrest hoffset hlength
    obtain ⟨a, ha, hb⟩ := (hok b).mp hb
    have hbytes := hwrite a b ha hb
    rw [hbytes, List.append_assoc] at hrest
    have hfirst := hp.complete c a _ ha hrest hoffset hlength
    have hsecond := (hf a ha).complete (c.advance (write a).length) b s hb
      (rest_advance_of_eq hrest) (offset_add_le hrest hoffset) hlength
    refine bind_eq_ok.mpr ⟨_, hfirst, ?_⟩
    rw [hbytes, List.length_append, ← Cursor.advance_advance]
    exact hsecond

/-- Two decoders in a row, where the first value can be recovered from the second. -/
protected theorem bind {p : Decoder ε α} {f : α → Decoder ε β} {ok : α → Prop}
    {write : α → List UInt8} {ok' : α → β → Prop} {write' : β → List UInt8} (hp : Decodes p ok write)
    (back : β → α) (hf : ∀ a, ok a → Decodes (f a) (ok' a) write')
    (hback : ∀ a b, ok a → ok' a b → back b = a) :
    Decodes (p >>= f) (fun b => ok (back b) ∧ ok' (back b) b)
      fun b => write (back b) ++ write' b := by
  refine hp.bindRel hf (fun b => ⟨fun h => ⟨back b, h⟩, ?_⟩) fun a b ha hb => by
    rw [hback a b ha hb]
  rintro ⟨a, ha, hb⟩
  obtain rfl := hback a b ha hb
  exact ⟨ha, hb⟩

/-- A value built from the one that was read. -/
protected theorem map {p : Decoder ε α} {ok : α → Prop} {write : α → List UInt8}
    (hp : Decodes p ok write) (g : α → β) {okb : β → Prop} {writeb : β → List UInt8}
    (hok : ∀ b, okb b ↔ ∃ a, ok a ∧ b = g a) (hwrite : ∀ a, ok a → writeb (g a) = write a) :
    Decodes (p >>= fun a => pure (g a)) okb writeb :=
  hp.bindRel (fun a _ => Decodes.pure (g a)) hok fun a b ha hb => by
    rw [hb, hwrite a ha, List.append_nil]

/-- A check in front of a decoder. -/
protected theorem ite {p : Decoder ε α} {ok : α → Prop} {write : α → List UInt8} (fails : Prop)
    [Decidable fails] (failure : ε) (hp : ¬fails → Decodes p ok write) :
    Decodes (if fails then throw failure else p) (fun a => ¬fails ∧ ok a) write where
  sound := by
    intro c a c' h hoffset
    by_cases hfails : fails
    · rw [if_pos hfails] at h
      cases h
    · rw [if_neg hfails] at h
      obtain ⟨hok, hrest⟩ := (hp hfails).sound c a c' h hoffset
      exact ⟨⟨hfails, hok⟩, hrest⟩
  complete := by
    rintro c a s ⟨hfails, hok⟩ hrest hoffset hlength
    rw [if_neg hfails]
    exact (hp hfails).complete c a s hok hrest hoffset hlength

/-- The same decoder, with its encodings described in another way. -/
protected theorem congr {p : Decoder ε α} {ok ok' : α → Prop} {write write' : α → List UInt8}
    (h : Decodes p ok write) (hok : ∀ a, ok a ↔ ok' a) (hwrite : ∀ a, ok a → write a = write' a) :
    Decodes p ok' write' where
  sound := by
    intro c a c' hrun hoffset
    obtain ⟨ha, hrest, hc, hfinal⟩ := h.sound c a c' hrun hoffset
    rw [hwrite a ha] at hrest hc
    exact ⟨(hok a).mp ha, hrest, hc, hfinal⟩
  complete := by
    intro c a s ha hrest hoffset hlength
    have ha' := (hok a).mpr ha
    rw [← hwrite a ha'] at hrest ⊢
    exact h.complete c a s ha' hrest hoffset hlength

/-- A value computed from what was read, or refused. -/
protected theorem lift (e : Except ε α) :
    Decodes (liftM e : Decoder ε α) (fun a => e = .ok a) fun _ => [] := by
  cases e with
  | ok a => exact (Decodes.pure a).congr (fun b => by simp [eq_comm]) fun _ _ => rfl
  | error failure => exact ⟨fun c a c' h _ => (by cases h), fun c a s h _ _ _ => (by cases h)⟩

end Decodes

/-! ### Primitive decoders -/

/-- Reading `length` bytes gives just these bytes, all inside the byte string. -/
theorem decodes_take (failure : ε) (length : ℕ) :
    Decodes (Decoder.take failure length) (fun bytes => bytes.length = length) id where
  sound := by
    intro c bytes c' h _
    rw [Decoder.take] at h
    split at h
    · cases h
    split at h
    · cases h
    obtain ⟨rfl, rfl⟩ := Prod.mk.inj (Except.ok.inj h)
    -- The cursor has that many bytes left, as the two guards say.
    have htake : ((c.bytes.drop c.offset).take length).length = length := by
      rw [List.length_take, List.length_drop]
      omega
    refine ⟨htake, ?_, by rw [id, htake], ?_, ?_⟩
    · rw [Cursor.rest_advance]
      exact (List.take_append_drop length _).symm
    · show c.offset + length ≤ c.bytes.length
      omega
    · show c.offset + length < 2 ^ 64
      omega
  complete := by
    intro c bytes s hlength hrest hoffset hbytes
    subst hlength
    have hrange := Decodes.offset_add_le hrest hoffset
    rw [id] at hrange
    rw [Decoder.take, if_neg (by omega), if_neg (by omega), ← Cursor.rest, hrest, id,
      List.take_left]

/-- A 64-bit number. -/
def Decoder.u64 (failure : ε) : Decoder ε ℕ := do
  let value ← Decoder.take failure 8
  pure (fromBigEndian value)

/-- Eight bytes read back a number below `2 ^ 64`. -/
theorem decodes_u64 (failure : ε) :
    Decodes (Decoder.u64 failure) (fun n => n < 2 ^ 64) (bigEndian 8) := by
  have h := (decodes_take failure 8).bind (bigEndian 8)
    (fun value _ => Decodes.pure (fromBigEndian value)) (fun value n hlength hn => by
      subst hn
      rw [← hlength]
      exact bigEndian_fromBigEndian value)
  refine h.congr (fun n => ⟨fun hn => ?_, fun hn => ⟨by simp, ?_⟩⟩) fun n _ => by simp
  · rw [hn.2]
    exact lt_of_lt_of_eq (fromBigEndian_lt _) (by rw [hn.1]; norm_num)
  · exact (fromBigEndian_bigEndian (by simpa using hn)).symm

/-- Bytes behind their length. -/
def Decoder.bytes (failure : ε) : Decoder ε (List UInt8) := do
  let length ← Decoder.u64 failure
  Decoder.take failure length

/-- A length and that many bytes read back a byte string. -/
theorem decodes_bytes (failure : ε) :
    Decodes (Decoder.bytes failure) (fun value => value.length < 2 ^ 64)
      fun value => bigEndian 8 value.length ++ value := by
  have h := (decodes_u64 failure).bind List.length
    (fun length _ => decodes_take failure length) fun _ _ _ hlength => hlength
  exact h.congr (fun value => by simp) fun _ _ => rfl

end Lib
