import Ficant.Primitives

namespace Ficant

/-!
# Hashes as text

`hash_hex` and `parse_hash`: the two hexadecimal digits of every byte, and back
(`parseHash_hashHex`).
-/

/-- The two hexadecimal digits of a byte. -/
def hexByte (b : UInt8) : List Char :=
  [Nat.digitChar (b.toNat / 16), Nat.digitChar (b.toNat % 16)]

/-- `hash_hex`. -/
def hashHex (hash : ContentHash) : String := String.ofList (hash.bytes.flatMap hexByte)

/-- The value of a hexadecimal digit. -/
def hexValue (c : Char) : Option ℕ :=
  if '0' ≤ c ∧ c ≤ '9' then some (c.toNat - '0'.toNat)
  else if 'a' ≤ c ∧ c ≤ 'f' then some (c.toNat - 'a'.toNat + 10)
  else if 'A' ≤ c ∧ c ≤ 'F' then some (c.toNat - 'A'.toNat + 10)
  else none

/-- The bytes of an even number of hexadecimal digits. -/
def parseHexBytes : List Char → Option (List UInt8)
  | [] => some []
  | [_] => none
  | a :: b :: rest => do
    let high ← hexValue a
    let low ← hexValue b
    let bytes ← parseHexBytes rest
    pure (UInt8.ofNat (16 * high + low) :: bytes)

/-- `parse_hash`. -/
def parseHash (value : String) : Option ContentHash := do
  let bytes ← parseHexBytes value.toList
  if h : bytes.length = 32 then some ⟨bytes, h⟩ else none

theorem hexValue_digitChar : ∀ n < 16, hexValue (Nat.digitChar n) = some n := by decide

theorem parseHexBytes_flatMap (bytes : List UInt8) :
    parseHexBytes (bytes.flatMap hexByte) = some bytes := by
  induction bytes with
  | nil => rfl
  | cons b bytes ih =>
    have hb := b.toNat_lt
    have hhigh := hexValue_digitChar (b.toNat / 16) (by omega)
    have hlow := hexValue_digitChar (b.toNat % 16) (by omega)
    have hbyte : 16 * (b.toNat / 16) + b.toNat % 16 = b.toNat := Nat.div_add_mod _ _
    show (do
      let high ← hexValue (Nat.digitChar (b.toNat / 16))
      let low ← hexValue (Nat.digitChar (b.toNat % 16))
      let rest ← parseHexBytes (bytes.flatMap hexByte)
      pure (UInt8.ofNat (16 * high + low) :: rest)) = _
    simp only [hhigh, hlow, ih, Option.bind_eq_bind, Option.bind_some, hbyte, UInt8.ofNat_toNat]
    rfl

/-- A hash is read back from its text. -/
theorem parseHash_hashHex (hash : ContentHash) : parseHash (hashHex hash) = some hash := by
  simp [parseHash, hashHex, parseHexBytes_flatMap, hash.length_eq]

end Ficant
