/-
# Hexadecimal text

Bytes and numbers written with the digits `0` to `f`.  They are written with small
letters and read with small or capital ones.  Main statement: bytes are read back from
their digits (`ofHex?_hex`).
-/

namespace SquareDance
namespace Text

/-- The two digits of a byte. -/
def hexOfByte (b : UInt8) : List Char :=
  [Nat.digitChar (b.toNat / 16), Nat.digitChar (b.toNat % 16)]

/-- The digits of bytes. -/
def hex (bytes : List UInt8) : String := String.ofList (bytes.flatMap hexOfByte)

/-- The value of a digit, whose letter may be small or capital. -/
def hexDigit? (c : Char) : Option Nat :=
  if c.isDigit then some (c.toNat - '0'.toNat)
  else if 'a' ≤ c.toLower ∧ c.toLower ≤ 'f' then some (c.toLower.toNat - 'a'.toNat + 10)
  else none

/-- A digit is read back from its character. -/
theorem hexDigit?_digitChar {n : Nat} (h : n < 16) : hexDigit? (Nat.digitChar n) = some n :=
  (by decide : ∀ i : Fin 16, hexDigit? (Nat.digitChar i) = some i.val) ⟨n, h⟩

/-- The bytes that digits stand for. -/
def bytesOfDigits? : List Char → Option (List UInt8)
  | [] => some []
  | a :: b :: rest => do
    let high ← hexDigit? a
    let low ← hexDigit? b
    let bytes ← bytesOfDigits? rest
    return UInt8.ofNat (16 * high + low) :: bytes
  | [_] => none

/-- The bytes that a text stands for. -/
def ofHex? (s : String) : Option (List UInt8) := bytesOfDigits? s.toList

/-- **Bytes are read back from their digits.** -/
theorem ofHex?_hex (bytes : List UInt8) : ofHex? (hex bytes) = some bytes := by
  unfold ofHex? hex
  rw [String.toList_ofList]
  induction bytes with
  | nil => rfl
  | cons b rest ih =>
    have hb := b.toNat_lt
    have high := hexDigit?_digitChar (n := b.toNat / 16) (by omega)
    have low := hexDigit?_digitChar (n := b.toNat % 16) (by omega)
    simp only [List.flatMap_cons, hexOfByte, List.cons_append, List.nil_append, bytesOfDigits?,
      high, low, ih, Option.bind_eq_bind, Option.bind_some, Option.pure_def, Nat.div_add_mod,
      UInt8.ofNat_toNat]

/-- A halfword with four digits. -/
def hex4 (w : UInt16) : String := "0x" ++ hex [(w >>> 8).toUInt8, w.toUInt8]

end Text
end SquareDance
