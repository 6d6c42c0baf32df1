import YulTree.Text.Utf8

/-!
# Hexadecimal digits

Numbers and byte strings in hexadecimal digits.  Digits are read in either letter case and
written in lower case; the main statement, `ofHex?_toHex`, says that bytes written so are
read back.
-/

namespace YulTree

namespace Text

/-- The value of a hexadecimal digit of either letter case. -/
def hexDigitValue? (c : Char) : Option Nat :=
  if '0' ≤ c ∧ c ≤ '9' then some (c.toNat - 0x30)
  else if 'a' ≤ c ∧ c ≤ 'f' then some (c.toNat - 0x57)
  else if 'A' ≤ c ∧ c ≤ 'F' then some (c.toNat - 0x37)
  else none

/-- The number that a nonempty run of hexadecimal digits stands for. -/
def hexValue? : Text → Option Nat
  | [] => none
  | digits =>
      digits.foldlM (fun value c => (hexDigitValue? c).map (16 * value + ·)) 0

/-- As `hexValue?`, with a plus sign allowed in front. -/
def signedHexValue? : Text → Option Nat
  | '+' :: digits => hexValue? digits
  | digits => hexValue? digits

def hexNumeral (n : Nat) : Text := Nat.toDigits 16 n

end Text

namespace Bytes

open Text

def hexOfByte (byte : UInt8) : Text :=
  [Nat.digitChar (byte.toNat / 16), Nat.digitChar (byte.toNat % 16)]

def toHex (bytes : Bytes) : Text := bytes.flatMap hexOfByte

/-- The byte with two given digits. -/
def byteOfHex? (high low : Char) : Option UInt8 := do
  let highValue ← hexDigitValue? high
  let lowValue ← hexDigitValue? low
  return UInt8.ofNat (16 * highValue + lowValue)

/-- The byte string written with two digits for each byte. -/
def ofHex? : Text → Option Bytes
  | [] => some []
  | [_] => none
  | high :: low :: rest => do
      let byte ← byteOfHex? high low
      let bytes ← ofHex? rest
      return byte :: bytes

/-- The digit written for a value below sixteen has that value. -/
theorem hexDigitValue?_digitChar {n : Nat} (small : n < 16) :
    hexDigitValue? (Nat.digitChar n) = some n := by
  have checked : ∀ m : Fin 16, hexDigitValue? (Nat.digitChar m.val) = some m.val := by
    decide
  exact checked ⟨n, small⟩

/-- The digits of a byte give the byte. -/
theorem byteOfHex?_hexOfByte (byte : UInt8) :
    byteOfHex? (Nat.digitChar (byte.toNat / 16)) (Nat.digitChar (byte.toNat % 16)) =
      some byte := by
  have bound := byte.toNat_lt
  have high := hexDigitValue?_digitChar (n := byte.toNat / 16) (by omega)
  have low := hexDigitValue?_digitChar (n := byte.toNat % 16) (by omega)
  have whole : 16 * (byte.toNat / 16) + byte.toNat % 16 = byte.toNat :=
    Nat.div_add_mod byte.toNat 16
  unfold byteOfHex?
  rw [high, low]
  change some (UInt8.ofNat (16 * (byte.toNat / 16) + byte.toNat % 16)) = some byte
  rw [whole, UInt8.ofNat_toNat]

/-- Reading undoes writing. -/
@[simp]
theorem ofHex?_toHex (bytes : Bytes) : ofHex? (toHex bytes) = some bytes := by
  induction bytes with
  | nil => rfl
  | cons byte rest inductionHypothesis =>
      simp only [toHex] at inductionHypothesis
      simp [toHex, hexOfByte, ofHex?, byteOfHex?_hexOfByte, inductionHypothesis]

end Bytes

end YulTree
