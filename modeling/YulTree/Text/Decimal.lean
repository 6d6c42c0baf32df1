import YulTree.Text.Basic

/-!
# Decimal numerals

Natural numbers as decimal digits.  Reading takes any number of leading zeros, writing uses
none, and reading undoes writing.
-/

namespace YulTree.Text

/-- The decimal numeral of a number, without leading zeros. -/
def ofNat (n : Nat) : Text := Nat.toDigits 10 n

def toNat? (numeral : Text) : Option Nat :=
  if !numeral.isEmpty && numeral.all Char.isDigit then
    some (Nat.ofDigitChars 10 numeral 0)
  else
    none

theorem isDigit_of_mem_ofNat {n : Nat} {c : Char} (member : c ∈ ofNat n) : c.isDigit = true :=
  Nat.isDigit_of_mem_toDigits (by decide) (by decide) member

/-- A numeral reads back as its number. -/
@[simp]
theorem toNat?_ofNat (n : Nat) : toNat? (ofNat n) = some n := by
  have digits : (ofNat n).all Char.isDigit = true :=
    List.all_eq_true.mpr fun _ => isDigit_of_mem_ofNat
  have nonempty : (ofNat n).isEmpty = false :=
    List.isEmpty_eq_false_iff.mpr Nat.toDigits_ne_nil
  have value : Nat.ofDigitChars 10 (ofNat n) 0 = n :=
    Nat.ofDigitChars_toDigits (by decide) (by decide)
  simp [toNat?, digits, nonempty, value]

def ofInt : Int → Text
  | .ofNat n => ofNat n
  | .negSucc n => '-' :: ofNat (n + 1)

end YulTree.Text
