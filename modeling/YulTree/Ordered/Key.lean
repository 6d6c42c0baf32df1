import YulTree.Text.Basic

/-!
# Keys with an order

The orders in which tables list their entries: indices by number, texts by the code points
of their characters.
-/

namespace YulTree

/-- A type of keys with a strict order in which any two different keys are comparable. -/
class OrderedKey (κ : Type) where
  /-- Whether the first key stands before the second. -/
  before : κ → κ → Bool
  before_irrefl : ∀ a, before a a = false
  before_trans : ∀ {a b c}, before a b = true → before b c = true → before a c = true
  before_connected : ∀ {a b}, before a b = false → a ≠ b → before b a = true

namespace OrderedKey

variable {κ : Type} [OrderedKey κ] {a b : κ}

/-- A key before another is a different key. -/
theorem ne_of_before (isBefore : before a b = true) : a ≠ b := by
  rintro rfl
  simp [before_irrefl] at isBefore

/-- Of two keys at most one stands before the other. -/
theorem before_asymm (isBefore : before a b = true) : before b a = false := by
  cases reversed : before b a with
  | false => rfl
  | true =>
      have loop := before_trans isBefore reversed
      simp [before_irrefl] at loop

end OrderedKey

instance : OrderedKey UInt32 where
  before a b := decide (a.toNat < b.toNat)
  before_irrefl a := by simp
  before_trans first second := by
    simp only [decide_eq_true_eq] at first second ⊢
    omega
  before_connected notBefore different := by
    simp only [decide_eq_false_iff_not, decide_eq_true_eq] at notBefore ⊢
    have numbersDiffer := mt UInt32.toNat_inj.mp different
    omega

namespace Text

/-- Whether a text stands before another: by the first characters that differ, and a
beginning stands before its continuations. -/
def before : Text → Text → Bool
  | _, [] => false
  | [], _ :: _ => true
  | c :: rest, d :: others =>
      if c = d then before rest others else decide (c.toNat < d.toNat)

theorem before_irrefl : ∀ text : Text, before text text = false
  | [] => rfl
  | _ :: rest => by simp [before, before_irrefl rest]

theorem before_trans : ∀ {first second third : Text},
    before first second = true → before second third = true → before first third = true
  | _, [], _, isBefore, _ => by simp [before] at isBefore
  | _, _ :: _, [], _, isBefore => by simp [before] at isBefore
  | [], _ :: _, _ :: _, _, _ => rfl
  | c :: first, d :: second, e :: third, firstBefore, secondBefore => by
      simp only [before] at firstBefore secondBefore ⊢
      by_cases cd : c = d
      · subst cd
        by_cases ce : c = e
        · subst ce
          simp only [if_true] at firstBefore secondBefore ⊢
          exact before_trans firstBefore secondBefore
        · simpa [ce] using secondBefore
      · by_cases de : d = e
        · subst de
          simpa [cd] using firstBefore
        · simp only [cd, de, if_false, decide_eq_true_eq] at firstBefore secondBefore
          by_cases ce : c = e
          · subst ce
            omega
          · simp only [ce, if_false, decide_eq_true_eq]
            omega

theorem before_connected : ∀ {first second : Text},
    before first second = false → first ≠ second → before second first = true
  | [], [], _, different => absurd rfl different
  | _ :: _, [], _, _ => rfl
  | [], _ :: _, notBefore, _ => by simp [before] at notBefore
  | c :: first, d :: second, notBefore, different => by
      simp only [before] at notBefore ⊢
      by_cases cd : c = d
      · subst cd
        simp only [if_true] at notBefore ⊢
        exact before_connected notBefore fun same => different (by rw [same])
      · have dc : ¬ d = c := fun same => cd same.symm
        simp only [cd, dc, if_false, decide_eq_false_iff_not, decide_eq_true_eq] at notBefore ⊢
        have codesDiffer : c.toNat ≠ d.toNat := fun same => cd (Char.toNat_inj.mp same)
        omega

end Text

instance : OrderedKey Text where
  before := Text.before
  before_irrefl := Text.before_irrefl
  before_trans := Text.before_trans
  before_connected := Text.before_connected

end YulTree
