/-!
# Texts

A text is the list of its characters.  Positions in a text are counted in bytes of its
UTF-8 form, so texts are measured in bytes here and cut at byte positions.  The main
statement, `splitAtByte?_eq_some_iff`, says which cuts exist: those between two characters.
-/

namespace YulTree

/-- A text is the list of its characters. -/
abbrev Text := List Char

/-- A string literal may stand wherever a text is wanted. -/
instance : Coe String Text := ⟨String.toList⟩

namespace Text

/-- The number of bytes in the UTF-8 form of a text. -/
def byteSize : Text → Nat
  | [] => 0
  | c :: rest => c.utf8Size + byteSize rest

@[simp]
theorem byteSize_nil : byteSize [] = 0 := rfl

@[simp]
theorem byteSize_cons (c : Char) (rest : Text) :
    byteSize (c :: rest) = c.utf8Size + byteSize rest := rfl

@[simp]
theorem byteSize_append (first second : Text) :
    byteSize (first ++ second) = byteSize first + byteSize second := by
  induction first with
  | nil => simp
  | cons c rest inductionHypothesis =>
      simp [inductionHypothesis, Nat.add_assoc]

/-- The two parts of a text before and after its first `size` bytes.  There is no such
cut inside a character or beyond the end. -/
def splitAtByte? : (size : Nat) → Text → Option (Text × Text)
  | 0, text => some ([], text)
  | _ + 1, [] => none
  | size + 1, c :: rest =>
      if c.utf8Size ≤ size + 1 then
        (splitAtByte? (size + 1 - c.utf8Size) rest).map fun parts =>
          (c :: parts.1, parts.2)
      else
        none

/-- A text can be cut exactly between two of its characters. -/
theorem splitAtByte?_eq_some_iff {size : Nat} {text front back : Text} :
    splitAtByte? size text = some (front, back) ↔
      text = front ++ back ∧ byteSize front = size := by
  induction text generalizing size front with
  | nil =>
      cases size with
      | zero =>
          cases front with
          | nil => simp [splitAtByte?, eq_comm]
          | cons c rest => simp [splitAtByte?]
      | succ size =>
          cases front with
          | nil => simp [splitAtByte?]
          | cons c rest => simp [splitAtByte?]
  | cons c rest inductionHypothesis =>
      cases size with
      | zero =>
          cases front with
          | nil => simp [splitAtByte?]
          | cons d front =>
              have positive := d.utf8Size_pos
              simp [splitAtByte?]
              omega
      | succ size =>
          cases front with
          | nil => simp [splitAtByte?]
          | cons d front =>
              simp only [splitAtByte?, byteSize_cons, List.cons_append, List.cons.injEq]
              split
              · next fits =>
                  simp only [Option.map_eq_some_iff, Prod.mk.injEq, List.cons.injEq,
                    Prod.exists]
                  constructor
                  · rintro ⟨front', back', cut, ⟨rfl, rfl⟩, rfl⟩
                    obtain ⟨rfl, sizeEq⟩ := inductionHypothesis.mp cut
                    exact ⟨⟨rfl, rfl⟩, by omega⟩
                  · rintro ⟨⟨rfl, rfl⟩, sizeEq⟩
                    exact ⟨front, back, inductionHypothesis.mpr ⟨rfl, by omega⟩,
                      ⟨rfl, rfl⟩, rfl⟩
              · next tooLong =>
                  simp only [reduceCtorEq, false_iff, not_and]
                  rintro ⟨rfl, rfl⟩
                  omega

/-- The part of a text between two byte positions, if both lie between characters. -/
def slice? (start stop : Nat) (text : Text) : Option Text := do
  let (_, fromStart) ← splitAtByte? start text
  let (part, _) ← splitAtByte? (stop - start) fromStart
  return part

/-- The part of a text between two byte positions, which have to be in order, inside the text and
at no place inside a character. -/
def range? (text : Text) (start stop : Nat) : Option Text :=
  if start ≤ stop then text.slice? start stop else none

/-- The part of a literal from a byte position up to its last byte, which has to exist. -/
def enclosed? (literal : Text) (start : Nat) : Option Text :=
  if literal.byteSize = 0 then none else literal.range? start (literal.byteSize - 1)

def interior (text : Text) : Text := text.tail.dropLast

end Text

end YulTree
