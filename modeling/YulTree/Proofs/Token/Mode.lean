import YulTree.Token.Scan

/-!
# A plain scan for braces

A source can be searched for braces without cutting it into tokens: it is enough to go through
it character by character, and to remember whether a comment or a quotation mark hides what
comes next.  What is remembered is a `Mode`, and `visibleBraces` lists the braces that are
seen.  This module holds the scan and the rules for scanning texts piece by piece.
-/

namespace YulTree

/-- What the characters before a character make of it. -/
inductive Mode where
  /-- It stands outside comments and literals. -/
  | plain
  /-- So it does, and a slash that may begin a comment stands before it. -/
  | slash
  /-- It is hidden by two slashes, as is all up to the next line feed. -/
  | lineComment
  /-- It is hidden by a slash and a star, as is all up to a star and a slash. -/
  | blockComment
  /-- So it is, and a star that may end the comment stands before it. -/
  | star
  /-- It is hidden by a quotation mark, as is all up to the same mark or the next line feed. -/
  | quoted (mark : Char)
  /-- So it is, and a backslash before it takes from it any other meaning. -/
  | escaped (mark : Char)
  deriving DecidableEq, Repr

namespace Mode

def opened (c : Char) : Mode :=
  if c = '/' then .slash
  else if c = '"' ∨ c = '\'' then .quoted c
  else .plain

def next : Mode → Char → Mode
  | .plain, c => opened c
  | .slash, c =>
      if c = '/' then .lineComment
      else if c = '*' then .blockComment
      else opened c
  | .lineComment, c => if c = '\n' then .plain else .lineComment
  | .blockComment, c => if c = '*' then .star else .blockComment
  | .star, c =>
      if c = '/' then .plain
      else if c = '*' then .star
      else .blockComment
  | .quoted mark, c =>
      if c = mark ∨ c = '\n' then .plain
      else if c = '\\' then .escaped mark
      else .quoted mark
  | .escaped mark, c => if c = '\n' then .plain else .quoted mark

def sees : Mode → Bool
  | .plain | .slash => true
  | _ => false

def brace? (c : Char) : Option TokenKind :=
  if c = '\x7b' then some .openBrace
  else if c = '\x7d' then some .closeBrace
  else none

/-- The kind of brace that is seen where a character stands. -/
def mark (mode : Mode) (c : Char) : Option TokenKind :=
  if mode.sees then brace? c else none

def after (mode : Mode) (text : Text) : Mode := text.foldl next mode

/-- Character by character, the brace that is seen there. -/
def marks : Mode → Text → List (Option TokenKind)
  | _, [] => []
  | mode, c :: rest => mode.mark c :: marks (mode.next c) rest

end Mode

/-- The braces that a plain scan of a text sees from a byte position on. -/
def Text.visibleBraces (position : Nat) (mode : Mode) : Text → List Token
  | [] => []
  | c :: rest =>
      match mode.mark c with
      | some kind =>
          ⟨kind, [c], position⟩ ::
            visibleBraces (position + c.utf8Size) (mode.next c) rest
      | none => visibleBraces (position + c.utf8Size) (mode.next c) rest

namespace Mode

@[simp]
theorem after_cons (mode : Mode) (c : Char) (rest : Text) :
    mode.after (c :: rest) = (mode.next c).after rest := rfl

@[simp]
theorem after_append (mode : Mode) (first second : Text) :
    mode.after (first ++ second) = (mode.after first).after second :=
  List.foldl_append

@[simp]
theorem marks_cons (mode : Mode) (c : Char) (rest : Text) :
    mode.marks (c :: rest) = mode.mark c :: (mode.next c).marks rest := rfl

theorem marks_append (mode : Mode) (first second : Text) :
    mode.marks (first ++ second) =
      mode.marks first ++ (mode.after first).marks second := by
  induction first generalizing mode with
  | nil => rfl
  | cons c rest inductionHypothesis =>
      simp only [List.cons_append, marks_cons, after_cons, inductionHypothesis]

@[simp]
theorem length_marks (mode : Mode) (text : Text) :
    (mode.marks text).length = text.length := by
  induction text generalizing mode with
  | nil => rfl
  | cons c rest inductionHypothesis =>
      rw [marks_cons, List.length_cons, List.length_cons, inductionHypothesis]

/-- Marks for the two parts of a text are the marks of the two parts. -/
theorem marks_append_inj {mode : Mode} {first second : Text}
    {front back : List (Option TokenKind)}
    (whole : mode.marks (first ++ second) = front ++ back)
    (sameLength : front.length = first.length) :
    mode.marks first = front ∧ (mode.after first).marks second = back := by
  rw [marks_append] at whole
  exact List.append_inj whole (by rw [length_marks, sameLength])

/-- A brace is seen as what it is, or not at all. -/
theorem mark_eq_some {mode : Mode} {c : Char} {kind : TokenKind}
    (seen : mode.mark c = some kind) : mode.sees = true ∧ brace? c = some kind := by
  unfold mark at seen
  split at seen
  · next sees => exact ⟨sees, seen⟩
  · cases seen

theorem mark_closeBrace_iff (mode : Mode) :
    mode.mark '\x7d' = some .closeBrace ↔ mode.sees = true := by
  constructor
  · intro seen
    exact (mark_eq_some seen).1
  · intro sees
    rw [mark, if_pos sees]
    rfl

theorem eq_of_brace? {c : Char} {kind : TokenKind} (isBrace : brace? c = some kind) :
    c = '\x7b' ∨ c = '\x7d' := by
  unfold brace? at isBrace
  split at isBrace
  · next opens => exact Or.inl opens
  · split at isBrace
    · next closes => exact Or.inr closes
    · cases isBrace

/-- Behind a brace that is seen nothing is hidden. -/
theorem next_of_mark {mode : Mode} {c : Char} {kind : TokenKind}
    (seen : mode.mark c = some kind) : mode.next c = .plain := by
  obtain ⟨sees, isBrace⟩ := mark_eq_some seen
  cases mode with
  | plain => rcases eq_of_brace? isBrace with rfl | rfl <;> rfl
  | slash => rcases eq_of_brace? isBrace with rfl | rfl <;> rfl
  | lineComment | blockComment | star | quoted | escaped => cases sees

end Mode

end YulTree
