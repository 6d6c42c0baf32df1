import YulTree.Text.Basic

/-!
# Rows of a report

A report is made of rows of characters, each of which has a style.  Styles are shown with
terminal escapes, or not at all.
-/

namespace YulTree

inductive Style where
  | plain
  | title
  | headline
  | frame
  | mark
  deriving DecidableEq, Repr

def Style.reset : Text := "\x1b[0m"

def Style.begin : Style → Text
  | .plain => []
  | .title | .mark => "\x1b[1m\x1b[91m"
  | .headline => "\x1b[1m"
  | .frame => "\x1b[1m\x1b[94m"

/-- The terminal escape behind a style, if it has begun with one. -/
def Style.stop : Style → Text
  | .plain => []
  | _ => reset

/-- A row of characters with their styles. -/
abbrev Row : Type := List (Style × Char)

namespace Row

def ofText (style : Style) (text : Text) : Row := text.map fun c => (style, c)

def blank (width : Nat) : Row := ofText .plain (List.replicate width ' ')

def dots : Row := ofText .frame "..."

def elide (start stop : Nat) (row : Row) : Row := row.take start ++ dots ++ row.drop stop

def text (row : Row) : Text := row.map Prod.snd

/-- The text of a row with terminal escapes where the style changes from the current one. -/
def paintFrom (current : Style) : Row → Text
  | [] => current.stop
  | (style, c) :: rest =>
      if style = current then c :: paintFrom current rest
      else current.stop ++ style.begin ++ c :: paintFrom style rest

def render (colored : Bool) (row : Row) : Text :=
  if colored then paintFrom .plain row else row.text

end Row

end YulTree
