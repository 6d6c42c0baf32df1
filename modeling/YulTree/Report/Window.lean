import YulTree.Report.Row

/-!
# Windows on long lines

A report fits a terminal.  When lines of a source are too long for it, or far indented, all of
them are shown through the same window, and dots stand where it cuts something off.
-/

namespace YulTree

/-- The columns of the lines that are shown, and the number of columns there is room for. -/
structure Window where
  left : Nat
  right : Nat
  room : Nat
  deriving DecidableEq, Repr

/-- What a window is fitted to, in columns: the indentation that all lines have, the first and
the last column that is marked, the end of the label, and the length of the longest line. -/
structure Window.Content where
  indent : Nat
  markLeft : Nat
  markRight : Nat
  labelRight : Nat
  longest : Nat
  deriving DecidableEq, Repr

namespace Window

def terminalWidth : Nat := 140

/-- The content with room for dots on both sides. -/
def Content.padded (content : Content) : Content :=
  { content with
    indent := content.indent - 6
    markLeft := content.markLeft - 6
    markRight := content.markRight + 6
    labelRight := content.labelRight + 6 }

def fromColumn (room left : Nat) : Window := ⟨left, left + room, room⟩

/-- The window on some content.  Lines lose their indentation only if it is wide; lines that
are still too long are cut around the label, or else around the marks. -/
def fit (room : Nat) (bare : Content) : Window :=
  let content := bare.padded
  let left := if 20 < content.indent then content.indent - 16 else 0
  let right := Nat.max content.longest left
  if right - left ≤ room then ⟨left, right, room⟩
  else if content.labelRight - content.indent ≤ room then fromColumn room content.indent
  else
    let labelled := content.labelRight - content.markLeft
    let marked := content.markRight - content.markLeft
    if labelled ≤ room then fromColumn room (content.markLeft - (room - labelled) / 2)
    else if marked ≤ room then fromColumn room (content.markLeft - (room - marked) / 5 * 2)
    else ⟨content.markLeft, content.markRight, room⟩

def leftOf (window : Window) (length : Nat) : Nat := Nat.min window.left length

def rightOf (window : Window) (length : Nat) : Nat :=
  if length - window.left ≤ window.room then length else Nat.min length window.right

def view (window : Window) (line : Text) : Row :=
  let left := window.leftOf line.length
  let right := window.rightOf line.length
  let code := (line.drop left).take (right - left)
  let front :=
    if 0 < window.left then
      Row.dots ++ Row.ofText .plain (code.drop Row.dots.length)
    else Row.ofText .plain code
  if right < line.length then
    front.take (front.length - Row.dots.length) ++ Row.dots
  else front

end Window

end YulTree
