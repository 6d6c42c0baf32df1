import YulTree.Reader.Error
import YulTree.Report.Excerpt
import YulTree.Report.Window

/-!
# Reports

An error of the reader, drawn below the lines of the source that show it.
-/

namespace YulTree

structure ReportOptions where
  path : Option Text
  colored : Bool
  deriving DecidableEq, Repr

namespace Report

/-- What the rows of a report are drawn from: the lines of the source, the range in question,
its label, the width of the column for line numbers, and the window on the lines. -/
structure Canvas where
  lines : List SourceLine
  extent : Extent
  label : Text
  width : Nat
  window : Window

/-- The number of the last line that a range touches.  A line feed at the end of the range
belongs to that line. -/
def lastLineNumber (source : Text) (span : Span) : Nat :=
  let before := ((Text.splitAtByte? span.stop source).map Prod.fst).getD source
  before.dropLast.count '\n' + 1

def padLeft (width : Nat) (text : Text) : Text :=
  List.replicate (width - text.length) ' ' ++ text

def isIdle (lines : List SourceLine) (index : Nat) : Bool :=
  ((lines[index]?).map SourceLine.isIdle).getD false

/-- The line behind the last of several lines that says something, or the first line. -/
def endOfContent (lines : List SourceLine) (first : Nat) : (count : Nat) → Nat
  | 0 => first
  | count + 1 =>
      if isIdle lines (first + count) then endOfContent lines first count
      else first + count + 1

/-- The lines shown between the first and the last line of a range: the beginning of the range
up to its fourth line, without idle lines at the end of it, and the line before the last. -/
def innerLines (lines : List SourceLine) (first last : Nat) : List Nat :=
  let middle := Nat.min (first + 4) last
  let untilLine := endOfContent lines first (middle - first)
  let beginning := (List.range' first (untilLine - first)).drop 1
  if middle < last - 1 ∧ isIdle lines (last - 1) = false then beginning ++ [last - 1]
  else beginning

def indentOf (line : SourceLine) : Nat :=
  Text.width (line.text.takeWhile Text.blank.contains)

/-- The least indentation of several lines, of which blank ones do not count. -/
def commonIndent (lines : List SourceLine) : Nat :=
  match (lines.filter fun line => !line.text.all Text.blank.contains).map indentOf with
  | [] => 0
  | indent :: others => others.foldl Nat.min indent

/-- The columns that are marked for a range, each part from its first column to the one behind
its last. -/
def markedColumns (extent : Extent) : List (Nat × Nat) :=
  let first := extent.first.column
  let last := extent.last.column
  if extent.first.line = extent.last.line then [(first, last)]
  else [(first, first + 1), (last - 1, last)]

/-- What the window on the lines of a range has to show.  No mark stands in the indentation. -/
def windowContent (lines : List SourceLine) (extent : Extent) (label : Text) :
    Window.Content :=
  let inner := innerLines lines extent.first.line extent.last.line
  let shown := (extent.first.line :: (inner ++ [extent.last.line])).filterMap (lines[·]?)
  let starts := (markedColumns extent).map Prod.fst
  let stops := (markedColumns extent).map Prod.snd
  let markLeft := starts.foldl Nat.min extent.first.column
  { indent := Nat.min (commonIndent shown) markLeft
    markLeft := markLeft
    markRight := stops.foldl Nat.max 0
    labelRight := stops.foldl Nat.max (extent.last.column + label.width + 1)
    longest := (shown.map fun line => line.shown.length).foldl Nat.max 0 }

namespace Canvas

def gutter (canvas : Canvas) : Row :=
  Row.blank (canvas.width + 1) ++ Row.ofText .frame "|"

def numberedGutter (canvas : Canvas) (index : Nat) : Row :=
  Row.ofText .frame (padLeft canvas.width (Text.ofNat (index + 1))) ++ Row.blank 1 ++
    Row.ofText .frame "|"

def shownLine (canvas : Canvas) (index : Nat) : Text :=
  ((canvas.lines[index]?).map SourceLine.shown).getD []

/-- The part of a line that is in the window, behind a blank unless there is none. -/
def sourceText (canvas : Canvas) (index : Nat) : Row :=
  let code := canvas.window.view (canvas.shownLine index)
  if code.isEmpty then [] else Row.blank 1 ++ code

/-- A column of a line, counted from the first one in the window. -/
def columnOn (canvas : Canvas) (index column : Nat) : Nat :=
  column - canvas.window.leftOf (canvas.shownLine index).length

def labelled (canvas : Canvas) (marks : Text) : Row :=
  Row.ofText .mark marks ++ Row.blank 1 ++ Row.ofText .mark canvas.label

/-- A row for a range on one line, cut in the middle if the range is more than twice as long as
there is room. -/
def shorten (canvas : Canvas) (row : Row) : Row :=
  let first := canvas.extent.first
  let length := canvas.extent.last.column - first.column
  let room := canvas.window.room
  if 2 * room < length then
    let start := canvas.width + 3 + canvas.columnOn first.line first.column
    row.elide (start + room / 3) (start + length - room / 3)
  else row

def lineRows (canvas : Canvas) : List Row :=
  let first := canvas.extent.first
  let length := canvas.extent.last.column - first.column
  [canvas.shorten (canvas.numberedGutter first.line ++ canvas.sourceText first.line),
    canvas.shorten
      (canvas.gutter ++ Row.blank (1 + canvas.columnOn first.line first.column) ++
        canvas.labelled (List.replicate length '^'))]

/-- Whether only blank space is shown before a range on its first line. -/
def startsLine (canvas : Canvas) : Bool :=
  let first := canvas.extent.first
  ((canvas.shownLine first.line).take first.column).all Text.blank.contains

/-- A line of the source with the bar of a range in front of it. -/
def barredRow (canvas : Canvas) (index : Nat) (bar : Row) : Row :=
  canvas.numberedGutter index ++ Row.blank 1 ++ bar ++ canvas.sourceText index

def bar : Row := Row.ofText .mark "|"

/-- The rows in which a range over several lines begins. -/
def firstRows (canvas : Canvas) : List Row :=
  let first := canvas.extent.first
  if canvas.startsLine then [canvas.barredRow first.line (Row.ofText .mark "/")]
  else
    [canvas.barredRow first.line (Row.blank 1),
      canvas.gutter ++ Row.blank 1 ++
        Row.ofText .mark
          (' ' :: (List.replicate (canvas.columnOn first.line first.column + 1) '_' ++ ['^']))]

/-- The rows for a line inside a range, after the rows up to another line: one line left out
is shown, several are not. -/
def bridgeRows (canvas : Canvas) (previous index : Nat) : List Row :=
  if index = previous + 2 then [canvas.barredRow (previous + 1) bar]
  else if previous + 2 < index then
    [Row.dots ++ Row.blank canvas.width ++ bar]
  else []

def innerRows (canvas : Canvas) (previous : Nat) : List Nat → List Row
  | [] => []
  | index :: rest =>
      canvas.bridgeRows previous index ++ canvas.barredRow index bar ::
        canvas.innerRows index rest

def lastRow (canvas : Canvas) : Row :=
  let last := canvas.extent.last
  canvas.gutter ++ Row.blank 1 ++
    canvas.labelled
      ('|' :: (List.replicate (canvas.columnOn last.line last.column) '_' ++ ['^']))

def spreadRows (canvas : Canvas) : List Row :=
  let first := canvas.extent.first.line
  let last := canvas.extent.last.line
  canvas.firstRows ++ canvas.innerRows first (innerLines canvas.lines first last ++ [last]) ++
    [canvas.lastRow]

def rows (canvas : Canvas) : List Row :=
  if canvas.extent.first.line = canvas.extent.last.line then canvas.lineRows
  else canvas.spreadRows

end Canvas

def headline (message : Text) : Row :=
  Row.ofText .title "error" ++ Row.ofText .headline (": " ++ message)

def placeRow (width line column : Nat) (path : Text) : Row :=
  Row.blank width ++ Row.ofText .frame "--> " ++
    Row.ofText .plain (path ++ ':' :: Text.ofNat line ++ ':' :: Text.ofNat column)

def rows (path : Option Text) (source : Text) (error : ReadError) : List Row :=
  let span := markedSpan source error.span
  let lines := SourceLine.ofSource source
  let extent := Extent.ofSpan lines span
  let width := (Text.ofNat (lastLineNumber source span)).length
  let message := error.fault.message
  let gutterWidth := if extent.first.line = extent.last.line then width + 3 else width + 5
  let window :=
    Window.fit (Window.terminalWidth - gutterWidth) (windowContent lines extent message)
  let canvas : Canvas := ⟨lines, extent, message, width, window⟩
  let places :=
    match path with
    | none => []
    | some path =>
        [placeRow width (extent.first.line + 1) (extent.columnNumber lines span) path]
  headline message :: (places ++ canvas.gutter :: canvas.rows)

end Report

/-- An error of the reader, drawn below the source that shows it. -/
def ReadError.report (error : ReadError) (source : Text) (options : ReportOptions) : Text :=
  Text.ofLines ((Report.rows options.path source error).map (Row.render options.colored))

end YulTree
