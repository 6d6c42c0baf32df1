import YulTree.Object.Json
import YulTree.Object.Printer
import YulTree.Proofs.Code.Printed
import YulTree.Proofs.Object.Names
import YulTree.Proofs.Source.Table

/-!
# What is left of a printed tree

The trees whose texts can be read, and the tree that is read from such a text.
-/

namespace YulTree

/-- A payload whose text is read back as that payload. -/
def Payload.IsPrintable (payload : Payload) : Prop :=
  ∃ block : Block, payload.content = .block block ∧ block.Printable

/-- What stands between the braces of code that is printed at a level. -/
def Payload.bodyAt (level : Nat) (payload : Payload) : Text :=
  match payload.content with
  | .block block => block.bodyAt level
  | .probe _ => []

theorem Payload.bodyAt_of_block {payload : Payload} {block : Block}
    (content : payload.content = .block block) (level : Nat) :
    payload.bodyAt level = block.bodyAt level := by
  rw [bodyAt, content]

/-- Printed code is read back as the code. -/
theorem Payload.ofBody_bodyAt {payload : Payload} (printable : payload.IsPrintable)
    (dialect : Option Dialect) (level : Nat) :
    ofBody dialect (payload.bodyAt level) = { payload with dialect } := by
  obtain ⟨block, content, blockPrintable⟩ := printable
  rw [bodyAt_of_block content, ofBody, Block.ofBody, Block.normalize_bodyAt blockPrintable.normal,
    content]

theorem Data.unbroken_render (entry : Data) : '\n' ∉ entry.render := by
  have keywordUnbroken : '\n' ∉ ("data " : Text) := by decide
  have openingUnbroken : '\n' ∉ (" hex\"" : Text) := by decide
  have closingUnbroken : '\n' ∉ ("\"" : Text) := by decide
  have digitsUnbroken : '\n' ∉ entry.bytes.toHex := by
    intro member
    exact absurd (Lexeme.isHexRest_of_mem_toHex member).1 (by decide)
  unfold render
  simp only [List.mem_append, not_or]
  exact ⟨⟨⟨⟨keywordUnbroken, Text.Quoted.unbroken_encode entry.name⟩, openingUnbroken⟩,
    digitsUnbroken⟩, closingUnbroken⟩

namespace Object

mutual

/-- Every payload is printable, the names of children are in order, and no more than `room`
objects stand inside one another. -/
def Printable (room : Nat) : Object Payload → Prop
  | { name, code, analysis := _, debug := _, slot := _, children } =>
      0 < room ∧ (∀ payload ∈ code, payload.IsPrintable) ∧
        NamesFit name (children.map Node.name) ∧ PrintableAll (room - 1) children

def PrintableAll (room : Nat) : List (Node Payload) → Prop
  | [] => True
  | .data _ :: rest => PrintableAll room rest
  | .object nested :: rest => Printable room nested ∧ PrintableAll room rest

end

/-- What is left of a debug bundle: its table, if tables are written. -/
def rereadDebug (useSrc : Bool) (debug : Option DebugBundle) : Option DebugBundle :=
  if useSrc then (debug.bind DebugBundle.table).map fun table => ⟨some table⟩ else none

mutual

/-- The tree that is read from the text of a tree, in a slot, if any. -/
def reread (dialect : Option Dialect) (useSrc : Bool) (slot : Option Nat) :
    Object Payload → Object Payload
  | { name, code, analysis := _, debug, slot := _, children } =>
      { name, analysis := none, slot
        code := code.map fun payload => { payload with dialect }
        debug := rereadDebug useSrc debug
        children := rereadAll dialect useSrc 0 children }

def rereadAll (dialect : Option Dialect) (useSrc : Bool) (slot : Nat) :
    List (Node Payload) → List (Node Payload)
  | [] => []
  | .data entry :: rest => .data entry :: rereadAll dialect useSrc (slot + 1) rest
  | .object nested :: rest =>
      .object (reread dialect useSrc (some slot) nested) ::
        rereadAll dialect useSrc (slot + 1) rest

end

mutual

/-- The tree that is read from the text of a tree, in a slot, if any, with payloads that are made
from what stands between the braces of its code.  Code of the tree itself is at a level, and that of
children is one level deeper. -/
def asPrinted {κ : Type} (payload : Text → κ) (useSrc : Bool) (level : Nat) (slot : Option Nat) :
    Object Payload → Object κ
  | { name, code, analysis := _, debug, slot := _, children } =>
      { name, analysis := none, slot
        code := code.map fun own => payload (own.bodyAt level)
        debug := rereadDebug useSrc debug
        children := asPrintedAll payload useSrc (level + 1) 0 children }

def asPrintedAll {κ : Type} (payload : Text → κ) (useSrc : Bool) (level slot : Nat) :
    List (Node Payload) → List (Node κ)
  | [] => []
  | .data entry :: rest => .data entry :: asPrintedAll payload useSrc level (slot + 1) rest
  | .object nested :: rest =>
      .object (asPrinted payload useSrc level (some slot) nested) ::
        asPrintedAll payload useSrc level (slot + 1) rest

end

mutual

/-- What is read from between the braces is the code that was printed there. -/
theorem asPrinted_eq_reread (dialect : Option Dialect) (useSrc : Bool) :
    ∀ (object : Object Payload) (room level : Nat) (slot : Option Nat), object.Printable room →
      object.asPrinted (Payload.ofBody dialect) useSrc level slot =
        object.reread dialect useSrc slot
  | { name, code, analysis, debug, slot, children }, room, level, newSlot, printable => by
      obtain ⟨-, codePrintable, -, childrenPrintable⟩ := printable
      have codeRead : (code.map fun own => Payload.ofBody dialect (own.bodyAt level)) =
          code.map fun payload => { payload with dialect } :=
        Option.map_congr fun payload isCode =>
          Payload.ofBody_bodyAt (codePrintable payload isCode) dialect level
      rw [asPrinted, reread, codeRead,
        asPrintedAll_eq_rereadAll dialect useSrc children _ _ 0 childrenPrintable]

theorem asPrintedAll_eq_rereadAll (dialect : Option Dialect) (useSrc : Bool) :
    ∀ (children : List (Node Payload)) (room level slot : Nat), PrintableAll room children →
      asPrintedAll (Payload.ofBody dialect) useSrc level slot children =
        rereadAll dialect useSrc slot children
  | [], _, _, _, _ => rfl
  | .data entry :: rest, room, level, slot, printable => by
      rw [asPrintedAll, rereadAll,
        asPrintedAll_eq_rereadAll dialect useSrc rest room level (slot + 1) printable]
  | .object nested :: rest, room, level, slot, printable => by
      rw [asPrintedAll, rereadAll,
        asPrinted_eq_reread dialect useSrc nested room level (some slot) printable.1,
        asPrintedAll_eq_rereadAll dialect useSrc rest room level (slot + 1) printable.2]

end

section

variable {κ : Type} [Code κ]

def text (useSrc : Bool) (context : Context) (object : Object κ) : Text :=
  (object.printCode context).layout useSrc

def texts (useSrc : Bool) (context : Context) (children : List (Node κ)) : List Text :=
  layoutAll useSrc
    (mapAll (fun entry => Code.print entry.1 entry.2) (inContextAll context children))

theorem texts_data (useSrc : Bool) (context : Context) (entry : Data)
    (rest : List (Node κ)) :
    texts useSrc context (.data entry :: rest) = entry.render :: texts useSrc context rest := rfl

theorem texts_object (useSrc : Bool) (context : Context) (nested : Object κ)
    (rest : List (Node κ)) :
    texts useSrc context (.object nested :: rest) =
      nested.text useSrc context :: texts useSrc context rest := rfl

/-- The text of an object, put together from those of its code and of its children. -/
theorem text_eq (useSrc : Bool) (context : Context) (object : Object κ) :
    object.text useSrc context =
      (if useSrc then pragmaLine object.debug else []) ++
        match object.code.map (Code.print (context.enter object.debug)) with
        | none => enclose object.name (texts useSrc (context.enter object.debug) object.children)
        | some printed =>
            if object.name.isEmpty && object.children.isEmpty then printed
            else
              enclose object.name
                (("code " ++ printed) ::
                  texts useSrc (context.enter object.debug) object.children) := by
  obtain ⟨name, code, analysis, debug, slot, children⟩ := object
  cases code with
  | none => rfl
  | some payload =>
      cases children with
      | nil => rfl
      | cons child rest => cases child <;> rfl

def itemTexts (useSrc : Bool) (context : Context) (object : Object κ) : List Text :=
  (object.code.map fun payload =>
      "code " ++ Code.print (context.enter object.debug) payload).toList ++
    texts useSrc (context.enter object.debug) object.children

/-- Whether an object is written as its code alone. -/
def IsCodeAlone (object : Object κ) : Prop :=
  object.name = [] ∧ object.code.isSome ∧ object.children = []

/-- An object that is not written as its code is written as its pragma and what it encloses. -/
theorem text_of_enclosed {object : Object κ} (notAlone : ¬ object.IsCodeAlone) (useSrc : Bool)
    (context : Context) :
    object.text useSrc context =
      (if useSrc then pragmaLine object.debug else []) ++
        enclose object.name (object.itemTexts useSrc context) := by
  rw [text_eq, itemTexts]
  cases code : object.code with
  | none => rfl
  | some payload =>
      have enclosed : (object.name.isEmpty && object.children.isEmpty) = false := by
        refine Bool.eq_false_iff.mpr fun alone => notAlone ?_
        rw [Bool.and_eq_true, List.isEmpty_iff, List.isEmpty_iff] at alone
        exact ⟨alone.1, by rw [code]; rfl, alone.2⟩
      simp only [Option.map_some, enclosed]
      rfl

/-- Items on lines of their own, at a level. -/
def itemsAt (level : Nat) (items : List Text) : Text :=
  items.flatMap fun item => Text.shift level item ++ ['\n']

def pragmaAt (useSrc : Bool) (level : Nat) (debug : Option DebugBundle) : Text :=
  if useSrc then
    match debug.bind DebugBundle.table with
    | none => []
    | some table => Text.margin level ++ ('/' :: '/' :: (table.commentText ++ ['\n']))
  else []

theorem itemsAt_cons (level : Nat) (item : Text) (rest : List Text) :
    itemsAt level (item :: rest) = Text.shift level item ++ '\n' :: itemsAt level rest := by
  rw [itemsAt, List.flatMap_cons, List.append_assoc]
  rfl

theorem itemsAt_append (level : Nat) (first second : List Text) :
    itemsAt level (first ++ second) = itemsAt level first ++ itemsAt level second :=
  List.flatMap_append

theorem shift_ofLines (level : Nat) {items : List Text} (nonempty : items ≠ []) :
    Text.shift level (Text.ofLines items) ++ ['\n'] = itemsAt level items := by
  induction items with
  | nil => exact absurd rfl nonempty
  | cons item rest inductionHypothesis =>
      cases rest with
      | nil =>
          rw [Text.ofLines_singleton, itemsAt_cons]
          rfl
      | cons next others =>
          rw [Text.ofLines_cons (List.cons_ne_nil next others), Text.shift_append, itemsAt_cons,
            ← inductionHypothesis (List.cons_ne_nil next others), List.append_assoc]
          rfl

theorem shift_itemLines (level : Nat) (items : List Text) :
    Text.shift level (itemLines items ++ ['\x7d']) =
      itemsAt (level + 1) items ++ (Text.margin level ++ ['\x7d']) := by
  have closing : Text.shift level ['\x7d'] = Text.margin level ++ ['\x7d'] :=
    Text.shift_line (by decide) (by decide) level
  cases items with
  | nil => exact closing
  | cons item rest =>
      have cut : itemLines (item :: rest) ++ ['\x7d'] =
          Text.indent (Text.ofLines (item :: rest)) ++ '\n' :: ['\x7d'] := by
        simp [itemLines]
      rw [cut, Text.shift_append, Text.shift_indent, closing,
        ← shift_ofLines (level + 1) (List.cons_ne_nil item rest), List.append_assoc]
      rfl

theorem shift_enclose (level : Nat) (name : Text) (items : List Text) :
    Text.shift level (enclose name items) =
      Text.margin level ++
        ("object " ++
          (Text.Quoted.encode name ++
            (" \x7b\n" ++ (itemsAt (level + 1) items ++ (Text.margin level ++ ['\x7d']))))) := by
  have cut : enclose name items =
      ("object " ++ (Text.Quoted.encode name ++ [' ', '\x7b'])) ++
        '\n' :: (itemLines items ++ ['\x7d']) := by
    unfold enclose
    simp
  have unbroken : '\n' ∉ ("object " : Text) ++ (Text.Quoted.encode name ++ [' ', '\x7b']) := by
    have keywordUnbroken : '\n' ∉ ("object " : Text) := by decide
    have bracesUnbroken : '\n' ∉ [' ', '\x7b'] := by decide
    simp only [List.mem_append, not_or]
    exact ⟨keywordUnbroken, Text.Quoted.unbroken_encode name, bracesUnbroken⟩
  rw [cut, Text.shift_append, shift_itemLines, Text.shift_line (by simp) unbroken]
  simp

theorem shift_pragmaLine (useSrc : Bool) (level : Nat) (debug : Option DebugBundle)
    (rest : Text) :
    Text.shift level ((if useSrc then pragmaLine debug else []) ++ rest) =
      pragmaAt useSrc level debug ++ Text.shift level rest := by
  unfold pragmaAt pragmaLine
  cases useSrc with
  | false => rfl
  | true =>
      cases debug.bind DebugBundle.table with
      | none => rfl
      | some table =>
          have cut : ("/// " : Text) ++ table.render ++ "\n" ++ rest =
              ('/' :: '/' :: table.commentText) ++ '\n' :: rest := by
            unfold SourceTable.commentText
            simp
          have unbroken : '\n' ∉ '/' :: '/' :: table.commentText := by
            simp only [List.mem_cons, not_or]
            exact ⟨by decide, by decide, table.unbroken_commentText⟩
          simp only [if_true]
          rw [cut, Text.shift_append, Text.shift_line (by simp) unbroken]
          simp

theorem print_eq_text (selection : Selection) (sources : SourceProvider) (object : Object κ) :
    object.print selection sources =
      object.text selection.useSrc ⟨selection, sources, none⟩ := rfl

end

end Object

end YulTree
