import YulTree.Proofs.Code.Substance
import YulTree.Proofs.Object.Inheritance
import YulTree.Proofs.Reader.Soundness
import YulTree.Proofs.Reader.Stable
import YulTree.Proofs.Token.Within

/-!
# The tokens of code

Code is normalized when it is read, and laid out anew when it is displayed.  Neither touches its
tokens, layout and comments apart: they are the same between the braces of the source, in the code
that is kept, and between the braces of the display (`read_keeps_substance`).

The code of an object is followed through the three by the path of slots to the object.
-/

namespace YulTree

namespace Object

section

variable {κ : Type} (payload : Text → κ) (useSrc : Bool)

theorem object?_asPrintedAll (children : List (Node Payload)) (level slot place : Nat) :
    (asPrintedAll payload useSrc level slot children)[place]?.bind Node.object? =
      (children[place]?.bind Node.object?).map fun nested =>
        nested.asPrinted payload useSrc level (some (slot + place)) := by
  induction children generalizing slot place with
  | nil => rfl
  | cons child rest inductionHypothesis =>
      cases place with
      | zero => cases child <;> rfl
      | succ place =>
          have behind := inductionHypothesis (slot + 1) place
          rw [Nat.succ_add_eq_add_succ] at behind
          cases child with
          | data entry => exact behind
          | object nested => exact behind

/-- Along a path of slots, the level grows with each slot. -/
theorem codeAt?_asPrinted (path : List Nat) (object : Object Payload) (level : Nat)
    (slot : Option Nat) :
    (object.asPrinted payload useSrc level slot).codeAt? path =
      (object.codeAt? path).map fun own => payload (own.bodyAt (level + path.length)) := by
  induction path generalizing object level slot with
  | nil =>
      obtain ⟨name, code, analysis, debug, slot, children⟩ := object
      rfl
  | cons first rest inductionHypothesis =>
      have below : ((object.asPrinted payload useSrc level slot).childAt? first).bind
          Node.object? =
          ((object.childAt? first).bind Node.object?).map fun nested =>
            nested.asPrinted payload useSrc (level + 1) (some first) := by
        obtain ⟨name, code, analysis, debug, slot, children⟩ := object
        have printed := object?_asPrintedAll payload useSrc children (level + 1) 0 first
        rw [Nat.zero_add] at printed
        exact printed
      rw [codeAt?_cons_eq_bind, codeAt?_cons_eq_bind, below, Option.bind_map, Option.map_bind]
      congr 1
      funext nested
      rw [Function.comp_apply, inductionHypothesis, List.length_cons,
        Nat.succ_add_eq_add_succ]
      rfl

end

end Object

namespace Grammar

def ItemTree.nested? : ItemTree → Option (Option (Terminal .pragma) × ObjectTree)
  | .data _ => none
  | .object pragma nested => some (pragma, nested)

/-- The block of the object at the end of a path of slots. -/
def ObjectTree.blockAt? : List Nat → ObjectTree → Option BlockTree
  | [], tree => tree.code.map CodeTree.block
  | slot :: path, tree =>
      (tree.items[slot]?.bind ItemTree.nested?).bind fun nested => nested.2.blockAt? path

def RootTree.blockAt? (path : List Nat) : RootTree → Option BlockTree
  | .block _ lone => if path.isEmpty then some lone else none
  | .object _ outermost => outermost.blockAt? path

section

variable {κ : Type} (payload : Text → κ) (source : Text)

theorem object?_denoteAll (items : List ItemTree) (slot place : Nat) :
    (ItemTree.denoteAll payload source slot items)[place]?.bind Node.object? =
      (items[place]?.bind ItemTree.nested?).map fun nested =>
        nested.2.denote payload source nested.1 (some (slot + place)) := by
  induction items generalizing slot place with
  | nil => rfl
  | cons item rest inductionHypothesis =>
      cases place with
      | zero => cases item <;> rfl
      | succ place =>
          have behind := inductionHypothesis (slot + 1) place
          rw [Nat.succ_add_eq_add_succ] at behind
          cases item with
          | data entry => exact behind
          | object pragma nested => exact behind

theorem ObjectTree.codeAt?_denote (path : List Nat) (tree : ObjectTree)
    (pragma : Option (Terminal .pragma)) (slot : Option Nat) :
    (tree.denote payload source pragma slot).codeAt? path =
      (tree.blockAt? path).map fun block => payload (block.body source) := by
  induction path generalizing tree pragma slot with
  | nil =>
      obtain ⟨keyword, name, opening, code, items, closing⟩ := tree
      cases code <;> rfl
  | cons first rest inductionHypothesis =>
      have below : ((tree.denote payload source pragma slot).childAt? first).bind Node.object? =
          (tree.items[first]?.bind ItemTree.nested?).map fun nested =>
            nested.2.denote payload source nested.1 (some first) := by
        obtain ⟨keyword, name, opening, code, items, closing⟩ := tree
        have denoted := object?_denoteAll payload source items 0 first
        rw [Nat.zero_add] at denoted
        exact denoted
      rw [Object.codeAt?_cons_eq_bind, below, ObjectTree.blockAt?, Option.bind_map,
        Option.map_bind]
      congr 1
      funext nested
      exact inductionHypothesis nested.2 nested.1 (some first)

/-- The code at the end of a path is made from what stands in the block there. -/
theorem RootTree.codeAt?_denote (path : List Nat) (tree : RootTree) :
    (tree.denote payload source).codeAt? path =
      (tree.blockAt? path).map fun block => payload (block.body source) := by
  cases tree with
  | block pragma lone => cases path <;> rfl
  | object pragma outermost =>
      exact ObjectTree.codeAt?_denote payload source path outermost pragma none

end

theorem exists_suffix_of_nested {items : List ItemTree} {slot : Nat}
    {nested : Option (Terminal .pragma) × ObjectTree}
    (placed : nested ∈ items[slot]?.bind ItemTree.nested?) (rest : List Lexeme) :
    ∃ more, nested.2.lexemes ++ more <:+ ItemTree.lexemesAll items ++ rest := by
  induction items generalizing slot with
  | nil => cases placed
  | cons item others inductionHypothesis =>
      cases slot with
      | zero =>
          cases item with
          | data entry => cases placed
          | object pragma tree =>
              obtain rfl := Option.some.inj placed
              refine ⟨ItemTree.lexemesAll others ++ rest, ?_⟩
              rw [ItemTree.lexemesAll, List.append_assoc, List.append_assoc]
              exact List.suffix_append _ _
      | succ slot =>
          obtain ⟨more, row⟩ := inductionHypothesis placed
          cases item with
          | data entry =>
              rw [ItemTree.lexemesAll, List.append_assoc]
              exact ⟨more, row.trans (List.suffix_append _ _)⟩
          | object pragma tree =>
              rw [ItemTree.lexemesAll, List.append_assoc, List.append_assoc]
              exact ⟨more, row.trans
                ((List.suffix_append _ _).trans (List.suffix_append _ _))⟩

theorem ObjectTree.exists_suffix_of_blockAt? {source : Text} {path : List Nat}
    {tree : ObjectTree} {block : BlockTree} (placed : tree.blockAt? path = some block)
    {rest : List Lexeme} (row : tree.lexemes ++ rest <:+ Lexeme.all source) :
    ∃ more, block.lexemes ++ more <:+ Lexeme.all source := by
  induction path generalizing tree rest with
  | nil =>
      have innerRow := ObjectTree.inner_suffix source row
      obtain ⟨keyword, name, opening, code, items, closing⟩ := tree
      obtain ⟨code, rfl, rfl⟩ := Option.map_eq_some_iff.mp placed
      exact ⟨_, (List.suffix_cons _ _).trans innerRow⟩
  | cons slot path inductionHypothesis =>
      obtain ⟨nested, nestedPlaced, blockPlaced⟩ := Option.bind_eq_some_iff.mp placed
      have itemsRow := (List.suffix_append _ _).trans (ObjectTree.inner_suffix source row)
      obtain ⟨more, nestedRow⟩ := exists_suffix_of_nested nestedPlaced
        (tree.closing.lexeme :: rest)
      exact inductionHypothesis blockPlaced (nestedRow.trans itemsRow)

/-- A block of a derivation of a source stands in the source. -/
theorem RootTree.exists_suffix_of_blockAt? {source : Text} {tree : RootTree}
    (derived : tree.lexemes = Lexeme.all source) {path : List Nat} {block : BlockTree}
    (placed : tree.blockAt? path = some block) :
    ∃ more, block.lexemes ++ more <:+ Lexeme.all source := by
  cases tree with
  | block pragma lone =>
      cases path with
      | nil =>
          obtain rfl := Option.some.inj placed
          exact ⟨[], suffix_of_eq_append derived⟩
      | cons slot path => cases placed
  | object pragma outermost =>
      have row : outermost.lexemes ++ [] <:+ Lexeme.all source := suffix_of_eq_append derived
      exact ObjectTree.exists_suffix_of_blockAt? placed row

/-- The body of a block without garbage has the tokens between its braces. -/
theorem BlockTree.mem_substance?_body {source : Text} {block : BlockTree} {rest : List Lexeme}
    (row : block.lexemes ++ rest <:+ Lexeme.all source)
    (clean : ∀ lexeme ∈ block.inner, lexeme.kind ≠ .garbage) :
    Lexeme.substance block.inner ∈ (block.body source).substance? false := by
  obtain ⟨before, cut⟩ := block.exists_cut source row
  obtain ⟨found, known⟩ := Lexeme.substance_between cut block.opening.isKind block.closing.isKind
    block.balanced
  rw [BlockTree.body_eq source row]
  exact known (found clean)

/-- If the tokens of a body are known, they are those between the braces. -/
theorem BlockTree.substance_inner {source : Text} {block : BlockTree} {rest : List Lexeme}
    {parts : List (TokenKind × Text)} (row : block.lexemes ++ rest <:+ Lexeme.all source)
    (known : parts ∈ (block.body source).substance? false) :
    Lexeme.substance block.inner = parts := by
  obtain ⟨before, cut⟩ := block.exists_cut source row
  obtain ⟨-, inPlace⟩ := Lexeme.substance_between cut block.opening.isKind block.closing.isKind
    block.balanced
  rw [BlockTree.body_eq source row] at known
  have isSome := Option.isSome_of_mem known
  exact Option.some.inj ((inPlace isSome).symm.trans known)

/-- A block and the block that is displayed in its place have the same tokens, and so has what is
kept in between. -/
theorem substance_of_displayed {source display : Text} {block printed : BlockTree}
    {rest more : List Lexeme} {level : Nat}
    (row : block.lexemes ++ rest <:+ Lexeme.all source)
    (printedRow : printed.lexemes ++ more <:+ Lexeme.all display)
    (displayed : printed.body display = (Block.ofBody (block.body source)).bodyAt level)
    (clean : ∀ lexeme ∈ block.inner, lexeme.kind ≠ .garbage) :
    Lexeme.substance (Lexeme.all (block.body source)) = Lexeme.substance block.inner ∧
      Lexeme.substance (Lexeme.all (Block.ofBody (block.body source)).text) =
        Lexeme.substance block.inner ∧
      Lexeme.substance (Lexeme.all (printed.body display)) = Lexeme.substance block.inner ∧
      Lexeme.substance printed.inner = Lexeme.substance block.inner := by
  have inBody := BlockTree.mem_substance?_body row clean
  have inText := Block.mem_substance?_text inBody
  have inDisplay := Block.mem_substance?_bodyAt inBody level
  rw [← displayed] at inDisplay
  exact ⟨Lexeme.substance_all inBody, Lexeme.substance_all inText,
    Lexeme.substance_all inDisplay, BlockTree.substance_inner printedRow inDisplay⟩

/-- The block that is displayed in place of a block that was read. -/
theorem exists_displayed {object : Object Payload} {again : RootTree}
    {level : Nat} {path : List Nat} {own : Payload}
    (denoted : ∀ (κ : Type) (payload : Text → κ), again.denote payload object.display =
      object.asPrinted payload true level none)
    (coded : object.codeAt? path = some own) :
    ∃ printed, again.blockAt? path = some printed ∧
      printed.body object.display = own.bodyAt (level + path.length) := by
  have bodies := RootTree.codeAt?_denote id object.display path again
  rw [denoted, Object.codeAt?_asPrinted, coded, Option.map_some] at bodies
  obtain ⟨printed, placed, body⟩ := Option.map_eq_some_iff.mp bodies.symm
  exact ⟨printed, placed, body⟩

end Grammar

open Grammar in
/-- The tokens of code, layout and comments apart, are kept: wherever there is code in a tree that
was read and no garbage between its braces in the source, the same tokens stand between those
braces, in the body that they enclose, in the text of the code that is kept, and between the braces
of the code where the tree is displayed.  The derivations are the only ones of their texts
(`RootTree.eq_of_lexemes_eq`), and both denote the tree. -/
theorem Object.read_keeps_substance {options : ReadOptions} {source : Text}
    {object : Object Payload} (read : Object.read options source = .ok object) :
    ∃ tree again : RootTree,
      tree.lexemes = Lexeme.all source ∧
      tree.denote options.reader.payload source = object ∧
      again.lexemes = Lexeme.all object.display ∧
      again.denote options.reader.payload object.display = object ∧
      ∀ (path : List Nat) (own : Payload), object.codeAt? path = some own →
        ∃ (block printed : BlockTree) (kept : Block),
          tree.blockAt? path = some block ∧ again.blockAt? path = some printed ∧
          own.content = .block kept ∧
          ((∀ lexeme ∈ block.inner, lexeme.kind ≠ .garbage) →
            Lexeme.substance (Lexeme.all (block.body source)) = Lexeme.substance block.inner ∧
            Lexeme.substance (Lexeme.all kept.text) = Lexeme.substance block.inner ∧
            Lexeme.substance (Lexeme.all (printed.body object.display)) =
              Lexeme.substance block.inner ∧
            Lexeme.substance printed.inner = Lexeme.substance block.inner) := by
  obtain ⟨tree, derived, admissible, rfl⟩ := exists_derivation_of_read read
  obtain ⟨again, level, derivedAgain, -, denoted⟩ :=
    exists_printed_of_derivation derived admissible
  have restored := (denoted _ options.reader.payload).trans
    (asPrinted_denote derived admissible level)
  refine ⟨tree, again, derived, rfl, derivedAgain, restored, ?_⟩
  intro path own coded
  have made := RootTree.codeAt?_denote options.reader.payload source path tree
  rw [coded] at made
  obtain ⟨block, placed, rfl⟩ := Option.map_eq_some_iff.mp made.symm
  obtain ⟨printed, printedPlaced, displayed⟩ := exists_displayed denoted coded
  obtain ⟨rest, row⟩ := RootTree.exists_suffix_of_blockAt? derived placed
  obtain ⟨more, printedRow⟩ := RootTree.exists_suffix_of_blockAt? derivedAgain printedPlaced
  exact ⟨block, printed, .ofBody (block.body source), placed, printedPlaced, rfl,
    substance_of_displayed row printedRow displayed⟩

open Grammar in
/-- So it is with a quoted comment, with a comment, and with lines that are indented. -/
theorem Object.read_keeps_substance_nested :
    ∃ (source : Text) (object : Object Payload) (tree again : RootTree)
      (block printed : BlockTree),
      source =
        "object \"A\" \x7b object \"B\" \x7b code \x7b f('/*') // x \n \n  y\n\x7d \x7d \x7d" ∧
      Object.read .standard source = .ok object ∧ tree.lexemes = Lexeme.all source ∧
      again.lexemes = Lexeme.all object.display ∧ tree.blockAt? [0] = some block ∧
      again.blockAt? [0] = some printed ∧
      Lexeme.substance printed.inner = Lexeme.substance block.inner ∧
      Lexeme.substance block.inner =
        ([(.identifier, "f"), (.punctuation, "("), (.stringLiteral, "'/*'"), (.punctuation, ")"),
          (.identifier, "y")] : List (TokenKind × Text)) := by
  obtain ⟨source, sourceEq⟩ : ∃ source : Text, source =
      "object \"A\" \x7b object \"B\" \x7b code \x7b f('/*') // x \n \n  y\n\x7d \x7d \x7d" :=
    ⟨_, rfl⟩
  have nestedCode : (Object.read .standard source).toOption.bind (codeAt? · [0]) =
      some ⟨.block ⟨["f('/*') // x", [], "y"]⟩, ReadOptions.standard.dialect⟩ := by
    subst sourceEq
    decide +kernel
  have noGarbage : ∀ lexeme ∈ Lexeme.all source, lexeme.kind ≠ .garbage := by
    subst sourceEq
    decide +kernel
  cases read : Object.read .standard source with
  | error error =>
      rw [read] at nestedCode
      cases nestedCode
  | ok object =>
      rw [read] at nestedCode
      obtain ⟨tree, again, derived, -, derivedAgain, -, everywhere⟩ := read_keeps_substance read
      obtain ⟨block, printed, kept, placed, printedPlaced, content, same⟩ :=
        everywhere [0] _ nestedCode
      obtain ⟨more, row⟩ := RootTree.exists_suffix_of_blockAt? derived placed
      obtain ⟨-, keptSame, -, printedSame⟩ := same fun lexeme member =>
        noGarbage lexeme (row.subset (by simp [BlockTree.lexemes, member]))
      obtain rfl := Payload.Content.block.inj content
      refine ⟨source, object, tree, again, block, printed, sourceEq, read, derived, derivedAgain,
        placed, printedPlaced, printedSame, keptSame.symm.trans ?_⟩
      decide +kernel

end YulTree
