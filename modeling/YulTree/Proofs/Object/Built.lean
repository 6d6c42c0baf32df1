import YulTree.Proofs.Object.Reread

/-!
# Trees that are built

The trees that can be put together by making objects, giving them code and debug bundles, and
attaching children.  The names in such a tree are in order, so it is printable as soon as its
code is (`printable_of_built`).
-/

namespace YulTree

open Object

/-- Between braces of its own, the text of a block fills them: the first brace is closed by the
last. -/
def Block.FillsBraces (block : Block) : Prop :=
  ∃ (opening closing : Token) (inner : List Token),
    Token.scan ("\x7b\n" ++ block.text ++ "\n\x7d") = opening :: (inner ++ [closing]) ∧
    opening.kind = .openBrace ∧ closing.kind = .closeBrace ∧
    Balanced (inner.map Token.kind)

/-- A payload that was made from a code body, whose text fills the braces around it. -/
def Payload.IsClosedText (payload : Payload) : Prop :=
  ∃ body : Text, payload.content = .block (.ofBody body) ∧ (Block.ofBody body).FillsBraces

theorem Token.parts_place (start : Nat) (parts : List (TokenKind × Text)) :
    (place start parts).map (fun token => (token.kind, token.text)) = parts := by
  fun_induction place start parts with
  | case1 => rfl
  | case2 start kind text rest inductionHypothesis =>
      rw [List.map_cons, inductionHypothesis]

/-- A text that fills its braces can stand between them. -/
theorem Block.isEnclosed_of_fillsBraces {block : Block} (fills : block.FillsBraces) :
    Text.IsEnclosed ('\n' :: (block.text ++ ['\n'])) := by
  obtain ⟨opening, closing, inner, scanned, opens, closes, balanced⟩ := fills
  have cut := Token.parts_place 0
    (Token.merge (Piece.all ("\x7b\n" ++ block.text ++ "\n\x7d")))
  rw [← Token.scan, scanned, List.map_cons, List.map_append, opens, List.map_singleton,
    closes] at cut
  have short := Token.bracesAreShort_merge_all ("\x7b\n" ++ block.text ++ "\n\x7d")
  rw [← cut] at short
  obtain ⟨first, firstEq⟩ := short (.openBrace, opening.text) (by simp) .openBrace rfl
  obtain ⟨last, lastEq⟩ := short (.closeBrace, closing.text) (by simp) .closeBrace rfl
  have texts := Token.flatten_texts_scan ("\x7b\n" ++ block.text ++ "\n\x7d")
  simp only at firstEq lastEq
  rw [scanned, List.map_cons, List.map_append, List.map_singleton, firstEq, lastEq] at texts
  have whole : first :: ((inner.map Token.text).flatten ++ [last]) =
      '\x7b' :: ('\n' :: (block.text ++ ['\n']) ++ ['\x7d']) := by
    simpa using texts
  obtain ⟨-, behindFirst⟩ := List.cons.inj whole
  obtain ⟨innerText, -⟩ := List.append_inj' behindFirst rfl
  have sameTexts : ((inner.map fun token => (token.kind, token.text)).map Prod.snd).flatten =
      '\n' :: (block.text ++ ['\n']) := by
    rw [← innerText, List.map_map]
    rfl
  have sameKinds : (inner.map fun token => (token.kind, token.text)).map Prod.fst =
      inner.map Token.kind := by
    rw [List.map_map]
    rfl
  rw [← sameTexts]
  exact Token.isEnclosed_of_merge [] cut.symm (sameKinds ▸ balanced)

theorem Payload.isPrintable_of_isClosedText {payload : Payload} (closed : payload.IsClosedText) :
    payload.IsPrintable := by
  obtain ⟨body, content, fills⟩ := closed
  refine ⟨.ofBody body, content, Block.isNormal_normalize body, ?_⟩
  have enclosed := Block.enclosed_lines (Block.isEnclosed_of_fillsBraces fills)
  by_cases empty : (Block.ofBody body).lines = []
  · rw [empty]
    exact ⟨.nil, rfl⟩
  · have textLines : Text.lines (Block.ofBody body).text = (Block.ofBody body).lines :=
      Text.lines_ofLines empty (Block.isNormal_normalize body).unbroken
    have cut : Text.lines ('\n' :: ((Block.ofBody body).text ++ ['\n'])) =
        [[]] ++ ((Block.ofBody body).lines ++ [[]]) := by
      rw [← List.nil_append ('\n' :: _), Text.lines_append, Text.lines_append, textLines]
      rfl
    have edited : Text.Edited ([[]] ++ ((Block.ofBody body).lines ++ [[]]))
        (Block.ofBody body).lines := .dropAround (by simp) _ (by simp)
    rw [cut] at enclosed
    exact (Block.Enclosed.of_edited edited).mp enclosed

namespace Object

variable {κ : Type}

inductive Built : Object κ → Prop where
  | new (name : Text) : Built (.new name)
  | setCode {object : Object κ} (code : κ) (analysis : Option Text) :
      Built object → Built (object.setCode code analysis)
  | setDebug {object : Object κ} (bundle : DebugBundle) :
      Built object → Built (object.setDebug bundle)
  | attachData {object grown : Object κ} {entry : Data} :
      Built object → object.attach (.data entry) = .ok grown → Built grown
  | attachObject {object nested grown : Object κ} :
      Built object → Built nested → object.attach (.object nested) = .ok grown → Built grown

mutual

def WellNamed : Object κ → Prop
  | { name, code := _, analysis := _, debug := _, slot := _, children } =>
      NamesFit name (children.map Node.name) ∧ WellNamedAll children

def WellNamedAll : List (Node κ) → Prop
  | [] => True
  | .data _ :: rest => WellNamedAll rest
  | .object nested :: rest => WellNamed nested ∧ WellNamedAll rest

end

mutual

/-- How many objects stand inside one another, the outermost one included. -/
def levels : Object κ → Nat
  | { name := _, code := _, analysis := _, debug := _, slot := _, children } =>
      levelsAll children + 1

def levelsAll : List (Node κ) → Nat
  | [] => 0
  | .data _ :: rest => levelsAll rest
  | .object nested :: rest => max (levels nested) (levelsAll rest)

end

mutual

def EveryCode (property : κ → Prop) : Object κ → Prop
  | { name := _, code, analysis := _, debug := _, slot := _, children } =>
      (∀ payload ∈ code, property payload) ∧ EveryCodeAll property children

def EveryCodeAll (property : κ → Prop) : List (Node κ) → Prop
  | [] => True
  | .data _ :: rest => EveryCodeAll property rest
  | .object nested :: rest => EveryCode property nested ∧ EveryCodeAll property rest

end

theorem wellNamed_iff (object : Object κ) :
    object.WellNamed ↔ NamesFit object.name object.childNames ∧ WellNamedAll object.children := by
  cases object
  exact Iff.rfl

theorem wellNamedAll_append {first second : List (Node κ)} :
    WellNamedAll (first ++ second) ↔ WellNamedAll first ∧ WellNamedAll second := by
  induction first with
  | nil => exact ⟨fun named => ⟨trivial, named⟩, And.right⟩
  | cons node rest inductionHypothesis =>
      cases node with
      | data entry => exact inductionHypothesis
      | object nested =>
          rw [List.cons_append, WellNamedAll, inductionHypothesis, WellNamedAll, and_assoc]

/-- Attaching a child whose names are in order keeps the names in order. -/
theorem wellNamed_of_attach {parent grown : Object κ} {node : Node κ}
    (wellNamed : parent.WellNamed) (attached : parent.attach node = .ok grown)
    (nodeNamed : WellNamedAll [node.inSlot parent.children.length]) : grown.WellNamed := by
  obtain ⟨namesFit, childrenNamed⟩ := (wellNamed_iff parent).mp wellNamed
  have grownNames := namesFit_of_attach namesFit attached
  obtain ⟨-, -, -, rfl⟩ := attach_eq_ok_iff.mp attached
  exact (wellNamed_iff _).mpr ⟨grownNames, wellNamedAll_append.mpr ⟨childrenNamed, nodeNamed⟩⟩

/-- In a tree that was built the names are in order. -/
theorem wellNamed_of_built {object : Object κ} (built : object.Built) : object.WellNamed := by
  induction built with
  | new name => exact ⟨.nil name, trivial⟩
  | @setCode object code analysis built wellNamed =>
      exact (wellNamed_iff _).mpr ((wellNamed_iff object).mp wellNamed)
  | @setDebug object bundle built wellNamed =>
      exact (wellNamed_iff _).mpr ((wellNamed_iff object).mp wellNamed)
  | attachData built attached wellNamed => exact wellNamed_of_attach wellNamed attached trivial
  | @attachObject object nested grown built nestedBuilt attached wellNamed nestedNamed =>
      refine wellNamed_of_attach wellNamed attached ⟨?_, trivial⟩
      cases nested
      exact nestedNamed

mutual

/-- A tree with its names in order, closed texts and few enough levels is printable. -/
theorem printable_of_wellNamed : ∀ (object : Object Payload) (room : Nat), object.WellNamed →
    object.levels ≤ room → object.EveryCode Payload.IsClosedText → object.Printable room
  | { name, code, analysis, debug, slot, children }, room, wellNamed, shallow, closed => by
      have deep : levelsAll children + 1 ≤ room := shallow
      refine ⟨by omega, ?_, wellNamed.1, ?_⟩
      · exact fun payload member => Payload.isPrintable_of_isClosedText (closed.1 payload member)
      · exact printableAll_of_wellNamed children (room - 1) wellNamed.2 (by omega) closed.2

theorem printableAll_of_wellNamed : ∀ (children : List (Node Payload)) (room : Nat),
    WellNamedAll children → levelsAll children ≤ room →
    EveryCodeAll Payload.IsClosedText children → PrintableAll room children
  | [], _, _, _, _ => trivial
  | .data _ :: rest, room, wellNamed, shallow, closed =>
      printableAll_of_wellNamed rest room wellNamed shallow closed
  | .object nested :: rest, room, wellNamed, shallow, closed => by
      have both : max nested.levels (levelsAll rest) ≤ room := shallow
      exact ⟨printable_of_wellNamed nested room wellNamed.1 (by omega) closed.1,
        printableAll_of_wellNamed rest room wellNamed.2 (by omega) closed.2⟩

end

/-- A tree that was built from closed texts, with few enough levels, is printable. -/
theorem printable_of_built {object : Object Payload} {room : Nat} (built : object.Built)
    (shallow : object.levels ≤ room) (closed : object.EveryCode Payload.IsClosedText) :
    object.Printable room :=
  printable_of_wellNamed object room (wellNamed_of_built built) shallow closed

end Object

end YulTree
