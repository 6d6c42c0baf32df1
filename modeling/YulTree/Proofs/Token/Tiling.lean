import YulTree.Proofs.Token.Shape
import YulTree.Token.Packed

/-!
# Tilings

The tokens of a source lie one behind the other, without gaps, from its start to its end, and no
garbage stands next to garbage (`tiles_scan`).  A loop that only remembers where garbage began
finds the same places (`sweep_all`), and in a source of less than `UInt32.size` bytes they are
exact as 32-bit words (`scan_tiles`).
-/

namespace YulTree

namespace Piece

theorem kind_firstPiece_ne (c : Char) (rest : Text) :
    (firstPiece c rest).1.kind ≠ some .garbage := by
  intro isGarbage
  have possible := kind_mem_kinds c rest
  rw [isGarbage] at possible
  cases initial : Initial.ofChar c with
  | _ =>
      rw [initial] at possible
      simp [Initial.kinds] at possible

/-- A piece that can be cut off: it is not empty, and it is no garbage token yet. -/
def Cuttable (piece : Piece) : Prop := piece.text ≠ [] ∧ piece.kind ≠ some .garbage

theorem cuttable_all (source : Text) : ∀ piece ∈ all source, piece.Cuttable := by
  intro piece member
  obtain ⟨c, rest, rfl⟩ := exists_firstPiece member
  constructor
  · intro empty
    have head := firstPiece_head? c rest
    rw [empty] at head
    cases head
  · exact kind_firstPiece_ne c rest

end Piece

namespace Token

theorem text_ne_nil_of_mem_merge {pieces : List Piece} {part : TokenKind × Text}
    (cuttable : ∀ piece ∈ pieces, piece.Cuttable) (member : part ∈ merge pieces) :
    part.2 ≠ [] := by
  fun_induction merge pieces with
  | case1 => cases member
  | case2 kind text rest inductionHypothesis =>
      obtain ⟨first, others⟩ := List.forall_mem_cons.mp cuttable
      rcases List.mem_cons.mp member with rfl | later
      · exact first.1
      · exact inductionHypothesis others later
  | case3 text rest more others merged inductionHypothesis =>
      obtain ⟨first, restCuttable⟩ := List.forall_mem_cons.mp cuttable
      rw [merged] at inductionHypothesis
      rcases List.mem_cons.mp member with rfl | later
      · exact List.append_ne_nil_of_left_ne_nil first.1 more
      · exact inductionHypothesis restCuttable (List.mem_cons_of_mem _ later)
  | case4 text rest notGarbage inductionHypothesis =>
      obtain ⟨first, others⟩ := List.forall_mem_cons.mp cuttable
      rcases List.mem_cons.mp member with rfl | later
      · exact first.1
      · exact inductionHypothesis others later

theorem kind_ne_of_merge {pieces : List Piece} {before after : List (TokenKind × Text)}
    {part other : TokenKind × Text} (cuttable : ∀ piece ∈ pieces, piece.Cuttable)
    (row : merge pieces = before ++ part :: other :: after) (isGarbage : part.1 = .garbage) :
    other.1 ≠ .garbage := by
  fun_induction merge pieces generalizing before part with
  | case1 => cases before <;> cases row
  | case2 kind text rest inductionHypothesis =>
      obtain ⟨first, others⟩ := List.forall_mem_cons.mp cuttable
      cases before with
      | nil =>
          obtain ⟨rfl, -⟩ := List.cons.inj row
          exact absurd (congrArg some isGarbage) first.2
      | cons head before => exact inductionHypothesis others (List.cons.inj row).2 isGarbage
  | case3 text rest more others merged inductionHypothesis =>
      obtain ⟨-, restCuttable⟩ := List.forall_mem_cons.mp cuttable
      rw [merged] at inductionHypothesis
      cases before with
      | nil =>
          obtain ⟨-, rfl⟩ := List.cons.inj row
          have restRow : (.garbage, more) :: other :: after =
              [] ++ (.garbage, more) :: other :: after := rfl
          exact inductionHypothesis restCuttable restRow rfl
      | cons head before =>
          obtain ⟨-, rfl⟩ := List.cons.inj row
          have restRow : (.garbage, more) :: (before ++ part :: other :: after) =
              (.garbage, more) :: before ++ part :: other :: after := rfl
          exact inductionHypothesis restCuttable restRow isGarbage
  | case4 text rest notGarbage inductionHypothesis =>
      obtain ⟨-, restCuttable⟩ := List.forall_mem_cons.mp cuttable
      cases before with
      | nil =>
          obtain ⟨rfl, tailRow⟩ := List.cons.inj row
          intro otherGarbage
          apply notGarbage other.2 after
          rw [tailRow, ← otherGarbage]
      | cons head before => exact inductionHypothesis restCuttable (List.cons.inj row).2 isGarbage

theorem eq_cons_of_place {start : Nat} {parts : List (TokenKind × Text)} {token : Token}
    {after : List Token} (row : place start parts = token :: after) :
    ∃ back, parts = (token.kind, token.text) :: back ∧ token.start = start ∧
      place token.stop back = after := by
  cases parts with
  | nil => cases row
  | cons part back =>
      obtain ⟨rfl, rfl⟩ := List.cons.inj row
      exact ⟨back, rfl, rfl, rfl⟩

theorem eq_append_of_place {start : Nat} {parts : List (TokenKind × Text)}
    {before after : List Token} (row : place start parts = before ++ after) :
    ∃ front back, parts = front ++ back ∧
      place (start + Text.byteSize (front.map Prod.snd).flatten) back = after := by
  induction before generalizing start parts with
  | nil => exact ⟨[], parts, rfl, row⟩
  | cons token before inductionHypothesis =>
      obtain ⟨rest, rfl, rfl, restRow⟩ := eq_cons_of_place row
      obtain ⟨front, back, rfl, backRow⟩ := inductionHypothesis restRow
      refine ⟨(token.kind, token.text) :: front, back, rfl, ?_⟩
      rw [List.map_cons, List.flatten_cons, Text.byteSize_append, ← Nat.add_assoc]
      exact backRow

theorem exists_parts_of_scan {source : Text} {before after : List Token} {token : Token}
    (row : scan source = before ++ token :: after) :
    ∃ front back, merge (Piece.all source) = front ++ (token.kind, token.text) :: back ∧
      source = (front.map Prod.snd).flatten ++ (token.text ++ (back.map Prod.snd).flatten) ∧
      token.start = Text.byteSize (front.map Prod.snd).flatten ∧
      place token.stop back = after := by
  obtain ⟨front, rest, parts, restRow⟩ := eq_append_of_place row
  obtain ⟨back, rfl, start, backRow⟩ := eq_cons_of_place restRow
  have texts := flatten_merge_all source
  rw [parts, List.map_append, List.flatten_append, List.map_cons, List.flatten_cons] at texts
  rw [Nat.zero_add] at start
  exact ⟨front, back, parts, texts.symm, start, backRow⟩

theorem text_ne_nil_of_mem_scan {source : Text} {token : Token} (member : token ∈ scan source) :
    token.text ≠ [] := by
  obtain ⟨before, after, row⟩ := List.append_of_mem member
  obtain ⟨front, back, parts, -⟩ := exists_parts_of_scan row
  have isPart : (token.kind, token.text) ∈ merge (Piece.all source) := by
    rw [parts]
    exact List.mem_append_right front List.mem_cons_self
  exact text_ne_nil_of_mem_merge (Piece.cuttable_all source) isPart

/-- Tokens that cover a source without gaps and overlaps, and with no garbage beside garbage. -/
structure Tiles (source : Text) (tokens : List Token) : Prop where
  nonempty : ∀ token ∈ tokens, token.start < token.stop
  first : ∀ token after, tokens = token :: after → token.start = 0
  next : ∀ before token other after, tokens = before ++ token :: other :: after →
    other.start = token.stop
  last : ∀ before token, tokens = before ++ [token] → token.stop = source.byteSize
  none : tokens = [] ↔ source = []
  cut : ∀ token ∈ tokens, source.slice? token.start token.stop = some token.text
  whole : (tokens.map Token.text).flatten = source
  garbage : ∀ before token other after, tokens = before ++ token :: other :: after →
    token.kind = .garbage → other.kind ≠ .garbage

theorem byteSize_pos {text : Text} (nonempty : text ≠ []) : 0 < text.byteSize := by
  cases text with
  | nil => exact absurd rfl nonempty
  | cons c rest => exact Nat.lt_of_lt_of_le c.utf8Size_pos (Nat.le_add_right _ _)

theorem tiles_scan (source : Text) : Tiles source (scan source) := by
  constructor
  · intro token member
    have positive := byteSize_pos (text_ne_nil_of_mem_scan member)
    rw [stop]
    omega
  · intro token after row
    obtain ⟨-, -, start, -⟩ := eq_cons_of_place row
    exact start
  · intro before token other after row
    obtain ⟨front, back, -, -, -, backRow⟩ := exists_parts_of_scan row
    obtain ⟨-, -, start, -⟩ := eq_cons_of_place backRow
    exact start
  · intro before token row
    obtain ⟨front, back, -, texts, start, backRow⟩ := exists_parts_of_scan row
    cases back with
    | nil =>
        have sizes := congrArg Text.byteSize texts
        rw [List.map_nil, List.flatten_nil, List.append_nil, Text.byteSize_append, ← start] at sizes
        exact sizes.symm
    | cons part back => cases backRow
  · constructor
    · intro empty
      rw [← flatten_texts_scan source, empty]
      rfl
    · rintro rfl
      simp [scan, Piece.all, merge, place]
  · intro token member
    obtain ⟨before, after, row⟩ := List.append_of_mem member
    obtain ⟨front, back, -, texts, start, -⟩ := exists_parts_of_scan row
    rw [texts]
    exact Text.slice?_append _ _ _ start.symm rfl
  · exact flatten_texts_scan source
  · intro before token other after row
    obtain ⟨front, back, parts, -, -, backRow⟩ := exists_parts_of_scan row
    obtain ⟨rest, rfl, -, -⟩ := eq_cons_of_place backRow
    exact kind_ne_of_merge (Piece.cuttable_all source) parts

/-! ## The start of garbage -/

theorem merge_none_some {kind : TokenKind} (notGarbage : kind ≠ .garbage) (gone text : Text)
    (rest : List Piece) :
    merge (⟨none, gone⟩ :: ⟨some kind, text⟩ :: rest) =
      (.garbage, gone) :: (kind, text) :: merge rest := by
  rw [merge, merge]
  split
  · next more others same =>
      cases same
      exact absurd rfl notGarbage
  · rfl

theorem merge_none_none (gone text : Text) (rest : List Piece) :
    merge (⟨none, gone⟩ :: ⟨none, text⟩ :: rest) = merge (⟨none, gone ++ text⟩ :: rest) := by
  cases merged : merge rest with
  | nil => simp [merge, merged]
  | cons part others =>
      obtain ⟨kind, more⟩ := part
      by_cases isGarbage : kind = .garbage
      · subst isGarbage
        simp [merge, merged]
      · simp [merge, merged, isGarbage]

/-- The loop finds the places of the tokens, also if garbage has begun before.  A piece of garbage
leads from the first statement to the second, and a token leads back. -/
theorem sweep_eq {pieces : List Piece} (cuttable : ∀ piece ∈ pieces, piece.Cuttable)
    {size position : Nat}
    (sizeEq : position + Text.byteSize (pieces.map Piece.text).flatten = size) :
    sweep size position none pieces = (place position (merge pieces)).map pack ∧
      ∀ start gone, start + Text.byteSize gone = position →
        sweep size position (some start) pieces =
          (place start (merge (⟨none, gone⟩ :: pieces))).map pack := by
  induction pieces generalizing position with
  | nil =>
      constructor
      · rfl
      · rintro start gone rfl
        rw [← sizeEq]
        rfl
  | cons piece rest inductionHypothesis =>
      obtain ⟨first, others⟩ := List.forall_mem_cons.mp cuttable
      obtain ⟨kind, text⟩ := piece
      have restSize : position + text.byteSize + Text.byteSize (rest.map Piece.text).flatten =
          size := by
        rw [← sizeEq, List.map_cons, List.flatten_cons, Text.byteSize_append, Nat.add_assoc]
      obtain ⟨fresh, begun⟩ := inductionHypothesis others restSize
      cases kind with
      | some kind =>
          have notGarbage : kind ≠ .garbage := by
            intro isGarbage
            exact first.2 (congrArg some isGarbage)
          constructor
          · rw [sweep, fresh]
            rfl
          · rintro start gone rfl
            rw [sweep, fresh, merge_none_some notGarbage]
            rfl
      | none =>
          constructor
          · rw [sweep]
            exact begun position text rfl
          · rintro start gone rfl
            rw [sweep, merge_none_none]
            apply begun
            rw [Text.byteSize_append, Nat.add_assoc, Option.getD_some]

theorem sweep_all (source : Text) :
    sweep source.byteSize 0 none (Piece.all source) = (scan source).map pack := by
  apply (sweep_eq (Piece.cuttable_all source) _).1
  rw [Piece.flatten_all, Nat.zero_add]

/-- In a short source, the tokens cover the source also as they are stored. -/
theorem scan_tiles {source : Text} (short : source.byteSize < UInt32.size) :
    Tiles source (scan source) ∧
      sweep source.byteSize 0 none (Piece.all source) = (scan source).map pack ∧
      ∀ token ∈ scan source, token.pack.start.toNat = token.start ∧
        token.pack.stop.toNat = token.stop := by
  refine ⟨tiles_scan source, sweep_all source, ?_⟩
  intro token member
  obtain ⟨before, after, row⟩ := List.append_of_mem member
  obtain ⟨front, back, -, texts, start, -⟩ := exists_parts_of_scan row
  have sizes := congrArg Text.byteSize texts
  rw [Text.byteSize_append, Text.byteSize_append, ← start] at sizes
  have stopBound : token.stop < UInt32.size := by
    rw [stop]
    omega
  have startBound : token.start < UInt32.size := by
    rw [stop] at stopBound
    omega
  constructor
  · exact UInt32.toNat_ofNat_of_lt' startBound
  · exact UInt32.toNat_ofNat_of_lt' stopBound

/-- Three pieces of garbage, the first of two bytes, are one token. -/
theorem scan_tiles_touching :
    Text.byteSize "é--object /" < UInt32.size ∧ Tiles "é--object /" (scan "é--object /") ∧
      (scan "é--object /").map span = [⟨0, 4⟩, ⟨4, 10⟩, ⟨10, 11⟩, ⟨11, 12⟩] := by
  have short : Text.byteSize "é--object /" < UInt32.size := by decide
  refine ⟨short, (scan_tiles short).1, ?_⟩
  decide +kernel

end Token

end YulTree
