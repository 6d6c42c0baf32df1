import YulTree.Proofs.Reader.Soundness
import YulTree.Proofs.Reader.Transfer
import YulTree.Proofs.Source.Listing
import YulTree.Proofs.Token.LineEnding

/-!
# Reading texts with other line endings

A source that is read as an object is read as the same object if its lines end with carriage return
and line feed (`read_crlf`).  The carriage returns that its tokens take up stand in garbage, which
has no meaning outside code, or at the ends of pragmas, where they are blank space.
-/

namespace YulTree

open Lexeme

namespace SourceTable

/-- Tables are read from the tokens of entries only. -/
theorem kinds_of_ofPayload {payload : Text} {table : SourceTable}
    (read : ofPayload payload = .ok table) :
    ∀ token ∈ Token.significant payload, IsEntryKind token.kind := by
  obtain ⟨entries, ⟨none, -⟩ | row, -⟩ :=
    lists_of_readEntries (fun _ => Token.text_ne_nil_of_mem_significant) read
  · rw [none]
    exact List.forall_mem_nil _
  · exact row.kinds

theorem ofPayload_append_blank {payload : Text} {table : SourceTable}
    (read : ofPayload payload = .ok table) {d : Char} (space : Piece.isSpace d = true)
    (unbroken : d ≠ '\n') : ofPayload (payload ++ [d]) = .ok table := by
  have kinds := kinds_of_ofPayload read
  have endsWell : EndsWell (all payload) := by
    intro lexeme member
    have isEntryKind : IsEntryKind lexeme.kind :=
      kinds lexeme.token (token_mem_significant (List.mem_of_getLast? member))
    rcases isEntryKind with same | same | same
    · rw [same]
      exact ⟨by decide, by decide⟩
    · rw [same]
      exact ⟨by decide, by decide⟩
    · rw [same]
      exact ⟨by decide, by decide⟩
  rw [ofPayload, ← tokens_all, all_append_blank endsWell space unbroken, tokens_all]
  exact read

end SourceTable

theorem Piece.unbroken_firstPiece {c : Char} {text : Text} {kind : TokenKind}
    (isKind : (firstPiece c text).1.kind = some kind) (notSpace : kind ≠ .whitespace)
    (notComment : kind ≠ .blockComment) : '\n' ∉ (firstPiece c text).1.text := by
  cases beginning c text with
  | firm isFirm =>
      apply Text.unbroken_of_crlf_eq
      apply isFirm.crlf_text
      rintro rfl
      rw [firstPiece_space rfl] at isKind
      exact notSpace (Option.some.inj isKind).symm
  | space blank =>
      rw [firstPiece_space blank] at isKind
      exact absurd (Option.some.inj isKind).symm notSpace
  | lineComment rest slash cut =>
      subst slash cut
      change '\n' ∉ '/' :: '/' :: rest.takeWhile (· != '\n')
      simpa using unbroken_takeWhile rest
  | blockComment rest slash cut =>
      subst slash cut
      change (if (commentRun rest).isComplete then some TokenKind.blockComment else none) =
        some kind at isKind
      split at isKind
      · exact absurd (Option.some.inj isKind).symm notComment
      · cases isKind
  | openQuote quotes openEnded =>
      rw [firstPiece_quote quotes, ofRun, Run.prepend, openEnded] at isKind
      cases isKind

theorem Lexeme.unbroken {source : Text} {lexeme : Lexeme} (member : lexeme ∈ all source)
    (notGarbage : lexeme.kind ≠ .garbage) : '\n' ∉ lexeme.token.text := by
  obtain ⟨c, rest, pieceEq⟩ := exists_firstPiece member notGarbage
  have notTrivia : lexeme.kind.isTrivia = false :=
    (Token.mem_significant_iff.mp (token_mem_significant member)).2
  have isKind : (Piece.firstPiece c rest).1.kind = some lexeme.kind := by rw [pieceEq]
  have result := Piece.unbroken_firstPiece isKind
    (fun same => by rw [same] at notTrivia; cases notTrivia)
    (fun same => by rw [same] at notTrivia; cases notTrivia)
  rw [pieceEq] at result
  exact result

/-- A text can be cut in one way only behind a number of bytes. -/
theorem Text.front_unique {front back before behind : Text}
    (same : front ++ back = before ++ behind) (size : front.byteSize = before.byteSize) :
    front = before := by
  have first : splitAtByte? front.byteSize (front ++ back) = some (front, back) :=
    splitAtByte?_eq_some_iff.mpr ⟨rfl, rfl⟩
  have second : splitAtByte? front.byteSize (front ++ back) = some (before, behind) :=
    splitAtByte?_eq_some_iff.mpr ⟨same, size.symm⟩
  rw [first] at second
  exact (Prod.mk.inj (Option.some.inj second)).1

namespace Grammar

theorem Terminal.table?_returned {pragma other : Terminal .pragma}
    (text : other.lexeme.token.text = pragma.lexeme.token.text ++ ['\r'])
    (listed : pragma.table?.isSome) : other.table? = pragma.table? := by
  rw [table?] at listed
  rw [table?, table?, text, pragmaPayload?_append_blank (d := '\r') rfl]
  cases found : pragmaPayload? pragma.lexeme.token.text with
  | none => rfl
  | some payload =>
      rw [found, Option.getD_some] at listed
      rw [Option.map_some, Option.getD_some, Option.getD_some]
      cases read : SourceTable.ofPayload payload with
      | error fault =>
          rw [read] at listed
          cases listed
      | ok table => rw [SourceTable.ofPayload_append_blank read rfl (by decide)]

theorem text_returned {source : Text} {lexeme returned : Lexeme} (member : lexeme ∈ all source)
    (same : Returned source lexeme returned) (notGarbage : lexeme.kind ≠ .garbage)
    (notPragma : lexeme.kind ≠ .pragma) : returned.token.text = lexeme.token.text := by
  rcases same.text with text | ⟨isOpen, -⟩
  · rw [text, Text.crlf_eq_self (unbroken member notGarbage)]
  · rcases isOpen with isGarbage | isPragma
    · exact absurd isGarbage notGarbage
    · exact absurd isPragma notPragma

/-- Lexemes keep their meaning when the line endings are changed. -/
theorem carries_crlf (dialect : Option Dialect) (source : Text) :
    Carries (Payload.ofBody dialect) source source.crlf
      (fun lexeme returned => lexeme ∈ all source ∧ Returned source lexeme returned) := by
  constructor
  · rintro lexeme returned ⟨-, same⟩
    exact same.kind
  · rintro lexeme returned ⟨member, same⟩ isLiteral
    rcases isLiteral with isString | isHex
    · exact text_returned member same (by rw [isString]; decide) (by rw [isString]; decide)
    · exact text_returned member same (by rw [isHex]; decide) (by rw [isHex]; decide)
  · rintro pragma other ⟨member, same⟩ listed
    have unchanged := Text.crlf_eq_self (unbroken member (by rw [pragma.isKind]; decide))
    rcases same.text with text | ⟨-, text⟩
    · rw [Terminal.table?, Terminal.table?, text, unchanged]
    · rw [unchanged] at text
      exact Terminal.table?_returned text listed
  · rintro opening closing first last ⟨member, openingSame⟩ ⟨-, closingSame⟩ isOpening - front body
      back cut frontSize bodySize
    have text := text_returned member openingSame (by rw [isOpening]; decide)
      (by rw [isOpening]; decide)
    obtain ⟨before, openingBack, openingCut, openingStart, firstStart⟩ := openingSame.place
    obtain ⟨between, closingBack, closingCut, closingStart, lastStart⟩ := closingSame.place
    have unchanged := Text.crlf_eq_self (unbroken member (by rw [isOpening]; decide))
    have frontEq : front = before ++ opening.token.text := by
      have same : front ++ (body ++ back) = (before ++ opening.token.text) ++ openingBack := by
        rw [← cut, openingCut, List.append_assoc]
      apply Text.front_unique same
      rw [frontSize, Text.byteSize_append, ← openingStart]
      rfl
    have betweenEq : front ++ body = between := by
      have same : (front ++ body) ++ back = between ++ (closing.token.text ++ closingBack) := by
        rw [← closingCut, cut, List.append_assoc]
      apply Text.front_unique same
      rw [Text.byteSize_append, frontSize, bodySize, closingStart]
    have firstStop : first.token.stop = front.crlf.byteSize := by
      rw [frontEq, Text.crlf_append, unchanged, Text.byteSize_append, ← firstStart, ← text]
      rfl
    refine ⟨body.crlf, ?_, ?_⟩
    · rw [cut, Text.crlf_append, Text.crlf_append]
      apply Text.slice?_append
      · exact firstStop.symm
      · rw [firstStop, lastStart, ← betweenEq, Text.crlf_append, Text.byteSize_append]
    · rw [Payload.ofBody, Payload.ofBody, Block.ofBody, Block.ofBody, Block.normalize_crlf]

end Grammar

/-- A source that is read as an object is read as that object also if carriage returns are put in
front of its line feeds, so the object is shown and printed alike. -/
theorem Object.read_crlf {options : ReadOptions} {source : Text} {object : Object Payload}
    (read : Object.read options source = .ok object) :
    Object.read options source.crlf = .ok object := by
  obtain ⟨tree, derived, admissible, rfl⟩ := Grammar.exists_derivation_of_read read
  have same := (List.forall₂_and_left _ _).mpr ⟨fun _ member => member, returned_all source⟩
  obtain ⟨other, otherDerived, otherAdmissible, denoted⟩ :=
    Grammar.RootTree.exists_carried (Grammar.carries_crlf options.dialect source) derived
      admissible same
  have again := Grammar.read_of_derivation options.reader source.crlf otherDerived otherAdmissible
  exact again.trans (congrArg Except.ok denoted)

/-- A pragma, a comment and an open literal that each take up a carriage return. -/
theorem Object.read_crlf_open :
    ∃ object : Object Payload,
      Object.read .standard
          "/// @use-src 0:'f'\nobject \"A\" // \x7d\n\x7b code \x7b \"a\\\n \x7d \x7d" = .ok object ∧
        Object.read .standard
            (Text.crlf
              "/// @use-src 0:'f'\nobject \"A\" // \x7d\n\x7b code \x7b \"a\\\n \x7d \x7d") =
          .ok object := by
  have accepted : (Object.read .standard
      "/// @use-src 0:'f'\nobject \"A\" // \x7d\n\x7b code \x7b \"a\\\n \x7d \x7d").toOption.isSome =
        true := by
    decide +kernel
  obtain ⟨object, read⟩ := Reader.exists_of_isSome accepted
  exact ⟨object, read, Object.read_crlf read⟩

end YulTree
