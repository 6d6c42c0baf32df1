import YulTree.Context
import YulTree.Proofs.Token.Literal

/-!
# Locations in comments

A location is written into the comment in front of a statement, with an excerpt of the source that
it points to.  Whatever that source holds, the comment ends with its line, and the excerpt is one
literal in it (`scan_location`).
-/

namespace YulTree.Context

def placeText (index : UInt32) (start stop : Nat) : Text :=
  "@src " ++ Text.ofNat index.toNat ++ ':' :: Text.ofNat start ++ ':' :: Text.ofNat stop

/-- An excerpt is selected, and the source with an index has it between two positions. -/
structure Shows (context : Context) (index : UInt32) (start stop : Nat) (shown : Text) :
    Prop where
  selected : context.selection.snippet = true
  found : ∃ content, context.sources index = some content ∧
    content.snippet? start stop = some shown

section

variable {context : Context} (located : context.selection.location = true)
  {index : UInt32} {start stop : Nat}

include located

theorem snippet?_eq_some_iff {shown : Text} :
    context.snippet? index start stop = some shown ↔ context.Shows index start stop shown := by
  unfold snippet? Selection.showsSnippet
  rw [located, Bool.true_and]
  by_cases selected : context.selection.snippet = true
  · rw [if_pos selected, Option.bind_eq_some_iff]
    exact ⟨fun found => ⟨selected, found⟩, Shows.found⟩
  · rw [if_neg selected]
    constructor
    · intro found
      cases found
    · intro shows
      exact absurd shows.selected selected

theorem location?_of_shows {shown : Text} (shows : context.Shows index start stop shown) :
    context.location? index start stop =
      some (placeText index start stop ++ ("  " ++ Text.Quoted.encode shown)) := by
  unfold location?
  rw [if_pos located, (snippet?_eq_some_iff located).mpr shows, ← List.append_assoc]
  rfl

theorem location?_of_not_shows (hidden : ∀ shown, ¬ context.Shows index start stop shown) :
    context.location? index start stop = some (placeText index start stop) := by
  have none : context.snippet? index start stop = none := by
    apply Option.eq_none_iff_forall_ne_some.mpr
    intro shown found
    exact hidden shown ((snippet?_eq_some_iff located).mp found)
  unfold location?
  rw [if_pos located, none]
  rfl

end

theorem unbroken_ofNat (n : Nat) : '\n' ∉ Text.ofNat n := fun member =>
  absurd (Text.isDigit_of_mem_ofNat member) (by decide)

theorem unbroken_placeText (index : UInt32) (start stop : Nat) :
    '\n' ∉ placeText index start stop := by
  have name : '\n' ∉ ("@src " : Text) := by decide
  have colon : '\n' ≠ ':' := by decide
  change '\n' ∉ ("@src " ++ Text.ofNat index.toNat ++ ':' :: Text.ofNat start ++
    ':' :: Text.ofNat stop : Text)
  rw [List.mem_append, List.mem_append, List.mem_append, List.mem_cons, List.mem_cons, not_or,
    not_or, not_or, not_or, not_or]
  exact ⟨⟨⟨name, unbroken_ofNat _⟩, colon, unbroken_ofNat _⟩, colon, unbroken_ofNat _⟩

theorem unbroken_excerpt (shown : Text) : '\n' ∉ ("  " ++ Text.Quoted.encode shown : Text) := by
  have blanks : '\n' ∉ ("  " : Text) := by decide
  rw [List.mem_append, not_or]
  exact ⟨blanks, Text.Quoted.unbroken_encode shown⟩

/-- A comment that begins with a place lists no sources. -/
theorem pragmaPayload?_place (index : UInt32) (start stop : Nat) (behind : Text) :
    pragmaPayload? ("/// " ++ (placeText index start stop ++ behind)) = none := by
  rfl

theorem scan_place (index : UInt32) (start stop : Nat) {behind : Text} (unbroken : '\n' ∉ behind)
    (rest : Text) :
    Token.scan ("/// " ++ ((placeText index start stop ++ behind) ++ '\n' :: rest)) =
      ⟨.lineComment, "/// " ++ (placeText index start stop ++ behind), 0⟩ ::
        (Token.scan ('\n' :: rest)).map
          (Token.moved (Text.byteSize ("/// " ++ (placeText index start stop ++ behind)))) := by
  have noPragma := pragmaPayload?_place index start stop behind
  have placeUnbroken := unbroken_placeText index start stop
  obtain ⟨content, whole⟩ : ∃ content, content = placeText index start stop ++ behind := ⟨_, rfl⟩
  rw [← whole] at noPragma ⊢
  have contentUnbroken : '\n' ∉ '/' :: ' ' :: content := by
    simp [whole, placeUnbroken, unbroken]
  have ends : ∀ d ∈ ('\n' :: rest).head?, d = '\n' := fun _ member =>
    (Option.some.inj member).symm
  have cut := Lexeme.firstPiece_lineComment contentUnbroken ends
  rw [show pragmaPayload? ('/' :: '/' :: '/' :: ' ' :: content) = none from noPragma] at cut
  exact Token.scan_of_cut cut

theorem scan_quoted (shown : Text) :
    Token.scan (Text.Quoted.encode shown) = [⟨.stringLiteral, Text.Quoted.encode shown, 0⟩] := by
  obtain ⟨inner, whole, cut⟩ := Lexeme.firstPiece_encode shown []
  have nothing : Token.scan [] = [] := by
    rw [Token.scan, Piece.all]
    rfl
  have scanned := Token.scan_of_cut cut
  rw [← whole, List.append_nil, nothing] at scanned
  exact scanned

/-- The comment of a location is the first token of its line and all of it, whatever the source
holds, and is no pragma.  Behind the place stands nothing, or if there is an excerpt, two blanks and
one literal that denotes it. -/
theorem scan_location {context : Context} (located : context.selection.location = true)
    (index : UInt32) (start stop : Nat) (rest : Text) :
    ∃ location, context.location? index start stop = some location ∧
      Token.scan ("/// " ++ (location ++ '\n' :: rest)) =
        ⟨.lineComment, "/// " ++ location, 0⟩ ::
          (Token.scan ('\n' :: rest)).map (Token.moved (Text.byteSize ("/// " ++ location))) ∧
      ((∀ shown, ¬ context.Shows index start stop shown) →
        location = placeText index start stop) ∧
      ∀ shown, context.Shows index start stop shown → ∃ literal,
        location = placeText index start stop ++ ("  " ++ literal) ∧
        Token.scan literal = [⟨.stringLiteral, literal, 0⟩] ∧
        Text.Quoted.decodeLiteral literal = .ok shown.toBytes := by
  by_cases shows : ∃ shown, context.Shows index start stop shown
  · obtain ⟨shown, shows⟩ := shows
    refine ⟨_, location?_of_shows located shows, ?_, fun hidden => absurd shows (hidden shown), ?_⟩
    · exact scan_place index start stop (unbroken_excerpt shown) rest
    · intro other otherShows
      have same := (snippet?_eq_some_iff located).mpr otherShows
      rw [(snippet?_eq_some_iff located).mpr shows] at same
      obtain rfl := Option.some.inj same
      exact ⟨_, rfl, scan_quoted shown, Text.Quoted.decodeLiteral_encode shown⟩
  · have hidden := not_exists.mp shows
    refine ⟨_, location?_of_not_shows located hidden, ?_, fun _ => rfl, ?_⟩
    · have scanned := scan_place index start stop List.not_mem_nil rest
      rw [List.append_nil] at scanned
      exact scanned
    · exact fun shown found => absurd found (hidden shown)

/-- A source that begins with the ends of a block, of a comment and of a literal. -/
def brokenSource : Text := "\x7d */ \"é\\\x07\t// \x7b\nstop()"

def brokenContext : Context := ⟨.everything, fun _ => some brokenSource, none⟩

/-- What is behind the line of its comment is read as it stands there. -/
theorem scan_location_broken :
    brokenContext.selection.location = true ∧
      ∃ location literal, brokenContext.location? 7 0 40 = some location ∧
        Token.scan ("/// " ++ (location ++ '\n' :: "\x7d")) =
          [⟨.lineComment, "/// " ++ location, 0⟩, ⟨.whitespace, "\n", 43⟩,
            ⟨.closeBrace, "\x7d", 44⟩] ∧
        location = placeText 7 0 40 ++ ("  " ++ literal) ∧
        Text.Quoted.decodeLiteral literal =
          .ok (Text.toBytes "\x7d */ \"é\\\x07\t// \x7b...") := by
  have located : brokenContext.selection.location = true := rfl
  have shows : brokenContext.Shows 7 0 40 "\x7d */ \"é\\\x07\t// \x7b..." :=
    ⟨rfl, brokenSource, rfl, by decide +kernel⟩
  obtain ⟨location, written, scanned, -, excerpt⟩ := scan_location located 7 0 40 "\x7d"
  obtain ⟨literal, shown, -, decoded⟩ := excerpt _ shows
  refine ⟨located, location, literal, written, ?_, shown, decoded⟩
  have whole : brokenContext.location? 7 0 40 =
      some "@src 7:0:40  \"\x7d */ \\\"é\\\\\\x07\\t// \x7b...\"" := by
    decide +kernel
  obtain rfl := Option.some.inj (written.symm.trans whole)
  have behind : Token.scan ('\n' :: "\x7d") =
      [⟨.whitespace, "\n", 0⟩, ⟨.closeBrace, "\x7d", 1⟩] := by
    decide +kernel
  rw [scanned, behind]
  rfl

end YulTree.Context
