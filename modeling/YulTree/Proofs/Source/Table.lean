import YulTree.Proofs.Source.Listing
import YulTree.Proofs.Token.Ahead

/-!
# Tables of sources, written and read

The pragma that is written for a table is cut off as one, whatever line follows it, and lists that
table (`scan_render`).
-/

namespace YulTree

namespace SourceTable

theorem isIndex_ofNat (index : UInt32) (start : Nat) :
    Token.IsIndex ⟨.number, Text.ofNat index.toNat, start⟩ index := by
  obtain ⟨digits, value⟩ :=
    (Text.toNat?_eq_some_iff Nat.toDigits_ne_nil).mp (Text.toNat?_ofNat index.toNat)
  exact ⟨rfl, digits, value⟩

theorem isName_encode (name : Text) (start : Nat) :
    Token.IsName ⟨.stringLiteral, Text.Quoted.encode name, start⟩ name :=
  ⟨rfl, Text.Quoted.decodeLiteral_encode name⟩

/-- The tokens of an entry. -/
theorem ahead_renderEntry (entry : UInt32 × Text) (lead : Text) (start : Nat) (rest : Text) :
    ∃ indexStart colonStart nameStart stop,
      (Lexeme.ahead lead start (renderEntry entry ++ rest)).map Lexeme.token =
        ⟨.number, Text.ofNat entry.1.toNat, indexStart⟩ ::
          ⟨.punctuation, [':'], colonStart⟩ ::
            ⟨.stringLiteral, Text.Quoted.encode entry.2, nameStart⟩ ::
              (Lexeme.ahead [] stop rest).map Lexeme.token := by
  obtain ⟨first, digits, numeral⟩ :=
    List.exists_cons_of_ne_nil (Nat.toDigits_ne_nil (b := 10) (n := entry.1.toNat))
  have isNumeral : Text.ofNat entry.1.toNat = first :: digits := numeral
  have areDigits : ∀ d ∈ first :: digits, d.isDigit = true := by
    intro d member
    rw [← numeral] at member
    exact Text.isDigit_of_mem_ofNat member
  have noAssignment : (Text.Quoted.encode entry.2 ++ rest).head? ≠ some '=' := by
    simp [Text.Quoted.encode]
  have cut : renderEntry entry ++ rest =
      first :: (digits ++ ':' :: (Text.Quoted.encode entry.2 ++ rest)) := by
    rw [renderEntry, isNumeral, List.append_assoc]
    rfl
  rw [cut, isNumeral,
    Lexeme.ahead_number (areDigits first List.mem_cons_self)
      (fun d member => areDigits d (List.mem_cons_of_mem _ member)) (Lexeme.ends_cons rfl _),
    Lexeme.ahead_colon noAssignment, Lexeme.ahead_encode]
  exact ⟨_, _, _, _, rfl⟩

/-- Entries that are written with a comma between any two of them are listed by their tokens. -/
theorem entryRow_render {entries : List (UInt32 × Text)} (nonempty : entries ≠ []) (lead : Text)
    (start : Nat) :
    EntryRow
      ((Lexeme.ahead lead start (List.intercalate ", " (entries.map renderEntry))).map Lexeme.token)
      entries := by
  induction entries generalizing lead start with
  | nil => exact absurd rfl nonempty
  | cons entry back inductionHypothesis =>
      cases back with
      | nil =>
          obtain ⟨indexStart, colonStart, nameStart, stop, tokens⟩ :=
            ahead_renderEntry entry lead start []
          rw [List.append_nil, Lexeme.ahead_nil, List.map_nil] at tokens
          rw [List.map_singleton, List.intercalate_singleton, tokens]
          exact .last (isIndex_ofNat _ _) ⟨rfl, rfl⟩ (isName_encode _ _)
      | cons next others =>
          have cut : List.intercalate ", " ((entry :: next :: others).map renderEntry) =
              renderEntry entry ++
                ',' :: ' ' :: List.intercalate ", " ((next :: others).map renderEntry) := by
            rw [List.map_cons, List.map_cons, List.intercalate_cons_cons, List.append_assoc]
            rfl
          obtain ⟨indexStart, colonStart, nameStart, stop, tokens⟩ :=
            ahead_renderEntry entry lead start
              (',' :: ' ' :: List.intercalate ", " ((next :: others).map renderEntry))
          rw [cut, tokens, Lexeme.ahead_comma, Lexeme.ahead_space (c := ' ') rfl, List.map_cons]
          exact .more (isIndex_ofNat _ _) ⟨rfl, rfl⟩ (isName_encode _ _) ⟨rfl, rfl⟩
            (inductionHypothesis (List.cons_ne_nil _ _) _ _)

/-- The entries of a table, as they stand behind the pragma's name. -/
def entriesText (table : SourceTable) : Text :=
  ' ' :: List.intercalate ", " (table.entries.map renderEntry)

def commentText (table : SourceTable) : Text := '/' :: ' ' :: table.render

theorem lists_entriesText (table : SourceTable) :
    Lists (Token.significant table.entriesText) table.entries := by
  rw [← Lexeme.tokens_all, Lexeme.all_eq_ahead, entriesText, Lexeme.ahead_space (c := ' ') rfl]
  by_cases none : table.entries = []
  · rw [none, List.map_nil, List.intercalate_nil, Lexeme.ahead_nil]
    exact .inl ⟨rfl, rfl⟩
  · exact .inr (entryRow_render none _ _)

/-- The entries of a table are read as the table. -/
theorem ofPayload_entriesText (table : SourceTable) : ofPayload table.entriesText = .ok table :=
  ofPayload_eq_ok_iff.mpr
    ⟨table.entries, table.lists_entriesText, table.nodup_keys, fun _ _ => OrderedMap.get?_eq_some_iff⟩

theorem pragmaPayload?_commentText (table : SourceTable) :
    pragmaPayload? ('/' :: '/' :: table.commentText) = some table.entriesText := by
  have content : Text.dropPrefix? "///" ('/' :: '/' :: table.commentText) =
      some (' ' :: table.render) := Text.dropPrefix?_append "///" (' ' :: table.render)
  have rendered : table.render = ("@use-src" : Text) ++ table.entriesText := rfl
  have startsAtName : Text.trimStart (' ' :: table.render) = table.render := by
    rw [Text.trimStart, List.dropWhile_cons_of_pos (by decide), rendered]
    exact List.dropWhile_cons_of_neg (by decide)
  rw [pragmaPayload?, content]
  change Text.dropPrefix? "@use-src" (Text.trimStart (' ' :: table.render)) = _
  rw [startsAtName, rendered, Text.dropPrefix?_append]

theorem unbroken_renderEntry (entry : UInt32 × Text) : '\n' ∉ renderEntry entry := by
  have digitsUnbroken : '\n' ∉ Text.ofNat entry.1.toNat := fun member =>
    absurd (Text.isDigit_of_mem_ofNat member) (by decide)
  simp [renderEntry, digitsUnbroken, Text.Quoted.unbroken_encode]

theorem unbroken_entries (entries : List (UInt32 × Text)) :
    '\n' ∉ List.intercalate ", " (entries.map renderEntry) := by
  induction entries with
  | nil => exact List.not_mem_nil
  | cons entry back inductionHypothesis =>
      cases back with
      | nil =>
          rw [List.map_singleton, List.intercalate_singleton]
          exact unbroken_renderEntry entry
      | cons next others =>
          have separatorUnbroken : '\n' ∉ (", " : Text) := by decide
          rw [List.map_cons, List.map_cons, List.intercalate_cons_cons, List.append_assoc]
          simp only [List.mem_append, not_or]
          exact ⟨unbroken_renderEntry entry, separatorUnbroken, inductionHypothesis⟩

theorem unbroken_commentText (table : SourceTable) : '\n' ∉ table.commentText := by
  have nameUnbroken : '\n' ∉ ("@use-src " : Text) := by decide
  unfold commentText render
  simp only [List.mem_cons, List.mem_append, not_or]
  exact ⟨by decide, by decide, nameUnbroken, unbroken_entries table.entries⟩

/-- The comment that is written for a table is the first token of its line and all of it, and the
table is read from it. -/
theorem scan_render (table : SourceTable) (rest : Text) :
    ∃ token, Token.scan (("/// " : Text) ++ (DebugBundle.render ⟨some table⟩ ++ '\n' :: rest)) =
        token :: (Token.scan ('\n' :: rest)).map (Token.moved token.text.byteSize) ∧
      token.kind = .pragma ∧
      token.text = ("/// " : Text) ++ DebugBundle.render ⟨some table⟩ ∧ '\n' ∉ token.text ∧
      token.start = 0 ∧
      ofPayload ((pragmaPayload? token.text).getD []) = .ok table := by
  have payload := pragmaPayload?_commentText table
  have cut := Lexeme.firstPiece_pragma table.unbroken_commentText (by rw [payload]; rfl) rest
  refine ⟨⟨.pragma, '/' :: '/' :: table.commentText, 0⟩, Token.scan_of_cut cut, rfl, rfl, ?_, rfl,
    ?_⟩
  · simpa using table.unbroken_commentText
  · rw [payload]
    exact table.ofPayload_entriesText

end SourceTable

end YulTree
