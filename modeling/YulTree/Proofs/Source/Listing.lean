import YulTree.Proofs.Token.Tiling
import YulTree.Source.Pragma

/-!
# Lists of sources

The payloads that list sources, by their tokens: nothing, or entries of a number, a colon and a
name with a comma between any two.  Those are read that list no index twice, and as the table with
their entries (`ofPayload_listed`).
-/

namespace YulTree

namespace Text

/-- The bytes of a text are those of no other text. -/
theorem ofBytes?_eq_some_iff {bytes : Bytes} {text : Text} :
    ofBytes? bytes = some text ↔ bytes = text.toBytes := by
  constructor
  · intro decoded
    obtain ⟨characters, found, rfl⟩ := Option.map_eq_some_iff.mp decoded
    have valid : bytes.toByteArray.IsValidUTF8 :=
      ByteArray.isSome_utf8Decode?_iff.mp (by rw [found]; rfl)
    obtain ⟨text, encoded⟩ := valid
    rw [encoded, List.utf8Decode?_utf8Encode] at found
    obtain rfl := Option.some.inj found
    exact List.toByteArray_inj.mp encoded
  · rintro rfl
    exact ofBytes?_toBytes text

theorem toNat?_eq_some_iff {numeral : Text} (nonempty : numeral ≠ []) {n : Nat} :
    toNat? numeral = some n ↔
      (∀ c ∈ numeral, c.isDigit = true) ∧ Nat.ofDigitChars 10 numeral 0 = n := by
  have notEmpty : numeral.isEmpty = false := List.isEmpty_eq_false_iff.mpr nonempty
  simp [toNat?, notEmpty]

theorem toIndex?_eq_some_iff {numeral : Text} (nonempty : numeral ≠ []) {index : UInt32} :
    toIndex? numeral = some index ↔
      (∀ c ∈ numeral, c.isDigit = true) ∧ Nat.ofDigitChars 10 numeral 0 = index.toNat := by
  rw [toIndex?, Option.bind_eq_some_iff]
  simp only [toNat?_eq_some_iff nonempty]
  constructor
  · rintro ⟨n, ⟨digits, rfl⟩, isIndex⟩
    split at isIndex
    · next small =>
        obtain rfl := Option.some.inj isIndex
        exact ⟨digits, (UInt32.toNat_ofNat_of_lt' small).symm⟩
    · cases isIndex
  · rintro ⟨digits, value⟩
    have small : index.toNat < UInt32.size := index.toNat_lt
    exact ⟨index.toNat, ⟨digits, value⟩, by rw [if_pos small, UInt32.ofNat_toNat]⟩

end Text

namespace Token

/-- A number in decimal digits with the value of an index. -/
structure IsIndex (token : Token) (index : UInt32) : Prop where
  kind : token.kind = .number
  digits : ∀ c ∈ token.text, c.isDigit = true
  value : Nat.ofDigitChars 10 token.text 0 = index.toNat

/-- A literal that denotes the bytes of a name. -/
structure IsName (token : Token) (name : Text) : Prop where
  kind : token.kind = .stringLiteral
  bytes : Text.Quoted.decodeLiteral token.text = .ok name.toBytes

structure IsMark (token : Token) (mark : Text) : Prop where
  kind : token.kind = .punctuation
  text : token.text = mark

theorem text_ne_nil_of_mem_significant {source : Text} {token : Token}
    (member : token ∈ significant source) : token.text ≠ [] :=
  text_ne_nil_of_mem_scan (List.mem_filter.mp member).1

end Token

namespace SourceTable

/-- Entries with one comma between any two of them. -/
inductive EntryRow : List Token → List (UInt32 × Text) → Prop
  | last {number colon literal : Token} {index : UInt32} {name : Text} :
      number.IsIndex index → colon.IsMark ":" → literal.IsName name →
      EntryRow [number, colon, literal] [(index, name)]
  | more {number colon literal comma : Token} {index : UInt32} {name : Text}
      {tokens : List Token} {entries : List (UInt32 × Text)} :
      number.IsIndex index → colon.IsMark ":" → literal.IsName name → comma.IsMark "," →
      EntryRow tokens entries →
      EntryRow (number :: colon :: literal :: comma :: tokens) ((index, name) :: entries)

/-- Tokens that list entries, or none. -/
def Lists (tokens : List Token) (entries : List (UInt32 × Text)) : Prop :=
  (tokens = [] ∧ entries = []) ∨ EntryRow tokens entries

theorem readIndex_eq_ok_iff {token : Token} (nonempty : token.text ≠ []) {index : UInt32} :
    readIndex token = .ok index ↔ token.IsIndex index := by
  by_cases isNumber : token.kind = .number
  · rw [readIndex, if_neg (not_not_intro isNumber)]
    constructor
    · intro read
      split at read
      · next other isIndex =>
          cases read
          obtain ⟨digits, value⟩ := (Text.toIndex?_eq_some_iff nonempty).mp isIndex
          exact ⟨isNumber, digits, value⟩
      · cases read
    · intro isIndex
      rw [(Text.toIndex?_eq_some_iff nonempty).mpr ⟨isIndex.digits, isIndex.value⟩]
  · rw [readIndex, if_pos isNumber]
    constructor
    · intro read
      cases read
    · intro isIndex
      exact absurd isIndex.kind isNumber

theorem readName_eq_ok_iff {index : UInt32} {token : Token} {name : Text} :
    readName index token = .ok name ↔ token.IsName name := by
  by_cases isString : token.kind = .stringLiteral
  · rw [readName, if_neg (not_not_intro isString)]
    constructor
    · intro read
      split at read
      · cases read
      · next bytes decoded =>
          split at read
          · next other isText =>
              cases read
              rw [Text.ofBytes?_eq_some_iff.mp isText] at decoded
              exact ⟨isString, decoded⟩
          · cases read
    · intro isName
      rw [isName.bytes]
      simp
  · rw [readName, if_pos isString]
    constructor
    · intro read
      cases read
    · intro isName
      exact absurd isName.kind isString

theorem isMark_eq_true_iff {mark : Text} {token : Token} :
    isMark mark token = true ↔ token.IsMark mark := by
  rw [isMark, Bool.and_eq_true, beq_iff_eq, beq_iff_eq]
  constructor
  · rintro ⟨kind, text⟩
    exact ⟨kind, text⟩
  · rintro ⟨kind, text⟩
    exact ⟨kind, text⟩

def IsEntryKind (kind : TokenKind) : Prop :=
  kind = .number ∨ kind = .punctuation ∨ kind = .stringLiteral

theorem EntryRow.kinds {tokens : List Token} {entries : List (UInt32 × Text)}
    (row : EntryRow tokens entries) : ∀ token ∈ tokens, IsEntryKind token.kind := by
  induction row with
  | last number colon literal =>
      simp only [List.forall_mem_cons]
      exact ⟨.inl number.kind, .inr (.inl colon.kind), .inr (.inr literal.kind),
        List.forall_mem_nil _⟩
  | more number colon literal comma row inductionHypothesis =>
      simp only [List.forall_mem_cons]
      exact ⟨.inl number.kind, .inr (.inl colon.kind), .inr (.inr literal.kind),
        .inr (.inl comma.kind), inductionHypothesis⟩

def insertAll (table : SourceTable) (entries : List (UInt32 × Text)) : SourceTable :=
  entries.foldl (fun table entry => table.insert entry.1 entry.2) table

/-- Entries of which no index is listed already or twice. -/
structure AreNew (table : SourceTable) (entries : List (UInt32 × Text)) : Prop where
  distinct : (entries.map Prod.fst).Nodup
  unlisted : ∀ entry ∈ entries, table.contains entry.1 = false

theorem areNew_cons_iff {table : SourceTable} {index : UInt32} {name : Text}
    {entries : List (UInt32 × Text)} :
    AreNew table ((index, name) :: entries) ↔
      table.contains index = false ∧ AreNew (table.insert index name) entries := by
  constructor
  · rintro ⟨distinct, unlisted⟩
    obtain ⟨first, others⟩ := List.forall_mem_cons.mp unlisted
    obtain ⟨notLater, restDistinct⟩ := List.nodup_cons.mp distinct
    refine ⟨first, restDistinct, ?_⟩
    intro entry member
    rw [← Bool.not_eq_true, OrderedMap.contains_insert, not_or, Bool.not_eq_true]
    constructor
    · intro same
      exact notLater (List.mem_map.mpr ⟨entry, member, same⟩)
    · exact others entry member
  · rintro ⟨first, restDistinct, others⟩
    have apart : ∀ entry ∈ entries, entry.1 ≠ index ∧ table.contains entry.1 = false := by
      intro entry member
      have unlisted := others entry member
      rw [← Bool.not_eq_true, OrderedMap.contains_insert, not_or, Bool.not_eq_true] at unlisted
      exact unlisted
    constructor
    · refine List.nodup_cons.mpr ⟨?_, restDistinct⟩
      intro later
      obtain ⟨entry, member, same⟩ := List.mem_map.mp later
      exact (apart entry member).1 same
    · refine List.forall_mem_cons.mpr ⟨first, ?_⟩
      intro entry member
      exact (apart entry member).2

/-- A table of entries with different indices has these and no others. -/
theorem eq_insertAll_iff {table : SourceTable} {entries : List (UInt32 × Text)}
    (distinct : (entries.map Prod.fst).Nodup) :
    insertAll OrderedMap.empty entries = table ↔
      ∀ index name, table.get? index = some name ↔ (index, name) ∈ entries := by
  have listed : ∀ index name,
      (insertAll OrderedMap.empty entries).get? index = some name ↔ (index, name) ∈ entries := by
    intro index name
    rw [insertAll, OrderedMap.get?_foldl_insert distinct]
    simp
  constructor
  · rintro rfl
    exact listed
  · intro sameEntries
    apply OrderedMap.ext_get?
    intro index
    apply Option.ext
    intro name
    rw [listed, sameEntries]

/-! ## Reading entries -/

theorem lists_of_readEntries {table result : SourceTable} {tokens : List Token}
    (nonempty : ∀ token ∈ tokens, token.text ≠ [])
    (read : readEntries table tokens = .ok result) :
    ∃ entries, Lists tokens entries ∧ AreNew table entries ∧ insertAll table entries = result := by
  fun_induction readEntries table tokens with
  | case1 table =>
      cases read
      exact ⟨[], .inl ⟨rfl, rfl⟩, ⟨List.nodup_nil, List.forall_mem_nil _⟩, rfl⟩
  | case2 | case3 | case4 | case5 | case6 | case7 | case9 | case10 => cases read
  | case8 table number index isIndex colon isColon literal name isName fresh =>
      cases read
      have number := (readIndex_eq_ok_iff (nonempty _ List.mem_cons_self)).mp isIndex
      have colon := isMark_eq_true_iff.mp (by simpa using isColon)
      have new : AreNew table [(index, name)] :=
        areNew_cons_iff.mpr ⟨by simpa using fresh, List.nodup_nil, List.forall_mem_nil _⟩
      exact ⟨[(index, name)], .inr (.last number colon (readName_eq_ok_iff.mp isName)), new, rfl⟩
  | case11 table number index isIndex colon isColon literal name isName fresh comma tokens
      isComma more inductionHypothesis =>
      have number := (readIndex_eq_ok_iff (nonempty _ List.mem_cons_self)).mp isIndex
      have colon := isMark_eq_true_iff.mp (by simpa using isColon)
      have comma := isMark_eq_true_iff.mp (by simpa using isComma)
      have literal := readName_eq_ok_iff.mp isName
      obtain ⟨entries, lists, new, inserted⟩ :=
        inductionHypothesis (fun token member => nonempty token (by simp [member])) read
      rcases lists with ⟨rfl, -⟩ | row
      · exact absurd rfl more
      · exact ⟨(index, name) :: entries, .inr (.more number colon literal comma row),
          areNew_cons_iff.mpr ⟨by simpa using fresh, new⟩, inserted⟩

theorem readEntries_of_row {tokens : List Token} {entries : List (UInt32 × Text)}
    (row : EntryRow tokens entries) (nonempty : ∀ token ∈ tokens, token.text ≠ [])
    {table : SourceTable} (new : AreNew table entries) :
    readEntries table tokens = .ok (insertAll table entries) := by
  induction row generalizing table with
  | @last _ _ _ index name number colon literal =>
      have isIndex := (readIndex_eq_ok_iff (nonempty _ List.mem_cons_self)).mpr number
      have isColon := isMark_eq_true_iff.mpr colon
      have isName : readName index _ = .ok name := readName_eq_ok_iff.mpr literal
      obtain ⟨unlisted, -⟩ := areNew_cons_iff.mp new
      simp only [readEntries, isIndex, isColon, isName, unlisted, Bool.not_true,
        Bool.false_eq_true, if_false]
      rfl
  | @more _ _ _ _ index name tokens entries number colon literal comma row inductionHypothesis =>
      have isIndex := (readIndex_eq_ok_iff (nonempty _ List.mem_cons_self)).mpr number
      have isColon := isMark_eq_true_iff.mpr colon
      have isName : readName index _ = .ok name := readName_eq_ok_iff.mpr literal
      have isComma := isMark_eq_true_iff.mpr comma
      have goesOn : tokens.isEmpty = false := by cases row <;> rfl
      obtain ⟨unlisted, others⟩ := areNew_cons_iff.mp new
      have rest := inductionHypothesis (fun token member => nonempty token (by simp [member])) others
      simp only [readEntries, isIndex, isColon, isName, isComma, goesOn, unlisted, rest,
        Bool.not_true, Bool.false_eq_true, if_false]
      rfl

/-- The tokens that can be read in front of the entries of a table, and what they add to it. -/
theorem readEntries_eq_ok_iff {table result : SourceTable} {tokens : List Token}
    (nonempty : ∀ token ∈ tokens, token.text ≠ []) :
    readEntries table tokens = .ok result ↔
      ∃ entries, Lists tokens entries ∧ AreNew table entries ∧ insertAll table entries = result := by
  constructor
  · exact lists_of_readEntries nonempty
  · rintro ⟨entries, ⟨rfl, rfl⟩ | row, new, rfl⟩
    · rfl
    · exact readEntries_of_row row nonempty new

theorem areNew_empty {entries : List (UInt32 × Text)} (distinct : (entries.map Prod.fst).Nodup) :
    AreNew OrderedMap.empty entries :=
  ⟨distinct, fun _ _ => rfl⟩

/-- A payload is read as the table whose entries it lists. -/
theorem ofPayload_eq_ok_iff {payload : Text} {table : SourceTable} :
    ofPayload payload = .ok table ↔
      ∃ entries, Lists (Token.significant payload) entries ∧ (entries.map Prod.fst).Nodup ∧
        ∀ index name, table.get? index = some name ↔ (index, name) ∈ entries := by
  rw [ofPayload, readEntries_eq_ok_iff fun _ => Token.text_ne_nil_of_mem_significant]
  constructor
  · rintro ⟨entries, lists, new, inserted⟩
    exact ⟨entries, lists, new.distinct, (eq_insertAll_iff new.distinct).mp inserted⟩
  · rintro ⟨entries, lists, distinct, listed⟩
    exact ⟨entries, lists, areNew_empty distinct, (eq_insertAll_iff distinct).mpr listed⟩

/-- A payload is accepted exactly if it lists entries with different indices, and the table that is
read from it has these entries and no others. -/
theorem ofPayload_listed (payload : Text) :
    ((∃ table, ofPayload payload = .ok table) ↔
      ∃ entries, Lists (Token.significant payload) entries ∧ (entries.map Prod.fst).Nodup) ∧
    ∀ table, ofPayload payload = .ok table ↔
      ∃ entries, Lists (Token.significant payload) entries ∧ (entries.map Prod.fst).Nodup ∧
        ∀ index name, table.get? index = some name ↔ (index, name) ∈ entries := by
  constructor
  · constructor
    · rintro ⟨table, read⟩
      obtain ⟨entries, lists, distinct, -⟩ := ofPayload_eq_ok_iff.mp read
      exact ⟨entries, lists, distinct⟩
    · rintro ⟨entries, lists, distinct⟩
      exact ⟨_, ofPayload_eq_ok_iff.mpr
        ⟨entries, lists, distinct, (eq_insertAll_iff distinct).mp rfl⟩⟩
  · intro table
    exact ofPayload_eq_ok_iff

end SourceTable

end YulTree
