import YulTree.Proofs.Token.Ranges
import YulTree.Reader.Ranged

/-!
# Parts of short sources

Of a token that fits into its source, the reader by ranges makes what the reader makes of the token
(`bytes?_eq`, `pragma?_eq`).
-/

namespace YulTree.Ranged

open Reader Token

section

variable {source : Text} {token : Token}

theorem literal?_eq (fits : token.Fits source) (isString : token.kind = .stringLiteral) :
    literal? token = some (Text.Quoted.decodeLiteral token.text) := by
  rw [literal?, fits.string isString]
  rfl

theorem text?_eq (fits : token.Fits source) (isString : token.kind = .stringLiteral) :
    text? token = some (readText token) := by
  rw [text?, literal?_eq fits isString]
  exact congrArg some rfl

theorem bytes?_eq (fits : token.Fits source) : bytes? token = some (readBytes token) := by
  cases kind : token.kind with
  | hexLiteral =>
      simp only [bytes?, readBytes, kind, fits.hexadecimal kind, Option.map_some]
      exact congrArg some rfl
  | stringLiteral => simp only [bytes?, readBytes, kind, literal?_eq fits kind, Option.map_some]
  | _ => simp only [bytes?, readBytes, kind]

theorem entryName?_eq (fits : token.Fits source) (index : UInt32) :
    entryName? index token = some (SourceTable.readName index token) := by
  unfold entryName? SourceTable.readName
  split
  · rfl
  · next isString =>
      rw [literal?_eq fits (Classical.not_not.mp isString)]
      exact congrArg some rfl

end

/-- Entries are read as from tokens with their texts. -/
theorem entries?_eq {payload : Text} : ∀ {table : SourceTable} {tokens : List Token},
    (∀ token ∈ tokens, token.Fits payload) →
      entries? payload table (tokens.map pack) = some (SourceTable.readEntries table tokens)
  | _, [], _ => rfl
  | table, number :: rest, fit => by
      obtain ⟨numberFits, restFits⟩ := List.forall_mem_cons.mp fit
      rw [List.map_cons, entries?, numberFits.token?, Option.bind_some, SourceTable.readEntries]
      rcases SourceTable.readIndex number with fault | index
      · rfl
      rcases rest with _ | ⟨colon, rest⟩
      · rfl
      obtain ⟨colonFits, restFits⟩ := List.forall_mem_cons.mp restFits
      simp only [List.map_cons, colonFits.token?, Option.bind_some]
      rcases SourceTable.isMark ":" colon with _ | _
      · rfl
      rcases rest with _ | ⟨literal, rest⟩
      · rfl
      obtain ⟨literalFits, restFits⟩ := List.forall_mem_cons.mp restFits
      simp only [List.map_cons, literalFits.token?, Option.bind_some, entryName?_eq literalFits]
      rcases SourceTable.readName index literal with fault | name
      · rfl
      rcases table.contains index with _ | _
      · rcases rest with _ | ⟨comma, rest⟩
        · rfl
        obtain ⟨commaFits, restFits⟩ := List.forall_mem_cons.mp restFits
        simp only [List.map_cons, commaFits.token?, Option.bind_some]
        rcases SourceTable.isMark "," comma with _ | _
        · rfl
        rcases rest with _ | ⟨next, rest⟩
        · rfl
        exact entries?_eq restFits
      · rfl

theorem byteSize_payload_le (comment : Text) :
    Text.byteSize ((pragmaPayload? comment).getD []) ≤ comment.byteSize := by
  cases found : pragmaPayload? comment with
  | none => exact Nat.zero_le _
  | some payload =>
      obtain ⟨content, isContent, isPayload⟩ := Option.bind_eq_some_iff.mp found
      have cut := Text.dropPrefix?_eq_some_iff.mp isContent
      have trimmed := Text.dropPrefix?_eq_some_iff.mp isPayload
      have whole := List.takeWhile_append_dropWhile (p := Text.blank.contains) (l := content)
      rw [Text.trimStart] at trimmed
      rw [cut, ← whole, trimmed, Option.getD_some]
      simp only [Text.byteSize_append]
      omega

theorem pragma?_eq {source : Text} (short : source.byteSize < UInt32.size) {token : Token}
    (member : token ∈ scan source) : pragma? token = some (readPragma token) := by
  have inside : token.text.byteSize ≤ source.byteSize := by
    obtain ⟨before, after, row⟩ := List.append_of_mem member
    rw [← flatten_texts_scan source, row]
    simp only [List.map_append, List.map_cons, List.flatten_append, List.flatten_cons,
      Text.byteSize_append]
    omega
  have shortPayload : Text.byteSize ((pragmaPayload? token.text).getD []) < UInt32.size :=
    Nat.lt_of_le_of_lt (Nat.le_trans (byteSize_payload_le token.text) inside) short
  have fit : ∀ part ∈ significant ((pragmaPayload? token.text).getD []),
      part.Fits ((pragmaPayload? token.text).getD []) := fun part isPart =>
    fits_of_mem_scan shortPayload (mem_significant_iff.mp isPart).1
  rw [pragma?, entries?_eq fit]
  rfl

end YulTree.Ranged
