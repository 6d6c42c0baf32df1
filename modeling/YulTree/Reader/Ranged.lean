import YulTree.Reader.Read
import YulTree.Token.Packed

/-!
# Reading by ranges

A reader that knows tokens by their stored places, takes all texts by ranges of bytes and counts
what is open.  It comes to nothing if a range is not there or a count falls below zero.
-/

namespace YulTree.Ranged

open Reader Token

/-- One less, unless there is nothing left. -/
def less? : Nat → Option Nat
  | 0 => none
  | count + 1 => some count

/-- The bytes of a literal, decoded from what its quotation marks enclose. -/
def literal? (token : Token) : Option (Except Text Bytes) :=
  (token.text.enclosed? 1).map Text.Quoted.decode

def textOf (token : Token) : Except Text Bytes → Except ReadError Text
  | .error escape => .error ⟨.badEscape escape, token.span⟩
  | .ok bytes =>
      match Text.ofBytes? bytes with
      | some text => .ok text
      | none => .error ⟨.nameNotText, token.span⟩

def text? (token : Token) : Option (Except ReadError Text) := (literal? token).map (textOf token)

def bytesOf (token : Token) (digits : Text) : Except ReadError Bytes :=
  match Bytes.ofHex? (digits.filter (· != '_')) with
  | some bytes => .ok bytes
  | none => .error ⟨.oddHexDigits, token.span⟩

def bytes? (token : Token) : Option (Except ReadError Bytes) :=
  match token.kind with
  | .hexLiteral => (token.text.enclosed? 4).map (bytesOf token)
  | .stringLiteral =>
      (literal? token).map fun decoded =>
        decoded.mapError fun escape => ⟨.badEscape escape, token.span⟩
  | _ => some (unexpected .literal token)

def entryName? (index : UInt32) (token : Token) : Option (Except PragmaFault Text) :=
  if token.kind ≠ .stringLiteral then some (.error (.expectedName index))
  else
    (literal? token).map fun
      | .error escape => .error (.badEscape escape)
      | .ok bytes =>
          match Text.ofBytes? bytes with
          | some name => .ok name
          | none => .error .nameNotText

/-- The table with the entries that stored tokens of a payload list. -/
def entries? (payload : Text) (table : SourceTable) :
    List Packed → Option (Except PragmaFault SourceTable)
  | [] => some (.ok table)
  | number :: rest =>
      (number.token? payload).bind fun number =>
        match SourceTable.readIndex number with
        | .error fault => some (.error fault)
        | .ok index =>
            match rest with
            | [] => some (.error (.expectedColon index))
            | colon :: rest =>
                (colon.token? payload).bind fun colon =>
                  if !SourceTable.isMark ":" colon then some (.error (.expectedColon index))
                  else
                    match rest with
                    | [] => some (.error (.expectedName index))
                    | literal :: rest =>
                        (literal.token? payload).bind fun literal =>
                          (entryName? index literal).bind fun
                            | .error fault => some (.error fault)
                            | .ok name =>
                                if table.contains index then some (.error (.listedTwice index))
                                else
                                  match rest with
                                  | [] => some (.ok (table.insert index name))
                                  | comma :: rest =>
                                      (comma.token? payload).bind fun comma =>
                                        if !SourceTable.isMark "," comma then
                                          some (.error (.expectedComma comma.text))
                                        else if rest.isEmpty then some (.error .trailingComma)
                                        else entries? payload (table.insert index name) rest

/-- The table of a pragma, from the stored tokens of its payload. -/
def pragma? (token : Token) : Option (Except ReadError SourceTable) :=
  let payload := (pragmaPayload? token.text).getD []
  (entries? payload OrderedMap.empty ((significant payload).map pack)).map fun listed =>
    listed.mapError fun fault => ⟨.badPragma fault, token.span⟩

variable {κ : Type}

/-- A state, and how many objects have begun and not ended.  Of a block there are the place of its
opening brace and the number of braces that are open, this one included, and no text. -/
structure Cursor (κ : Type) where
  state : State κ
  depth : Nat

def start (braceSpan : Span) : OpenBlock := ⟨braceSpan, 1, []⟩

/-- One more token of a block; the brace that closes it leaves the text of the source between. -/
def block? (source : Text) (block : OpenBlock) (token : Token) : Option (OpenBlock ⊕ Text) :=
  match token.kind with
  | .openBrace => some (.inl { block with depth := block.depth + 1 })
  | .closeBrace =>
      (less? block.depth).bind fun depth =>
        if depth = 0 then (source.range? block.braceSpan.stop token.start).map .inr
        else some (.inl { block with depth })
  | _ => some (.inl block)

def beginObject (reader : Reader κ) (pragma : Option SourceTable) (outer : List (Level κ))
    (token : Token) (depth : Nat) : Except ReadError (Cursor κ) :=
  if reader.limit ≤ depth then .error ⟨.tooDeep reader.limit, token.span⟩
  else .ok ⟨.keyword pragma outer, depth + 1⟩

def item? (reader : Reader κ) (level : Level κ) (outer : List (Level κ)) (token : Token)
    (depth : Nat) : Option (Except ReadError (Cursor κ)) :=
  match token.kind with
  | .closeBrace => (less? depth).map fun depth => (endObject level outer).map (⟨·, depth⟩)
  | .dataKeyword => some (.ok ⟨.dataKeyword level outer, depth⟩)
  | .objectKeyword => some (beginObject reader none (level :: outer) token depth)
  | .pragma => (pragma? token).map fun read => read.map (⟨.pragma · level outer, depth⟩)
  | _ => some (unexpected .item token)

def first? (reader : Reader κ) (pragma : Option SourceTable) (token : Token) (depth : Nat) :
    Option (Except ReadError (Cursor κ)) :=
  match token.kind, pragma with
  | .pragma, none => (pragma? token).map fun read => read.map fun table => ⟨.start (some table), depth⟩
  | .openBrace, _ => some (.ok ⟨.loneBlock pragma (start token.span), depth⟩)
  | .objectKeyword, _ => some (beginObject reader pragma [] token depth)
  | _, _ => some (unexpected .objectOrBlock token)

/-- What one more stored token of a source leads to. -/
def step? (reader : Reader κ) (source : Text) (cursor : Cursor κ) (packed : Packed) :
    Option (Except ReadError (Cursor κ)) :=
  (packed.token? source).bind fun token =>
    let depth := cursor.depth
    match cursor.state with
    | .start pragma => first? reader pragma token depth
    | .loneBlock pragma block =>
        (block? source block token).map fun
          | .inl block => .ok ⟨.loneBlock pragma block, depth⟩
          | .inr body =>
              .ok ⟨.finished
                ((Object.unnamed.setCode (reader.payload body) none).setPragma pragma), depth⟩
    | .keyword pragma outer =>
        match token.kind with
        | .stringLiteral =>
            (text? token).map fun read => read.map (⟨.name pragma · token.span outer, depth⟩)
        | _ => some (unexpected .objectName token)
    | .name pragma name nameSpan outer =>
        match token.kind with
        | .openBrace =>
            some (.ok ⟨.opened ⟨(Object.new name).setPragma pragma, nameSpan, token.span⟩ outer,
              depth⟩)
        | _ => some (unexpected .openBrace token)
    | .opened level outer =>
        match token.kind with
        | .codeKeyword => some (.ok ⟨.codeKeyword level outer, depth⟩)
        | _ => item? reader level outer token depth
    | .codeKeyword level outer =>
        match token.kind with
        | .openBrace => some (.ok ⟨.code (start token.span) level outer, depth⟩)
        | _ => some (unexpected .openBrace token)
    | .code block level outer =>
        (block? source block token).map fun
          | .inl block => .ok ⟨.code block level outer, depth⟩
          | .inr body =>
              .ok ⟨.items
                { level with object := level.object.setCode (reader.payload body) none } outer,
                depth⟩
    | .items level outer => item? reader level outer token depth
    | .pragma table level outer =>
        match token.kind with
        | .objectKeyword => some (beginObject reader (some table) (level :: outer) token depth)
        | _ => some (unexpected .object token)
    | .dataKeyword level outer =>
        match token.kind with
        | .stringLiteral =>
            (text? token).map fun read => read.map (⟨.dataName · token.span level outer, depth⟩)
        | _ => some (unexpected .dataName token)
    | .dataName name nameSpan level outer =>
        (bytes? token).map fun read =>
          read.bind fun bytes =>
            (level.attach (.data ⟨name, bytes⟩) nameSpan).map (⟨.items · outer, depth⟩)
    | .finished _ => some (unexpected .endOfInput token)

def resume? (reader : Reader κ) (source : Text) (cursor : Cursor κ) :
    List Packed → Option (Except ReadError (Object κ))
  | [] => some (finish source.byteSize cursor.state)
  | packed :: rest =>
      (step? reader source cursor packed).bind fun
        | .error error => some (.error error)
        | .ok next => resume? reader source next rest

/-- The object that a source describes. -/
def read? (reader : Reader κ) (source : Text) : Option (Except ReadError (Object κ)) :=
  resume? reader source ⟨.start none, 0⟩ ((significant source).map pack)

end YulTree.Ranged
