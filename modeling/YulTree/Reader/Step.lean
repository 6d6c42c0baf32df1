import YulTree.Reader.State

/-!
# Reading one token

How each token takes the reader from one state to the next, and what the end of the input
means in each state.
-/

namespace YulTree.Reader

variable {κ : Type}

/-- A token that may not stand where it stands. -/
def unexpected {α : Type} (expected : Expected) (token : Token) : Except ReadError α :=
  .error ⟨.unexpectedToken expected token.kind, token.span⟩

def readText (token : Token) : Except ReadError Text :=
  match Text.Quoted.decodeLiteral token.text with
  | .error escape => .error ⟨.badEscape escape, token.span⟩
  | .ok bytes =>
      match Text.ofBytes? bytes with
      | some text => .ok text
      | none => .error ⟨.nameNotText, token.span⟩

/-- The digits of a hexadecimal literal, without the underscores between them. -/
def hexDigits (literal : Text) : Text := (Text.interior (literal.drop 3)).filter (· != '_')

/-- The bytes that a literal denotes. -/
def readBytes (token : Token) : Except ReadError Bytes :=
  match token.kind with
  | .hexLiteral =>
      match Bytes.ofHex? (hexDigits token.text) with
      | some bytes => .ok bytes
      | none => .error ⟨.oddHexDigits, token.span⟩
  | .stringLiteral =>
      (Text.Quoted.decodeLiteral token.text).mapError fun escape =>
        ⟨.badEscape escape, token.span⟩
  | _ => unexpected .literal token

def readPragma (token : Token) : Except ReadError SourceTable :=
  (SourceTable.ofPayload ((pragmaPayload? token.text).getD [])).mapError fun fault =>
    ⟨.badPragma fault, token.span⟩

def Level.attach (level : Level κ) (node : Node κ) (nameSpan : Span) :
    Except ReadError (Level κ) :=
  match level.object.attach node with
  | .ok object => .ok { level with object }
  | .error error => .error ⟨.attach error, nameSpan⟩

/-- An object begins inside the given levels, unless these are as many as may be open. -/
def beginObject (reader : Reader κ) (pragma : Option SourceTable) (outer : List (Level κ))
    (token : Token) : Except ReadError (State κ) :=
  if reader.limit ≤ outer.length then .error ⟨.tooDeep reader.limit, token.span⟩
  else .ok (.keyword pragma outer)

/-- An object ends: it is a child of the object around it, or all that was to be read. -/
def endObject (level : Level κ) : List (Level κ) → Except ReadError (State κ)
  | [] => .ok (.finished level.object)
  | parent :: outer =>
      (parent.attach (.object level.object) level.nameSpan).map (.items · outer)

/-- One more lexeme of a code block; the closing brace leaves the whole body. -/
def OpenBlock.step (block : OpenBlock) (lexeme : Lexeme) : OpenBlock ⊕ Text :=
  match lexeme.token.kind, block.depth with
  | .closeBrace, 0 => .inr (block.push lexeme.lead).body
  | .closeBrace, depth + 1 => .inl { block.push lexeme.whole with depth }
  | .openBrace, depth => .inl { block.push lexeme.whole with depth := depth + 1 }
  | _, _ => .inl (block.push lexeme.whole)

/-- An item of an object, or its closing brace. -/
def itemStep (reader : Reader κ) (level : Level κ) (outer : List (Level κ)) (token : Token) :
    Except ReadError (State κ) :=
  match token.kind with
  | .closeBrace => endObject level outer
  | .dataKeyword => .ok (.dataKeyword level outer)
  | .objectKeyword => beginObject reader none (level :: outer) token
  | .pragma => (readPragma token).map (.pragma · level outer)
  | _ => unexpected .item token

/-- The first token of a source, or the first after a pragma. -/
def startStep (reader : Reader κ) (pragma : Option SourceTable) (token : Token) :
    Except ReadError (State κ) :=
  match token.kind, pragma with
  | .pragma, none => (readPragma token).map fun table => .start (some table)
  | .openBrace, _ => .ok (.loneBlock pragma (.start token.span))
  | .objectKeyword, _ => beginObject reader pragma [] token
  | _, _ => unexpected .objectOrBlock token

def step (reader : Reader κ) (state : State κ) (lexeme : Lexeme) :
    Except ReadError (State κ) :=
  let token := lexeme.token
  match state with
  | .start pragma => startStep reader pragma token
  | .loneBlock pragma block =>
      match block.step lexeme with
      | .inl block => .ok (.loneBlock pragma block)
      | .inr body =>
          .ok (.finished
            ((Object.unnamed.setCode (reader.payload body) none).setPragma pragma))
  | .keyword pragma outer =>
      match token.kind with
      | .stringLiteral => (readText token).map (.name pragma · token.span outer)
      | _ => unexpected .objectName token
  | .name pragma name nameSpan outer =>
      match token.kind with
      | .openBrace =>
          .ok (.opened ⟨(Object.new name).setPragma pragma, nameSpan, token.span⟩ outer)
      | _ => unexpected .openBrace token
  | .opened level outer =>
      match token.kind with
      | .codeKeyword => .ok (.codeKeyword level outer)
      | _ => itemStep reader level outer token
  | .codeKeyword level outer =>
      match token.kind with
      | .openBrace => .ok (.code (.start token.span) level outer)
      | _ => unexpected .openBrace token
  | .code block level outer =>
      match block.step lexeme with
      | .inl block => .ok (.code block level outer)
      | .inr body =>
          .ok (.items
            { level with object := level.object.setCode (reader.payload body) none } outer)
  | .items level outer => itemStep reader level outer token
  | .pragma table level outer =>
      match token.kind with
      | .objectKeyword => beginObject reader (some table) (level :: outer) token
      | _ => unexpected .object token
  | .dataKeyword level outer =>
      match token.kind with
      | .stringLiteral => (readText token).map (.dataName · token.span level outer)
      | _ => unexpected .dataName token
  | .dataName name nameSpan level outer =>
      (readBytes token).bind fun bytes =>
        (level.attach (.data ⟨name, bytes⟩) nameSpan).map (.items · outer)
  | .finished _ => unexpected .endOfInput token

/-- The object that has been read when the input ends at a position. -/
def finish (position : Nat) : State κ → Except ReadError (Object κ)
  | .start _ => .error ⟨.unexpectedEnd .objectOrBlock, .at position⟩
  | .loneBlock _ block => .error ⟨.unclosedBlock, block.braceSpan⟩
  | .keyword _ _ => .error ⟨.unexpectedEnd .objectName, .at position⟩
  | .name _ _ _ _ => .error ⟨.unexpectedEnd .openBrace, .at position⟩
  | .opened level _ => .error ⟨.unclosedBlock, level.braceSpan⟩
  | .codeKeyword _ _ => .error ⟨.unexpectedEnd .openBrace, .at position⟩
  | .code block _ _ => .error ⟨.unclosedBlock, block.braceSpan⟩
  | .items level _ => .error ⟨.unclosedBlock, level.braceSpan⟩
  | .pragma _ _ _ => .error ⟨.unexpectedEnd .object, .at position⟩
  | .dataKeyword _ _ => .error ⟨.unexpectedEnd .dataName, .at position⟩
  | .dataName _ _ _ _ => .error ⟨.unexpectedEnd .dataValue, .at position⟩
  | .finished object => .ok object

end YulTree.Reader
