import YulTree.Text.Hex

/-!
# Quoted literals

A text in quotation marks, with a backslash before what cannot stand there as itself.
`encode` writes the one form that is written; `decode` reads every form that may stand
between quotation marks, as bytes, because escapes can denote bytes that are no text.
-/

namespace YulTree.Text.Quoted

def encodeChar (c : Char) : Text :=
  if c = '"' then "\\\""
  else if c = '\\' then "\\\\"
  else if c = '\n' then "\\n"
  else if c = '\r' then "\\r"
  else if c = '\t' then "\\t"
  else if c.toNat < 0x20 ∨ c.toNat = 0x7f then
    "\\x" ++ Bytes.hexOfByte (UInt8.ofNat c.toNat)
  else [c]

def encode (text : Text) : Text := '"' :: (text.flatMap encodeChar ++ ['"'])

/-- The byte denoted by a backslash and the given character. -/
def plainEscape? (mark : Char) : Option UInt8 :=
  if mark = '\\' then some 0x5c
  else if mark = '"' then some 0x22
  else if mark = '\'' then some 0x27
  else if mark = 'n' then some 0x0a
  else if mark = 'r' then some 0x0d
  else if mark = 't' then some 0x09
  else none

/-- The byte denoted by the two characters after `\x`. -/
def byteEscape? (digits : Text) : Option UInt8 :=
  (signedHexValue? digits).map UInt8.ofNat

/-- The character denoted by the four characters after `\u`, which must not be a
surrogate. -/
def charEscape? (digits : Text) : Option Char :=
  (signedHexValue? digits).bind fun value =>
    if value.isValidChar then some (Char.ofNat value) else none

/-- The bytes denoted by the interior of a literal.  An interior that breaks the rules is
answered with its first broken escape. -/
def decode : Text → Except Text Bytes
  | [] => .ok []
  | c :: rest =>
      if c ≠ '\\' then
        (decode rest).map (String.utf8EncodeChar c ++ ·)
      else
        match rest with
        | [] => .error "\\"
        | mark :: rest =>
            match plainEscape? mark with
            | some byte => (decode rest).map (byte :: ·)
            | none =>
                if mark = 'x' then
                  match rest with
                  | a :: b :: rest =>
                      match byteEscape? [a, b] with
                      | some byte => (decode rest).map (byte :: ·)
                      | none => .error ['\\', 'x', a, b]
                  | digits => .error ('\\' :: 'x' :: digits)
                else if mark = 'u' then
                  match rest with
                  | a :: b :: d :: e :: rest =>
                      match charEscape? [a, b, d, e] with
                      | some denoted => (decode rest).map (String.utf8EncodeChar denoted ++ ·)
                      | none => .error ['\\', 'u', a, b, d, e]
                  | digits => .error ('\\' :: 'u' :: digits)
                else
                  .error ['\\', mark]

def decodeLiteral (literal : Text) : Except Text Bytes := decode (interior literal)

end YulTree.Text.Quoted
