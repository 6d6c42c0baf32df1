import YulTree.Text.GraphemeExtend
import YulTree.Text.Hex
import YulTree.Text.Unprintable

/-!
# Texts quoted in messages

A message shows a text in double quotation marks, with an escape for each character that
could not be told from its surroundings when read by eye.
-/

namespace YulTree.Text

/-- The Hangul fillers: letters that are shown as nothing. -/
def filler : CharClass where
  ranges := [(0x115f, 0x1160), (0x3164, 0x3164), (0xffa0, 0xffa0)]

/-- Whether a character has no shape of its own, or none in a place of its own. -/
def isElusive (c : Char) : Bool :=
  graphemeExtend.contains c || filler.contains c || unprintable.contains c

def echoChar (c : Char) : Text :=
  if c = '"' then "\\\""
  else if c = '\\' then "\\\\"
  else if c = '\n' then "\\n"
  else if c = '\r' then "\\r"
  else if c = '\t' then "\\t"
  else if c.toNat = 0 then "\\0"
  else if isElusive c then
    "\\u\x7b" ++ hexNumeral c.toNat ++ "\x7d"
  else [c]

def echo (text : Text) : Text := '"' :: (text.flatMap echoChar ++ ['"'])

end YulTree.Text
