import ClassImage.Bytes.Hex
import ClassImage.Text.Hidden

/-!
Quoted text: between double quotes, with a backslash before a quote or another
backslash, short forms for the common control characters, and the number of any
other hidden character.
-/

namespace ClassImage

namespace Text

def quoteChar (c : Char) : List Char :=
  if c = Char.ofNat 0 then ['\\', '0']
  else if c = '\t' then ['\\', 't']
  else if c = '\r' then ['\\', 'r']
  else if c = '\n' then ['\\', 'n']
  else if c = '\\' then ['\\', '\\']
  else if c = '"' then ['\\', '"']
  else if isHidden c then ("\\u\x7b" ++ Hex.ofNat c.toNat ++ "\x7d").toList
  else [c]

def quoted (text : String) : String :=
  "\"" ++ String.ofList (text.toList.flatMap quoteChar) ++ "\""

end Text

end ClassImage
