import PhasedLoad.Text.Digits
import PhasedLoad.Text.Unprintable

/-!
A text between double quotes, as it stands in messages: quotes and backslashes are escaped, and a
character that could not be seen is given by its code point.
-/

namespace PhasedLoad.Text

def quotedChar (c : Char) : List Char :=
  if c = '"' then ['\\', '"']
  else if c = '\\' then ['\\', '\\']
  else if c = '\n' then ['\\', 'n']
  else if c = '\r' then ['\\', 'r']
  else if c = '\t' then ['\\', 't']
  else if c.toNat = 0 then ['\\', '0']
  else if isUnprintable c then ['\\', 'u', '\x7b'] ++ hex c.toNat ++ ['\x7d']
  else [c]

def quoted (s : String) : String :=
  String.ofList ('"' :: s.toList.flatMap quotedChar ++ ['"'])

end PhasedLoad.Text
