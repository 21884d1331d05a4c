import PhasedLoad.Json.Basic
import PhasedLoad.Binary64.Shortest

/-!
JSON in its compact form: no blanks, only the escapes that JSON asks for, and numbers with their
fewest digits.
-/

namespace PhasedLoad.Json

/-- Floating-point numbers have an exponent below `1e-5` and from `1e16` on. -/
def numberLayout : Binary64.Layout := ⟨-5, 15⟩

def Number.text : Number → List Char
  | .whole n => (toString n).toList
  | .float x => if x.isFinite then Binary64.finiteText numberLayout x else ['n', 'u', 'l', 'l']

def escaped (c : Char) : List Char :=
  if c = '"' then ['\\', '"']
  else if c = '\\' then ['\\', '\\']
  else if c = '\n' then ['\\', 'n']
  else if c = '\r' then ['\\', 'r']
  else if c = '\t' then ['\\', 't']
  else if c.toNat = 8 then ['\\', 'b']
  else if c.toNat = 12 then ['\\', 'f']
  else if c.toNat < 0x20 then
    ['\\', 'u', '0', '0', Text.hexDigit (c.toNat / 16), Text.hexDigit (c.toNat % 16)]
  else [c]

def stringText (s : String) : List Char := '"' :: s.toList.flatMap escaped ++ ['"']

mutual

def chars : Json → List Char
  | null => ['n', 'u', 'l', 'l']
  | bool true => ['t', 'r', 'u', 'e']
  | bool false => ['f', 'a', 'l', 's', 'e']
  | number n => n.text
  | string s => stringText s
  | array items => '[' :: itemsChars items ++ [']']
  | object members => '\x7b' :: membersChars members ++ ['\x7d']

def itemsChars : List Json → List Char
  | [] => []
  | [v] => chars v
  | v :: rest => chars v ++ ',' :: itemsChars rest

def membersChars : List (String × Json) → List Char
  | [] => []
  | [(k, v)] => stringText k ++ ':' :: chars v
  | (k, v) :: rest => stringText k ++ ':' :: (chars v ++ ',' :: membersChars rest)

end

def compact (v : Json) : String := String.ofList v.chars

end PhasedLoad.Json
