/-!
Bytes read as UTF-8, one byte at a time. Each longest start of a character that the next byte does
not continue is one fault, so a text read in spite of its faults has one replacement character for
each.
-/

namespace PhasedLoad.Text

/-- What is left of a character: the bytes owed, the range of the next one, and the value so far. -/
structure Owed where
  count : Nat
  low : Nat
  high : Nat
  value : Nat

/-- The character that a first byte is (or `none`, a fault), or what it owes. -/
def firstByte (b : Nat) : List (Option Char) × Option Owed :=
  if b < 0x80 then ([some (Char.ofNat b)], none)
  else if b < 0xC2 then ([none], none)
  else if b < 0xE0 then ([], some ⟨1, 0x80, 0xBF, b - 0xC0⟩)
  else if b = 0xE0 then ([], some ⟨2, 0xA0, 0xBF, 0⟩)
  else if b = 0xED then ([], some ⟨2, 0x80, 0x9F, b - 0xE0⟩)
  else if b < 0xF0 then ([], some ⟨2, 0x80, 0xBF, b - 0xE0⟩)
  else if b = 0xF0 then ([], some ⟨3, 0x90, 0xBF, 0⟩)
  else if b < 0xF4 then ([], some ⟨3, 0x80, 0xBF, b - 0xF0⟩)
  else if b = 0xF4 then ([], some ⟨3, 0x80, 0x8F, b - 0xF0⟩)
  else ([none], none)

/-- The characters and faults that byte `b` completes, and what is owed after it. -/
def nextByte (owed : Option Owed) (b : Nat) : List (Option Char) × Option Owed :=
  match owed with
  | none => firstByte b
  | some o =>
    if o.low ≤ b ∧ b ≤ o.high then
      if o.count = 1 then ([some (Char.ofNat (o.value * 64 + (b - 0x80)))], none)
      else ([], some ⟨o.count - 1, 0x80, 0xBF, o.value * 64 + (b - 0x80)⟩)
    else (none :: (firstByte b).1, (firstByte b).2)

/-- The characters of the bytes after those that left `owed`, with `none` for each fault. -/
def utf8From (owed : Option Owed) : List UInt8 → List (Option Char)
  | [] => match owed with
    | none => []
    | some _ => [none]
  | b :: bs => (nextByte owed b.toNat).1 ++ utf8From (nextByte owed b.toNat).2 bs

def utf8? (bs : List UInt8) : Option (List Char) := (utf8From none bs).mapM id

/-- The text of the bytes with U+FFFD for each fault. -/
def utf8Lossy (bs : List UInt8) : String :=
  String.ofList ((utf8From none bs).map (·.getD '\uFFFD'))

def utf8 (s : String) : List UInt8 := s.toUTF8.toList

end PhasedLoad.Text
