import PhasedLoad.Text.Digits

/-!
A place in a YAML text: what follows it, and its line and column. Line breaks are made uniform
before anything is read, and a text with characters that YAML does not allow has no tokens at all.
-/

namespace PhasedLoad.Yaml

def isBlank (c : Char) : Bool := c == ' ' || c == '\t'

/-- Line breaks left after they were made uniform; the last two are kept in folded texts. -/
def isBreak (c : Char) : Bool := c == '\n' || c == '\u2028' || c == '\u2029'

def isWordChar (c : Char) : Bool := c.isAlphanum || c == '_' || c == '-'

/-- Carriage returns and next-line characters become line feeds. -/
def uniformBreaks : List Char → List Char
  | '\r' :: '\n' :: cs => '\n' :: uniformBreaks cs
  | '\r' :: cs => '\n' :: uniformBreaks cs
  | '\u0085' :: cs => '\n' :: uniformBreaks cs
  | c :: cs => c :: uniformBreaks cs
  | [] => []

def isAllowed (c : Char) : Bool :=
  let n := c.toNat
  n == 9 || n == 10 || n == 13 || (0x20 ≤ n && n ≤ 0x7E) || n == 0x85 || (0xA0 ≤ n && n ≤ 0xFFFD) ||
    0x10000 ≤ n

structure Cursor where
  rest : List Char
  index : Nat
  line : Nat
  column : Nat

namespace Cursor

def ofText (cs : List Char) : Cursor := ⟨cs, 0, 0, 0⟩

def atEnd (c : Cursor) : Bool := c.rest.isEmpty

def peek (c : Cursor) (n : Nat) : Option Char := (c.rest.drop n).head?

def at_ (c : Cursor) (n : Nat) (ch : Char) : Bool := c.peek n == some ch

/-- Nothing, a blank or a line break is `n` places on. -/
def blankAt (c : Cursor) (n : Nat) : Bool :=
  match c.peek n with
  | none => true
  | some ch => isBlank ch || isBreak ch

def breakAt (c : Cursor) (n : Nat) : Bool :=
  match c.peek n with
  | none => false
  | some ch => isBreak ch

def next (c : Cursor) : Cursor :=
  match c.rest with
  | [] => c
  | ch :: rest =>
    if isBreak ch then ⟨rest, c.index + 1, c.line + 1, 0⟩
    else ⟨rest, c.index + 1, c.line, c.column + 1⟩

def skip (c : Cursor) : Nat → Cursor
  | 0 => c
  | n + 1 => c.next.skip n

def skipWhile (c : Cursor) (p : Char → Bool) : Cursor :=
  let run := c.rest.takeWhile p
  ⟨c.rest.drop run.length, c.index + run.length, c.line, c.column + run.length⟩

def takeWhile (c : Cursor) (p : Char → Bool) : List Char := c.rest.takeWhile p

/-- Past blanks, a comment and the end of the line, if nothing else is on it. -/
def endLine? (c : Cursor) : Option Cursor :=
  let c := c.skipWhile isBlank
  let c := if c.at_ 0 '#' then c.skipWhile (fun ch => !isBreak ch) else c
  if c.atEnd then some c
  else if c.breakAt 0 then some c.next
  else none

def atDocumentMark (c : Cursor) : Bool :=
  c.column == 0 && c.blankAt 3 &&
    ((c.at_ 0 '-' && c.at_ 1 '-' && c.at_ 2 '-') || (c.at_ 0 '.' && c.at_ 1 '.' && c.at_ 2 '.'))

end Cursor

end PhasedLoad.Yaml
