import PhasedLoad.Text.Split
import PhasedLoad.Text.Blank

/-!
Addresses as requests carry them, read strictly: nothing in them is mended, and what is asked for
goes out as it is written.
-/

namespace PhasedLoad.Http

open Text

structure Uri where
  /-- The address names a scheme, and not a host alone. -/
  isAbsolute : Bool
  /-- The path and the query. -/
  target : List Char
deriving DecidableEq

namespace Uri

def maxBytes : Nat := 65534

def isAuthorityChar (c : Char) : Bool :=
  c.isAlphanum || "!$&'()*+,-.:;=@[]_~%".toList.contains c

/-- What counts for one stretch of the authority, up to `@` or `]`. -/
structure Stretch where
  colons : Nat
  percent : Bool

inductive Brackets
  | none
  | opened
  | closed
deriving DecidableEq

/-- Checks the authority from a character on. A percent sign is for users alone, a stretch has at
most eight colons, and brackets open and close once. -/
def checkAuthority : Stretch → Brackets → List Char → Bool
  | s, b, [] => s.colons ≤ 1 && !s.percent && b ≠ .opened
  | s, b, c :: cs =>
    if c = ':' then s.colons < 8 && checkAuthority { s with colons := s.colons + 1 } b cs
    else if c = '[' then !s.percent && b == .none && checkAuthority s .opened cs
    else if c = ']' then b == .opened && checkAuthority ⟨0, false⟩ .closed cs
    else if c = '@' then checkAuthority ⟨0, false⟩ b cs
    else if c = '%' then checkAuthority { s with percent := true } b cs
    else isAuthorityChar c && checkAuthority s b cs

def isAuthority (cs : List Char) : Bool :=
  checkAuthority ⟨0, false⟩ .none cs && cs.getLast? ≠ some '@'

def isPathChar (c : Char) : Bool :=
  let n := c.toNat
  n = 0x21 || (0x24 ≤ n && n ≤ 0x3B) || n = 0x3D || (0x40 ≤ n && n ≤ 0x5F) ||
    (0x61 ≤ n && n ≤ 0x7A) || n = 0x7C || n = 0x7E || n ≥ 0x7F ||
    c = '"' || c = '\x7b' || c = '\x7d'

def isQueryChar (c : Char) : Bool :=
  let n := c.toNat
  n = 0x21 || (0x24 ≤ n && n ≤ 0x3B) || n = 0x3D || 0x3F ≤ n

/-- A path and a query without the fragment; the path begins with a slash. -/
def target? (cs : List Char) : Option (List Char) :=
  let cs := cs.takeWhile (· ≠ '#')
  let (path, query) := cs.span (· ≠ '?')
  if path.all isPathChar ∧ (query.drop 1).all isQueryChar then
    some (if cs.head? = some '/' then cs else '/' :: cs)
  else none

def endsAuthority (c : Char) : Bool := c = '/' || c = '?' || c = '#'

/-- The rest of the text after the scheme and its slashes, in letters of either case. -/
def afterScheme? (cs : List Char) : Option (List Char) :=
  if (cs.take 7).map Char.toLower = "http://".toList then some (cs.drop 7) else none

/-- The address that a text is, if it is one of the scheme `http` or a host alone. -/
def ofText? (text : String) : Option Uri :=
  if text.utf8ByteSize > maxBytes then none
  else match afterScheme? text.toList with
    | some cs =>
      let (authority, rest) := cs.span (!endsAuthority ·)
      if authority.isEmpty ∨ isAuthority authority = false then none
      else (target? rest).map (⟨true, ·⟩)
    | none =>
      if text.toList.all (!endsAuthority ·) ∧ isAuthority text.toList then some ⟨false, []⟩
      else none

end Uri

end PhasedLoad.Http
