import PhasedLoad.Text.Blank
import PhasedLoad.Text.Digits
import PhasedLoad.Text.Split
import PhasedLoad.Text.Utf8

/-!
Hosts of addresses: names, and numbers of version 4 and 6, each with one written form.
-/

namespace PhasedLoad.Http

open Text

/-- How names on the network are written in ASCII, if they are names. The tables of Unicode decide
that, and they are not at hand here. -/
abbrev Naming := List Char → Option (List Char)

/-- The naming in which a name in ASCII stands for itself, in lower case, unless a part of it stands
for other characters; it knows no more names. -/
def Naming.plain : Naming := fun cs =>
  let name := cs.map Char.toLower
  if name.all (·.toNat < 0x80) ∧ (splitAll '.' name).all (!"xn--".toList.isPrefixOf ·) then
    some name
  else none

inductive Host
  | name (cs : List Char)
  | ipv4 (n : Nat)
  /-- Eight groups of sixteen bits. -/
  | ipv6 (groups : List Nat)
deriving DecidableEq

namespace Host

/-- A part of a version 4 address: decimal, octal after `0`, or hexadecimal after `0x`. -/
def partValue? : List Char → Option Nat
  | [] => none
  | '0' :: 'x' :: cs => numberFrom 16 0 cs
  | '0' :: 'X' :: cs => numberFrom 16 0 cs
  | '0' :: cs => numberFrom 8 0 cs
  | cs => numberFrom 10 0 cs

/-- The last part of a name that may end in a point. -/
def lastPart? (cs : List Char) : Option (List Char) :=
  match (splitAll '.' cs).reverse with
  | [] :: part :: _ => some part
  | [] :: [] => none
  | part :: _ => some part
  | [] => none

/-- A name that ends in a number has to be an address. -/
def endsInNumber (cs : List Char) : Bool :=
  (lastPart? cs).any fun part =>
    (!part.isEmpty && part.all isDigit) || (partValue? part).isSome

/-- The address of up to four parts, the last of which stands for all that are left out. -/
def ipv4? (cs : List Char) : Option Nat := do
  let parts := splitAll '.' cs
  let parts := if parts.getLast? = some [] then parts.dropLast else parts
  if parts.length > 4 then none
  else
    let values ← parts.mapM partValue?
    let last ← values.getLast?
    let firsts := values.dropLast
    if firsts.any (· > 255) ∨ last ≥ 256 ^ (4 - firsts.length) then none
    else some (firsts.foldl (fun n v => n * 256 + v) 0 * 256 ^ (4 - firsts.length) + last)

def octet? (cs : List Char) : Option Nat := do
  let n ← number? 10 cs
  if n ≤ 255 ∧ (cs.length = 1 ∨ cs.head? ≠ some '0') then some n else none

def dottedGroups? (cs : List Char) : Option (List Nat) :=
  match (splitAll '.' cs).mapM octet? with
  | some [a, b, c, d] => some [a * 256 + b, c * 256 + d]
  | _ => none

def group? (cs : List Char) : Option Nat := if cs.length ≤ 4 then number? 16 cs else none

/-- Groups of which only the last, and that only at the end of an address, may be dotted. -/
def groups? (atEnd : Bool) : List (List Char) → Option (List Nat)
  | [] => some []
  | [part] => if atEnd ∧ part.contains '.' then dottedGroups? part
      else (group? part).map ([·])
  | part :: parts => do
    let g ← group? part
    let gs ← groups? atEnd parts
    some (g :: gs)

def groupsOf? (atEnd : Bool) (cs : List Char) : Option (List Nat) :=
  if cs.isEmpty then some [] else groups? atEnd (splitAll ':' cs)

def cutGap? : List Char → Option (List Char × List Char)
  | ':' :: ':' :: cs => some ([], cs)
  | c :: cs => (cutGap? cs).map fun (a, b) => (c :: a, b)
  | [] => none

/-- Eight groups, of which `::` stands for one or more that are zero. -/
def ipv6? (cs : List Char) : Option (List Nat) :=
  match cutGap? cs with
  | none => do
    let gs ← groupsOf? true cs
    if gs.length = 8 then some gs else none
  | some (front, back) => do
    let a ← groupsOf? false front
    let b ← groupsOf? true back
    if a.length + b.length ≤ 7 then
      some (a ++ List.replicate (8 - a.length - b.length) 0 ++ b)
    else none

def percentDecoded : List Char → List UInt8
  | '%' :: a :: b :: cs =>
    match digit? 16 a, digit? 16 b with
    | some x, some y => UInt8.ofNat (x * 16 + y) :: percentDecoded cs
    | _, _ => utf8 "%" ++ percentDecoded (a :: b :: cs)
  | c :: cs => utf8 (String.singleton c) ++ percentDecoded cs
  | [] => []

def isForbidden (c : Char) : Bool :=
  c.toNat = 0 || "\t\n\r #/:<>?@[\\]^|".toList.contains c

def isForbiddenInDomain (c : Char) : Bool :=
  isForbidden c || c.toNat < 0x20 || c = '%' || c.toNat = 0x7F

def bracketed? : List Char → Option Host
  | '[' :: cs =>
    match cs.reverse with
    | ']' :: inner => (ipv6? inner.reverse).map ipv6
    | _ => none
  | _ => none

def ofDomain? (naming : Naming) (cs : List Char) : Option Host :=
  if cs.head? = some '[' then bracketed? cs
  else do
    let name ← naming (← utf8? (percentDecoded cs))
    if name.isEmpty ∨ name.any isForbiddenInDomain then none
    else if endsInNumber name then (ipv4? name).map ipv4
    else some (.name name)

/-- The host of an address of some other kind, which is not looked into. -/
def ofOpaque? (cs : List Char) : Option Host :=
  if cs.head? = some '[' then bracketed? cs
  else if cs.any isForbidden then none else some (.name cs)

def dotted (n : Nat) : List Char :=
  decimal (n / 256 ^ 3) ++ '.' :: decimal (n / 256 ^ 2 % 256) ++ '.' ::
    decimal (n / 256 % 256) ++ '.' :: decimal (n % 256)

def zeros (gs : List Nat) : Nat := (gs.takeWhile (· == 0)).length

/-- The place and length of the first longest run of zeros, after `place` groups. -/
def longestZeros (place : Nat) : List Nat → Nat × Nat
  | [] => (place, 0)
  | g :: gs =>
    let here := zeros (g :: gs)
    let later := longestZeros (place + 1) gs
    if later.2 ≤ here then (place, here) else later

def joined (gs : List Nat) : List Char := [':'].intercalate (gs.map hex)

/-- The groups in hexadecimal, with `::` for the first longest run of two zeros or more. -/
def compressed (gs : List Nat) : List Char :=
  let (place, length) := longestZeros 0 gs
  if length < 2 then joined gs
  else joined (gs.take place) ++ [':', ':'] ++ joined (gs.drop (place + length))

def chars : Host → List Char
  | name cs => cs
  | ipv4 n => dotted n
  | ipv6 gs => '[' :: compressed gs ++ [']']

def loopback : Host := ipv4 (127 * 256 ^ 3 + 1)

end Host

end PhasedLoad.Http
