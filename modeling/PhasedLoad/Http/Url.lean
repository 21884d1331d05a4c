import PhasedLoad.Http.Host

/-!
Addresses as browsers read them: blanks around them and line breaks in them do not matter, and on
the network a backslash is as good as a slash. Of an address, only the scheme, the host and the port
are kept.
-/

namespace PhasedLoad.Http

open Text

inductive Url.Kind
  /-- On the network, with the port that goes without saying. -/
  | network (port : Nat)
  | file
  | other
deriving DecidableEq

def Url.Kind.ofScheme (scheme : List Char) : Url.Kind :=
  match String.ofList scheme with
  | "http" | "ws" => .network 80
  | "https" | "wss" => .network 443
  | "ftp" => .network 21
  | "file" => .file
  | _ => .other

structure Url where
  /-- In lower case. -/
  scheme : List Char
  host : Option Host
  /-- If it is not the one that goes without saying. -/
  port : Option Nat
deriving DecidableEq

namespace Url

def isEdge (c : Char) : Bool := c.toNat ≤ 0x20

def isDropped (c : Char) : Bool := c = '\t' || c = '\n' || c = '\r'

def cleaned (cs : List Char) : List Char :=
  (((cs.dropWhile isEdge).reverse.dropWhile isEdge).reverse).filter (!isDropped ·)

def isSchemeChar (c : Char) : Bool := c.isAlphanum || c = '+' || c = '-' || c = '.'

def scheme? (cs : List Char) : Option (List Char × List Char) :=
  if (cs.head?.any Char.isAlpha) then
    match cs.span isSchemeChar with
    | (scheme, ':' :: rest) => some (scheme.map Char.toLower, rest)
    | _ => none
  else none

/-- A character that separates the parts of a path; `network` if a backslash does so too. -/
def isSlash (network : Bool) (c : Char) : Bool := c = '/' || (network && c = '\\')

def endsAuthority (network : Bool) (c : Char) : Bool := isSlash network c || c = '?' || c = '#'

/-- Where the host ends and the port begins: at a colon outside brackets. -/
def spanHost (inBrackets : Bool) : List Char → List Char × List Char
  | [] => ([], [])
  | c :: cs =>
    if c = ':' ∧ ¬ inBrackets then ([], c :: cs)
    else
      let (host, rest) :=
        spanHost (if c = '[' then true else if c = ']' then false else inBrackets) cs
      (c :: host, rest)

def port? (cs : List Char) : Option (Option Nat) :=
  if cs.isEmpty then some none
  else if cs.all isDigit then
    (numberFrom 10 0 cs).bind fun n => if n < 2 ^ 16 then some (some n) else none
  else none

/-- The user named before the last `@`, and what follows it. -/
def splitUser (cs : List Char) : Option (List Char) × List Char :=
  match cutLast? '@' cs with
  | some (user, rest) => (some user, rest)
  | none => (none, cs)

def ofAuthority? (naming : Naming) (scheme : List Char) (network : Option Nat)
    (authority : List Char) (ended : Bool) : Option Url :=
  let (user, place) := splitUser authority
  let (host, port) := spanHost false place
  if user = some [] ∧ place.isEmpty ∧ ended then none
  else do
    let port ← match port with
      | _ :: cs => port? cs
      | [] => some none
    match network with
    | some usual =>
      if host.isEmpty then none
      else some ⟨scheme, some (← Host.ofDomain? naming host), port.filter (· ≠ usual)⟩
    | none =>
      if host.isEmpty then
        if place.isEmpty ∧ user.all (fun u => u.isEmpty || u = [':']) then
          some ⟨scheme, none, none⟩
        else none
      else some ⟨scheme, some (← Host.ofOpaque? host), port⟩

/-- A drive, which is no host though it stands in its place. -/
def isDrive : List Char → Bool
  | [c, d] => c.isAlpha && (d = ':' || d = '|')
  | _ => false

def fileHost? (naming : Naming) (cs : List Char) : Option (Option Host) :=
  let host := cs.takeWhile (!endsAuthority true ·)
  if host.isEmpty ∨ isDrive host then some none
  else (Host.ofDomain? naming host).map fun h => if h = .name "localhost".toList then none else some h

/-- The address that a text is, if it is a whole one. -/
def ofText? (naming : Naming) (text : String) : Option Url := do
  let (scheme, rest) ← scheme? (cleaned text.toList)
  match Kind.ofScheme scheme with
  | .network usual =>
    let (authority, path) := (rest.dropWhile (isSlash true)).span (!endsAuthority true ·)
    ofAuthority? naming scheme (some usual) authority (!path.isEmpty)
  | .file => match rest with
    | a :: b :: cs =>
      if isSlash true a ∧ isSlash true b then some ⟨scheme, ← fileHost? naming cs, none⟩
      else some ⟨scheme, none, none⟩
    | _ => some ⟨scheme, none, none⟩
  | .other => match rest with
    | '/' :: '/' :: cs =>
      let (authority, path) := cs.span (!endsAuthority false ·)
      ofAuthority? naming scheme none authority (!path.isEmpty)
    | _ => some ⟨scheme, none, none⟩

def isHttp (u : Url) : Bool := u.scheme = "http".toList

/-- The host as requests name it, with its port unless that goes without saying. -/
def hostField (u : Url) : Option String :=
  u.host.map fun h => String.ofList (h.chars ++ match u.port with
    | some p => if p = 80 then [] else ':' :: decimal p
    | none => [])

/-- Where requests go: an HTTP port goes without saying. -/
def destination? (u : Url) : Option (Host × Nat) := u.host.map (·, u.port.getD 80)

end Url

end PhasedLoad.Http
