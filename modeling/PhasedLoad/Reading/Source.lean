import PhasedLoad.Json.Tree
import PhasedLoad.Reading.Fault
import PhasedLoad.Yaml.Node

/-!
Texts of either format as trees of one kind, in which each scalar says how it reads in each kind of
place. Where a text breaks off, so does its tree.
-/

namespace PhasedLoad.Reading

/-- How a scalar reads in each kind of place. -/
structure Scalar where
  /-- Nothing at all stands here. -/
  isEmpty : Bool
  /-- Where a value may be missing: whether it is. -/
  isMissing : Except Fault Bool
  /-- Where something else than a scalar is expected. -/
  plain : Except Fault Atom
  /-- Where any value may stand. -/
  any : Except Fault Atom
  /-- Where a text is expected. -/
  text : Except Fault String
  /-- Where a whole number below `2 ^ 64` is expected, and how that is called. -/
  unsigned : Expected → Except Fault Nat

inductive Source
  | broken
  /-- A value that lies too deep to be read, and whether it can be skipped. -/
  | unread (sound : Bool)
  | scalar (s : Scalar)
  | sequence (tagged : Bool) (items : List Source) (closed : Bool)
  | mapping (tagged : Bool) (entries : List (Source × Source)) (closed : Bool)

instance : Inhabited Source := ⟨.broken⟩

namespace Source

mutual

/-- Whether the text can be skipped to the end of this value. -/
def sound : Source → Bool
  | broken => false
  | unread sound => sound
  | scalar _ => true
  | sequence _ items closed => soundAll items && closed
  | mapping _ entries closed => soundEntries entries && closed

def soundAll : List Source → Bool
  | [] => true
  | s :: ss => s.sound && soundAll ss

def soundEntries : List (Source × Source) → Bool
  | [] => true
  | (k, v) :: es => k.sound && v.sound && soundEntries es

end

end Source

def Atom.ofNumber : Json.Number → Atom
  | .whole n => .integer n
  | .float x => .float x

namespace Scalar

def unsignedOf (expected : Expected) : Atom → Except Fault Nat
  | .integer n =>
    if n < 0 then .error (.wrongValue (.atom (.integer n)) expected) else .ok n.toNat
  | a => .error (.wrongType (.atom a) expected)

def ofAtom (a : Atom) : Scalar :=
  { isEmpty := false
    isMissing := .ok (match a with
      | .null => true
      | _ => false)
    plain := .ok a
    any := .ok a
    text := match a with
      | .string s => .ok s
      | a => .error (.wrongType (.atom a) .string)
    unsigned := fun expected => unsignedOf expected a }

def valueless : Scalar :=
  ⟨false, .error .malformed, .error .malformed, .error .malformed, .error .malformed,
    fun _ => .error .malformed⟩

def ofAtom? : Option Atom → Scalar
  | some a => ofAtom a
  | none => valueless

end Scalar

namespace Source

mutual

/-- A tree of JSON in which fewer than `depth` values stand inside each other. -/
def ofJson (depth : Nat) : Json.Tree → Source
  | .broken => .broken
  | .null => .scalar (.ofAtom .null)
  | .bool b => .scalar (.ofAtom (.bool b))
  | .number parts => .scalar (.ofAtom? (parts.value.map Atom.ofNumber))
  | .string s => .scalar (.ofAtom? (s.map Atom.string))
  | .array items closed =>
    if depth ≤ 1 then .unread ((Json.Tree.array items closed).wellFormed)
    else .sequence false (ofJsonItems (depth - 1) items) closed
  | .object members closed =>
    if depth ≤ 1 then .unread ((Json.Tree.object members closed).wellFormed)
    else .mapping false (ofJsonMembers (depth - 1) members) closed

def ofJsonItems (depth : Nat) : List Json.Tree → List Source
  | [] => []
  | t :: ts => ofJson depth t :: ofJsonItems depth ts

def ofJsonMembers (depth : Nat) : List (Option String × Json.Tree) → List (Source × Source)
  | [] => []
  | (k, t) :: ms =>
    (.scalar (.ofAtom? (k.map Atom.string)), ofJson depth t) :: ofJsonMembers depth ms

end

end Source

namespace Scalar

open Yaml

def integerAtom (n : Int) : Atom :=
  if -2 ^ 63 ≤ n ∧ n < 2 ^ 64 then .integer n else .wide n

def plainAtom (s : String) : Atom :=
  match Plain.ofText s with
  | .null => .null
  | .bool b => .bool b
  | .integer n => integerAtom n
  | .float x => .float x
  | .text => .string s

def typeTag (name : String) : String := "tag:yaml.org,2002:" ++ name

/-- A scalar that was told to be of the type that `read` reads. -/
def told (s : String) (expected : Expected) (read : Option Atom) : Except Fault Atom :=
  match read with
  | some a => .ok a
  | none => .error (.wrongValue (.atom (.string s)) expected)

/-- The tag is one that the document makes up for itself. -/
def isOwnTag (tag : Option String) : Bool :=
  match tag with
  | some t => t.toList.head? = some '!'
  | none => false

def yamlAtom (s : Yaml.Scalar) : Except Fault Atom :=
  match s.tag with
  | none => .ok (if s.style = .plain then plainAtom s.text else .string s.text)
  | some tag =>
    if tag = typeTag "bool" then told s.text .bool ((bool? s.text).map .bool)
    else if tag = typeTag "int" then told s.text .integer ((integer? s.text.toList).map integerAtom)
    else if tag = typeTag "float" then told s.text .float ((float? s.text.toList).map .float)
    else if tag = typeTag "null" then
      told s.text .null (if isNullText s.text then some .null else none)
    else if isOwnTag (some tag) ∧ s.style = .plain then .ok (plainAtom s.text)
    else .ok (.string s.text)

/-- A scalar that may be missing is missing if it is empty or null, unless a tag says otherwise. -/
def yamlMissing (s : Yaml.Scalar) : Except Fault Bool :=
  if s.style ≠ .plain then .ok false
  else match s.tag with
    | none => .ok (s.text = "" ∨ isNullText s.text)
    | some tag =>
      if tag = typeTag "null" then
        if isNullText s.text then .ok true
        else .error (.wrongValue (.atom (.string s.text)) .null)
      else .ok false

/-- A scalar where a whole number below `2 ^ 64` is expected: it has no minus sign, and is plain or
told to be a number. -/
def yamlUnsigned (s : Yaml.Scalar) (expected : Expected) : Except Fault Nat :=
  let other : Except Fault Nat :=
    (yamlAtom s).bind fun a => .error (.wrongType (.atom a) expected)
  if s.style = .plain ∨ (s.style = .literal ∧ s.tag = some (typeTag "int")) then
    match integer? s.text.toList with
    | some n =>
      if 0 ≤ n ∧ n < 2 ^ 64 ∧ s.text.toList.head? ≠ some '-' then .ok n.toNat else other
    | none => other
  else other

def ofYaml (s : Yaml.Scalar) : Scalar :=
  { isEmpty := s.text = "" ∧ s.style = .plain
    isMissing := yamlMissing s
    plain := yamlAtom s
    any := if isOwnTag s.tag then .ok .tagged else yamlAtom s
    text := .ok s.text
    unsigned := yamlUnsigned s }

end Scalar

namespace Source

/-- The node that a name stands for, and how many names may still be followed. -/
def resolve (slots : List (Nat × Yaml.Node)) (jumps : Nat) : Yaml.Node → Option Yaml.Node × Nat
  | .alias slot => if jumps = 0 then (none, 0) else (slots.lookup slot, jumps - 1)
  | n => (some n, jumps)

/-- A tree of YAML in which at most `depth` values stand inside each other, and how many names may
still be followed after it. -/
def ofYaml (slots : List (Nat × Yaml.Node)) : Nat → Yaml.Node → StateM Nat Source
  | depth, n => do
    let (n, jumps) := resolve slots (← get) n
    set jumps
    match n, depth with
    | some (.scalar s), _ => return .scalar (.ofYaml s)
    | some .void, _ => return .scalar (.ofYaml ⟨"", .plain, none⟩)
    | some .broken, _ => return .broken
    | some (.sequence tag items closed), depth + 1 =>
      return .sequence (Scalar.isOwnTag tag) (← items.mapM (ofYaml slots depth)) closed
    | some (.mapping tag entries closed), depth + 1 =>
      return .mapping (Scalar.isOwnTag tag)
        (← entries.mapM fun (k, v) =>
          return (← ofYaml slots depth k, ← ofYaml slots depth v)) closed
    | _, _ => return .unread true

def yamlDepth : Nat := 128

/-- How many names may be followed for each event of a document. -/
def jumpsPerEvent : Nat := 100

def ofDocument (d : Yaml.Document) : Source :=
  (ofYaml d.slots yamlDepth d.root (d.eventCount * jumpsPerEvent)).1

end Source

end PhasedLoad.Reading
