import PhasedLoad.Yaml.Event
import PhasedLoad.Binary64

/-!
YAML documents as trees that stop where the text is no longer YAML, and what plain scalars mean.
-/

namespace PhasedLoad.Yaml

structure Scalar where
  text : String
  style : Style
  tag : Option String

inductive Node
  | broken
  /-- The document has no node. -/
  | void
  | scalar (s : Scalar)
  /-- Another name for the node that had this serial number when the document ended. -/
  | alias (serial : Nat)
  /-- Items up to the end of the sequence, or up to a mistake if not `closed`. -/
  | sequence (tag : Option String) (items : List Node) (closed : Bool)
  /-- Keys and values up to the end of the mapping, or up to a mistake if not `closed`. -/
  | mapping (tag : Option String) (entries : List (Node × Node)) (closed : Bool)

instance : Inhabited Node := ⟨.broken⟩

/-- A collection under way; its nodes last first. -/
structure OpenNode where
  isMapping : Bool
  tag : Option String
  /-- Its number among the nodes with an anchor. -/
  named : Option Nat
  nodes : List Node

/-- Keys with their values; a last key without value is kept with a broken one. -/
def pairs : List Node → List (Node × Node)
  | [] => []
  | [k] => [(k, .broken)]
  | k :: v :: rest => (k, v) :: pairs rest

def OpenNode.close (o : OpenNode) (closed : Bool) : Node :=
  if o.isMapping then .mapping o.tag (pairs o.nodes.reverse) closed
  else .sequence o.tag o.nodes.reverse closed

structure Builder where
  openNodes : List OpenNode
  root : Option Node
  /-- The slot of each name; a name given again gets a slot by the number of names. -/
  names : List (String × Nat)
  /-- The number of the named node in each slot, latest first. -/
  slots : List (Nat × Nat)
  /-- Named nodes by number. -/
  named : List (Nat × Node)
  /-- How many nodes had a name so far, and how many events were read. -/
  namedCount : Nat
  eventCount : Nat

namespace Builder

def empty : Builder := ⟨[], none, [], [], [], 0, 0⟩

/-- Registers a node that begins with the name `anchor`. -/
def name (b : Builder) (anchor : Option String) : Builder × Option Nat :=
  match anchor with
  | none => (b, none)
  | some a =>
    let slot := b.names.length
    let names := (a, slot) :: b.names.filter (·.1 != a)
    ({ b with names := names, slots := (slot, b.namedCount) :: b.slots,
              namedCount := b.namedCount + 1 }, some b.namedCount)

def add (b : Builder) (n : Node) (number : Option Nat) : Builder :=
  let b := match number with
    | some k => { b with named := (k, n) :: b.named }
    | none => b
  match b.openNodes with
  | o :: rest => { b with openNodes := { o with nodes := n :: o.nodes } :: rest }
  | [] => { b with root := some n }

def close (b : Builder) (closed : Bool) : Builder :=
  match b.openNodes with
  | o :: rest => { b with openNodes := rest }.add (o.close closed) o.named
  | [] => b

/-- Closes every open collection where the document breaks off. -/
def breakOff (b : Builder) : Nat → Builder
  | 0 => b
  | n + 1 => (b.close false).breakOff n

end Builder

structure Document where
  root : Node
  /-- The node of each slot that an alias may name. -/
  slots : List (Nat × Node)
  eventCount : Nat
  /-- Whether the document has an end. -/
  complete : Bool
  /-- Whether nothing follows it. -/
  alone : Bool

namespace Document

def finish (b : Builder) (complete alone : Bool) : Document :=
  let b := b.breakOff b.openNodes.length
  ⟨b.root.getD .broken, b.slots.filterMap fun (slot, k) => (b.named.lookup k).map (slot, ·),
    b.eventCount, complete, alone⟩

def ofEvents (b : Builder) : List Event → Document
  | [] => finish b false true
  | e :: rest =>
    match e with
    | .documentStart => ofEvents b rest
    | .documentEnd =>
      let alone := match rest with
        | [.streamEnd] => true
        | _ => false
      finish b true alone
    | .streamEnd => ⟨.void, [], 1, true, true⟩
    | .alias a => match b.names.lookup a with
      | none => finish b false true
      | some slot =>
        ofEvents ({ b with eventCount := b.eventCount + 1 }.add (.alias slot) none) rest
    | .scalar props text style =>
      let (b, k) := { b with eventCount := b.eventCount + 1 }.name props.anchor
      ofEvents (b.add (.scalar ⟨text, style, props.tag⟩) k) rest
    | .sequenceStart props =>
      let (b, k) := { b with eventCount := b.eventCount + 1 }.name props.anchor
      ofEvents { b with openNodes := ⟨false, props.tag, k, []⟩ :: b.openNodes } rest
    | .mappingStart props =>
      let (b, k) := { b with eventCount := b.eventCount + 1 }.name props.anchor
      ofEvents { b with openNodes := ⟨true, props.tag, k, []⟩ :: b.openNodes } rest
    | .sequenceEnd | .mappingEnd =>
      ofEvents ({ b with eventCount := b.eventCount + 1 }.close true) rest

def ofText (text : List Char) : Document := ofEvents .empty (Event.ofText text)

end Document

inductive Plain
  | null
  | bool (b : Bool)
  /-- Within the range of signed or unsigned numbers of 128 bits. -/
  | integer (n : Int)
  | float (x : Binary64)
  | text

/-- Digits only, with a needless zero in front. -/
def hasNeedlessZero (cs : List Char) : Bool :=
  let cs := match cs with
    | '-' :: rest => rest
    | '+' :: rest => rest
    | cs => cs
  match cs with
  | '0' :: rest => !rest.isEmpty && rest.all Text.isDigit
  | _ => false

def basedDigits : List Char → Nat × List Char
  | '0' :: 'x' :: cs => (16, cs)
  | '0' :: 'o' :: cs => (8, cs)
  | '0' :: 'b' :: cs => (2, cs)
  | cs => (10, cs)

/-- The whole number that a text writes, if it has at most 128 bits. -/
def integer? (cs : List Char) : Option Int :=
  if hasNeedlessZero cs then none
  else match cs with
    | '-' :: rest => do
      let (base, digits) := basedDigits rest
      let n ← Text.number? base digits
      if n ≤ 2 ^ 127 then some (-n) else none
    | _ => do
      let (base, digits) := basedDigits (match cs with
        | '+' :: rest => rest
        | cs => cs)
      let n ← Text.number? base digits
      if n < 2 ^ 128 then some n else none

def decimalParts? (cs : List Char) : Option (Bool × List Char × Int) := do
  let (negative, cs) := match cs with
    | '-' :: rest => (true, rest)
    | '+' :: rest => (false, rest)
    | cs => (false, cs)
  let (whole, rest) := cs.span Text.isDigit
  let (places, rest) := match rest with
    | '.' :: rest => rest.span Text.isDigit
    | rest => ([], rest)
  if whole.isEmpty ∧ places.isEmpty then none
  else
    let exponent ← match rest with
      | [] => some 0
      | c :: rest =>
        if c = 'e' ∨ c = 'E' then
          match rest with
          | '-' :: digits => (Text.number? 10 digits).map fun n => -(n : Int)
          | '+' :: digits => (Text.number? 10 digits).map fun n => (n : Int)
          | digits => (Text.number? 10 digits).map fun n => (n : Int)
        else none
    some (negative, whole ++ places, exponent - places.length)

/-- The finite floating-point number nearest to a decimal one. -/
def decimalFloat? (cs : List Char) : Option Binary64 := do
  let (negative, digits, exponent) ← decimalParts? cs
  let n := (Text.numberFrom 10 0 digits).getD 0
  let size : Int := (Text.decimal n).length + exponent
  let x :=
    if n = 0 ∨ size < -330 then Binary64.ofRatio negative 0 1
    else if size > 320 then Binary64.infinity
    else if exponent < 0 then Binary64.ofRatio negative n (10 ^ exponent.natAbs)
    else Binary64.ofRatio negative (n * 10 ^ exponent.toNat) 1
  if x.isFinite then some x else none

/-- The floating-point number that a text writes; the infinite ones and the one that is no number
have names. -/
def float? (cs : List Char) : Option Binary64 :=
  let s := String.ofList cs
  let unsigned := match cs with
    | '+' :: rest => rest
    | cs => cs
  if cs.head? = some '+' ∧ (unsigned.head? = some '+' ∨ unsigned.head? = some '-') then none
  else if [".inf", ".Inf", ".INF"].contains (String.ofList unsigned) then some Binary64.infinity
  else if ["-.inf", "-.Inf", "-.INF"].contains s then some Binary64.infinity.neg
  else if [".nan", ".NaN", ".NAN"].contains s then some Binary64.nan
  else decimalFloat? unsigned

def isNullText (s : String) : Bool := ["null", "Null", "NULL", "~"].contains s

def bool? (s : String) : Option Bool :=
  if ["true", "True", "TRUE"].contains s then some true
  else if ["false", "False", "FALSE"].contains s then some false
  else none

def Plain.ofText (s : String) : Plain :=
  if s = "" ∨ isNullText s then .null
  else match bool? s with
    | some b => .bool b
    | none => match integer? s.toList with
      | some n => .integer n
      | none =>
        if hasNeedlessZero s.toList then .text
        else match float? s.toList with
          | some x => .float x
          | none => .text

end PhasedLoad.Yaml
