import PhasedLoad.Reading.Source

/-!
Values read from trees, first fault first.
-/

namespace PhasedLoad.Reading

abbrev Decoder (α : Type) := Source → Except Fault α

/-- What a tree is where something else is expected; a text that breaks off there is malformed. -/
def wrongType {α : Type} (expected : Expected) : Decoder α
  | .broken | .unread _ => .error .malformed
  | .scalar s => s.plain.bind fun a => .error (.wrongType (.atom a) expected)
  | .sequence .. => .error (.wrongType .sequence expected)
  | .mapping .. => .error (.wrongType .mapping expected)

def string : Decoder String
  | .scalar s => s.text
  | src => wrongType .string src

def fieldName : Decoder String
  | .scalar s => s.text
  | src => wrongType .field src

def unsigned (expected : Expected) (most : Nat) : Decoder Nat
  | .scalar s => do
    let n ← s.unsigned expected
    if n ≤ most then return n else .error (.wrongValue (.atom (.integer n)) expected)
  | src => wrongType expected src

def optional {α : Type} (value : Decoder α) : Decoder (Option α)
  | .scalar s => do
    if ← s.isMissing then return none else return some (← value (.scalar s))
  | src => some <$> value src

/-- A length of time in nanoseconds, given as a floating-point number. -/
def ofFloatNanos (x : Binary64) : Except Fault Duration :=
  if ¬ x.isFinite ∨ (x.isNegative ∧ ¬ x.isZero) then .error .unusableDuration
  else match Duration.ofNanos? ((x.div (Binary64.ofNat (10 ^ 9))).roundTimes (10 ^ 9)) with
    | some d => .ok d
    | none => .error .longDuration

def ofDurationText (s : String) : Except Fault Duration :=
  let cs := Text.trim s.toList
  match Text.unsigned64? cs with
  | some n => .ok (.ofNanos n)
  | none => (Duration.ofSpan cs).mapError .span

/-- A length of time as a number of nanoseconds or a text; none is zero. -/
def duration : Decoder Duration
  | .scalar s => do
    match ← s.any with
    | .null => return .zero
    | .integer n => if n < 0 then .error .negativeDuration else return .ofNanos n.toNat
    | .float x => ofFloatNanos x
    | .string s => ofDurationText s
    | a => .error (.wrongType (.atom a) .duration)
  | .sequence true .. | .mapping true .. => .error (.wrongType (.atom .tagged) .duration)
  | src => wrongType .duration src

def ofAtom : Atom → Except Fault Json
  | .null => .ok .null
  | .bool b => .ok (.bool b)
  | .integer n => .ok (.number (.whole n))
  | .wide _ => .error .malformed
  | .float x => .ok (if x.isFinite then .number (.float x) else .null)
  | .string s => .ok (.string s)
  | .tagged => .error (.wrongType (.atom .tagged) .payload)

def memberName (first : Bool) : Decoder String
  | .scalar s => s.text
  | src => wrongType (if first then .key else .string) src

mutual

def payload : Decoder Json
  | .broken | .unread _ => .error .malformed
  | .scalar s => s.any.bind ofAtom
  | .sequence true .. | .mapping true .. => .error (.wrongType (.atom .tagged) .payload)
  | .sequence false items closed => do
    let items ← payloads items
    if closed then return .array items else .error .malformed
  | .mapping false entries closed => do
    let members ← payloadMembers true entries
    if closed then return .ofMembers members else .error .malformed

def payloads : List Source → Except Fault (List Json)
  | [] => .ok []
  | s :: ss => do
    let v ← payload s
    let vs ← payloads ss
    return v :: vs

def payloadMembers (first : Bool) : List (Source × Source) → Except Fault (List (String × Json))
  | [] => .ok []
  | (k, s) :: es => do
    let k ← memberName first k
    let v ← payload s
    let ms ← payloadMembers false es
    return (k, v) :: ms

end

structure Field (α : Type) where
  name : String
  set : α → Decoder α

def Field.of {α β : Type} (name : String) (decode : Decoder β) (set : α → β → α) : Field α :=
  ⟨name, fun r src => set r <$> decode src⟩

structure Record (α : Type) where
  name : String
  fields : List (Field α)
  /-- The record without any member. -/
  start : α
  /-- Whether members that are no fields are refused. -/
  strict : Bool

namespace Record

variable {α : Type}

/-- Members in any order, those in `seen` having been read before. -/
def members (rec : Record α) : List String → List (Source × Source) → α → Except Fault α
  | _, [], r => .ok r
  | seen, (k, v) :: es, r => do
    let name ← fieldName k
    match rec.fields.find? (·.name = name) with
    | some f =>
      if seen.contains name then .error (.duplicateField name)
      else rec.members (name :: seen) es (← f.set r v)
    | none =>
      if rec.strict then .error (.unknownField name (rec.fields.map (·.name)))
      else if v.sound then rec.members seen es r
      else .error .malformed

def inOrder : List (Field α) → List Source → α → Except Fault α
  | _, [], r => .ok r
  | [], _ :: _, _ => .error .malformed
  | f :: fs, v :: vs, r => do inOrder fs vs (← f.set r v)

/-- A record of members; in JSON it may also be a list of its fields, in YAML it may be empty. -/
def decode (rec : Record α) (format : Format) : Decoder α
  | .mapping _ entries closed => do
    let r ← rec.members [] entries rec.start
    if closed then return r else .error .malformed
  | .sequence tagged items closed => match format with
    | .json => do
      let r ← inOrder rec.fields items rec.start
      if closed then return r else .error .malformed
    | .yaml => wrongType (.record rec.name) (.sequence tagged items closed)
  | .scalar s => if s.isEmpty then .ok rec.start else wrongType (.record rec.name) (.scalar s)
  | src => wrongType (.record rec.name) src

end Record

/-- A list, which may be empty in YAML. -/
def list {α : Type} (item : Decoder α) : Decoder (List α)
  | .sequence _ items closed => do
    let items ← items.mapM item
    if closed then return items else .error .malformed
  | .scalar s => if s.isEmpty then .ok [] else wrongType .list (.scalar s)
  | src => wrongType .list src

def presentPayload : Decoder (Option Json) := fun src =>
  (fun v => v.filter fun v => !v.isNull) <$> optional payload src

end PhasedLoad.Reading
