import PhasedLoad.Json.Number

/-!
JSON texts as trees that stop where the text is no longer JSON. What stands before that place can
still be looked at in its order, so a reader that finds something else to reject earlier reports it
first.
-/

namespace PhasedLoad.Json

/-- What can be read from a place in a text. -/
inductive Tree
  /-- No value begins here, or the one that does is malformed. -/
  | broken
  | null
  | bool (b : Bool)
  | number (parts : NumberParts)
  /-- No text, if an escape stands for half a character. -/
  | string (s : Option String)
  /-- Items up to the closing bracket, or up to a mistake if not `closed`. -/
  | array (items : List Tree) (closed : Bool)
  /-- Members up to the closing brace, or up to a mistake if not `closed`. -/
  | object (members : List (Option String × Tree)) (closed : Bool)

instance : Inhabited Tree := ⟨.broken⟩

def isSpace (c : Char) : Bool := c == ' ' || c == '\n' || c == '\t' || c == '\r'

def skipSpace (cs : List Char) : List Char := cs.dropWhile isSpace

/-- The character with the code points of its two halves put together, where two halves meet. -/
def joinHalves : List Nat → Option (List Char)
  | [] => some []
  | n :: rest =>
    if 0xD800 ≤ n ∧ n < 0xDC00 then
      match rest with
      | m :: rest' =>
        if 0xDC00 ≤ m ∧ m < 0xE000 then
          (joinHalves rest').map (Char.ofNat (0x10000 + (n - 0xD800) * 0x400 + (m - 0xDC00)) :: ·)
        else none
      | [] => none
    else if 0xDC00 ≤ n ∧ n < 0xE000 then none
    else (joinHalves rest).map (Char.ofNat n :: ·)

def escapeOf? (c : Char) : Option Nat :=
  match c with
  | '"' => some 34
  | '\\' => some 92
  | '/' => some 47
  | 'b' => some 8
  | 'f' => some 12
  | 'n' => some 10
  | 'r' => some 13
  | 't' => some 9
  | _ => none

/-- The code points of a string and what follows its closing quote. -/
def readString : List Char → Option (List Nat × List Char)
  | [] => none
  | '"' :: rest => some ([], rest)
  | '\\' :: 'u' :: a :: b :: c :: d :: rest => do
    let n ← Text.number? 16 [a, b, c, d]
    let (ns, rest) ← readString rest
    some (n :: ns, rest)
  | '\\' :: c :: rest => do
    let n ← escapeOf? c
    let (ns, rest) ← readString rest
    some (n :: ns, rest)
  | c :: rest =>
    if c.toNat < 0x20 then none
    else do
      let (ns, rest) ← readString rest
      some (c.toNat :: ns, rest)

def spanDigits (cs : List Char) : List Char × List Char := cs.span Text.isDigit

def readExponent : List Char → Option (Option (Bool × List Char) × List Char)
  | c :: cs =>
    if c = 'e' ∨ c = 'E' then
      let (negative, cs) := match cs with
        | '+' :: cs => (false, cs)
        | '-' :: cs => (true, cs)
        | cs => (false, cs)
      let (digits, rest) := spanDigits cs
      if digits.isEmpty then none else some (some (negative, digits), rest)
    else some (none, c :: cs)
  | [] => some (none, [])

def readFraction : List Char → Option (Option (List Char) × List Char)
  | '.' :: cs =>
    let (digits, rest) := spanDigits cs
    if digits.isEmpty then none else some (some digits, rest)
  | cs => some (none, cs)

def readNumber (negative : Bool) (cs : List Char) : Option (NumberParts × List Char) := do
  let (whole, rest) := spanDigits cs
  if whole.isEmpty ∨ (whole.length > 1 ∧ whole.head? = some '0') then none
  else
    let (fraction, rest) ← readFraction rest
    let (exponent, rest) ← readExponent rest
    some (⟨negative, whole, fraction, exponent⟩, rest)

def afterWord? (word : List Char) (cs : List Char) : Option (List Char) :=
  if word.isPrefixOf cs then some (cs.drop word.length) else none

mutual

def readTree : Nat → List Char → Tree × Option (List Char)
  | 0, _ => (.broken, none)
  | fuel + 1, cs =>
    match skipSpace cs with
    | 'n' :: rest => word ['u', 'l', 'l'] .null rest
    | 't' :: rest => word ['r', 'u', 'e'] (.bool true) rest
    | 'f' :: rest => word ['a', 'l', 's', 'e'] (.bool false) rest
    | '"' :: rest => match readString rest with
      | some (ns, rest) => (.string ((joinHalves ns).map String.ofList), some rest)
      | none => (.broken, none)
    | '-' :: rest => number true rest
    | '[' :: rest =>
      let (items, after) := readItems fuel true (skipSpace rest)
      (.array items after.isSome, after)
    | '\x7b' :: rest =>
      let (members, after) := readMembers fuel true (skipSpace rest)
      (.object members after.isSome, after)
    | rest => number false rest
where
  word (more : List Char) (t : Tree) (rest : List Char) : Tree × Option (List Char) :=
    match afterWord? more rest with
    | some rest => (t, some rest)
    | none => (.broken, none)
  number (negative : Bool) (rest : List Char) : Tree × Option (List Char) :=
    match readNumber negative rest with
    | some (parts, rest) => (.number parts, some rest)
    | none => (.broken, none)

/-- Items up to the closing bracket; `first` before the first one. -/
def readItems : Nat → Bool → List Char → List Tree × Option (List Char)
  | 0, _, _ => ([], none)
  | fuel + 1, first, cs =>
    match cs with
    | ']' :: rest => ([], some rest)
    | _ =>
      let next := if first then some cs else match cs with
        | ',' :: rest => match skipSpace rest with
          | ']' :: _ => none
          | rest => some rest
        | _ => none
      match next with
      | none => ([], none)
      | some cs =>
        match readTree fuel cs with
        | (t, none) => ([t], none)
        | (t, some rest) =>
          let (ts, after) := readItems fuel false (skipSpace rest)
          (t :: ts, after)

def readMembers : Nat → Bool → List Char → List (Option String × Tree) × Option (List Char)
  | 0, _, _ => ([], none)
  | fuel + 1, first, cs =>
    match cs with
    | '\x7d' :: rest => ([], some rest)
    | _ =>
      let next := if first then some cs else match cs with
        | ',' :: rest => some (skipSpace rest)
        | _ => none
      match next with
      | some ('"' :: cs) => match readString cs with
        | none => ([], none)
        | some (ns, rest) =>
          let key := (joinHalves ns).map String.ofList
          match skipSpace rest with
          | ':' :: rest => match readTree fuel rest with
            | (t, none) => ([(key, t)], none)
            | (t, some rest) =>
              let (ms, after) := readMembers fuel false (skipSpace rest)
              ((key, t) :: ms, after)
          | _ => ([(key, .broken)], none)
      | _ => ([], none)

end

/-- A whole text: its tree, and whether nothing but blanks follows it. -/
structure Document where
  tree : Tree
  ended : Bool

def Document.read (text : List Char) : Document :=
  match readTree (text.length + 1) text with
  | (t, some rest) => ⟨t, (skipSpace rest).isEmpty⟩
  | (t, none) => ⟨t, false⟩

mutual

/-- Whether a tree has no mistake in it; numbers may have any size and strings half characters. -/
def Tree.wellFormed : Tree → Bool
  | .broken => false
  | .array items closed => wellFormedItems items && closed
  | .object members closed => wellFormedMembers members && closed
  | _ => true

def wellFormedItems : List Tree → Bool
  | [] => true
  | t :: ts => t.wellFormed && wellFormedItems ts

def wellFormedMembers : List (Option String × Tree) → Bool
  | [] => true
  | (_, t) :: ms => t.wellFormed && wellFormedMembers ms

end

/-- How many values may stand inside each other, plus one. -/
def depthLimit : Nat := 128

mutual

/-- The value of a tree in which fewer than `depth` values stand inside each other. -/
def Tree.value? (depth : Nat) : Tree → Option Json
  | .broken => none
  | .null => some .null
  | .bool b => some (.bool b)
  | .number parts => parts.value.map .number
  | .string s => s.map .string
  | .array items closed =>
    if depth ≤ 1 ∨ closed = false then none
    else (itemValues? (depth - 1) items).map .array
  | .object members closed =>
    if depth ≤ 1 ∨ closed = false then none
    else (memberValues? (depth - 1) members).map ofMembers

def itemValues? (depth : Nat) : List Tree → Option (List Json)
  | [] => some []
  | t :: ts => do
    let v ← t.value? depth
    let vs ← itemValues? depth ts
    some (v :: vs)

def memberValues? (depth : Nat) : List (Option String × Tree) → Option (List (String × Json))
  | [] => some []
  | (k, t) :: ms => do
    let k ← k
    let v ← t.value? depth
    let vs ← memberValues? depth ms
    some ((k, v) :: vs)

end

end PhasedLoad.Json
