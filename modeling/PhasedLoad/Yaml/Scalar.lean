import PhasedLoad.Yaml.Cursor
import PhasedLoad.Text.Utf8

/-!
The texts of YAML scalars: plain, quoted and block ones. Line breaks inside plain and quoted scalars
are folded: one break is a space, and of several all but the first are kept.
-/

namespace PhasedLoad.Yaml

/-- Breaks and blanks passed between two pieces of a scalar, last first. -/
structure Gap where
  blanks : List Char
  /-- The first break, if a line has ended; `some none` after an escaped one. -/
  first : Option (Option Char)
  others : List Char

def Gap.empty : Gap := ⟨[], none, []⟩

/-- What the gap contributes, last character first. -/
def Gap.folded (g : Gap) : List Char :=
  match g.first with
  | none => g.blanks
  | some (some '\n') => if g.others.isEmpty then [' '] else g.others
  | some (some c) => g.others ++ [c]
  | some none => g.others

def Gap.addBreak (g : Gap) (c : Char) : Gap :=
  match g.first with
  | none => ⟨[], some (some c), g.others⟩
  | some _ => { g with others := c :: g.others }

def Gap.addBlank (g : Gap) (c : Char) : Gap :=
  match g.first with
  | none => { g with blanks := c :: g.blanks }
  | some _ => g

def skipGap (g : Gap) (c : Cursor) : Nat → Gap × Cursor
  | 0 => (g, c)
  | fuel + 1 => match c.peek 0 with
    | some ch =>
      if isBlank ch then skipGap (g.addBlank ch) c.next fuel
      else if isBreak ch then skipGap (g.addBreak ch) c.next fuel
      else (g, c)
    | none => (g, c)

/-- A tab stands before column `indent` on a line after the first. -/
def tabInIndent (g : Gap) (c : Cursor) (indent : Int) : Nat → Bool
  | 0 => false
  | fuel + 1 => match c.peek 0 with
    | some ch =>
      if isBlank ch then
        (g.first.isSome && (c.column : Int) < indent && ch == '\t') ||
          tabInIndent (g.addBlank ch) c.next indent fuel
      else if isBreak ch then tabInIndent (g.addBreak ch) c.next indent fuel
      else false
    | none => false

inductive PlainPiece
  | mistake
  | piece (chars : List Char) (after : Cursor)

def isFlowMark (c : Char) : Bool := c == ',' || c == '[' || c == ']' || c == '\x7b' || c == '\x7d'

/-- Characters of a plain scalar up to a blank or a mark that ends it, last first. -/
def plainPiece (flow : Bool) (acc : List Char) (c : Cursor) : Nat → PlainPiece
  | 0 => .mistake
  | fuel + 1 => match c.peek 0 with
    | none => .piece acc c
    | some ch =>
      if isBlank ch || isBreak ch then .piece acc c
      else if ch == ':' && flow &&
          ((c.peek 1).any (fun d => isFlowMark d || d == '?')) then .mistake
      else if ch == ':' && c.blankAt 1 then .piece acc c
      else if flow && isFlowMark ch then .piece acc c
      else plainPiece flow (ch :: acc) c.next fuel

/-- A plain scalar with its characters last first, the cursor after it, and whether it ended with a
line. -/
def plainFrom (flow : Bool) (indent : Int) (acc : List Char) (g : Gap) (c : Cursor) :
    Nat → Option (List Char × Cursor × Bool)
  | 0 => none
  | fuel + 1 =>
    if c.atDocumentMark || c.at_ 0 '#' then some (acc, c, g.first.isSome)
    else match plainPiece flow [] c (c.rest.length + 1) with
      | .mistake => none
      | .piece [] after => some (acc, after, g.first.isSome)
      | .piece chars after =>
        let acc := chars ++ g.folded ++ acc
        if after.atEnd || !after.blankAt 0 then some (acc, after, false)
        else if tabInIndent Gap.empty after indent (after.rest.length + 1) then none
        else
          let (g, c) := skipGap Gap.empty after (after.rest.length + 1)
          if !flow && (c.column : Int) < indent then some (acc, c, g.first.isSome)
          else plainFrom flow indent acc g c fuel

def escapeOf? (c : Char) : Option Char :=
  match c with
  | '0' => some (Char.ofNat 0)
  | 'a' => some (Char.ofNat 7)
  | 'b' => some (Char.ofNat 8)
  | 't' | '\t' => some '\t'
  | 'n' => some '\n'
  | 'v' => some (Char.ofNat 11)
  | 'f' => some (Char.ofNat 12)
  | 'r' => some '\r'
  | 'e' => some (Char.ofNat 27)
  | ' ' => some ' '
  | '"' => some '"'
  | '/' => some '/'
  | '\\' => some '\\'
  | 'N' => some '\u0085'
  | '_' => some '\u00A0'
  | 'L' => some '\u2028'
  | 'P' => some '\u2029'
  | _ => none

def escapeDigits? (c : Char) : Option Nat :=
  match c with
  | 'x' => some 2
  | 'u' => some 4
  | 'U' => some 8
  | _ => none

/-- The character of an escape whose letter comes after the backslash here, and the cursor after
it. -/
def escape? (c : Cursor) : Option (Char × Cursor) := do
  let letter ← c.peek 1
  match escapeDigits? letter with
  | some n =>
    let digits := (c.rest.drop 2).take n
    let value ← if digits.length = n then Text.number? 16 digits else none
    if (0xD800 ≤ value ∧ value < 0xE000) ∨ 0x10FFFF < value then none
    else some (Char.ofNat value, c.skip (2 + n))
  | none => (escapeOf? letter).map fun ch => (ch, c.skip 2)

/-- Characters of a quoted scalar up to its quote or a blank, last first, and the gap that an
escaped break begins. -/
def quotedPiece (single : Bool) (acc : List Char) (c : Cursor) :
    Nat → Option (List Char × Gap × Cursor)
  | 0 => none
  | fuel + 1 => match c.peek 0 with
    | none => some (acc, Gap.empty, c)
    | some ch =>
      if isBlank ch || isBreak ch then some (acc, Gap.empty, c)
      else if single && ch == '\'' && c.at_ 1 '\'' then
        quotedPiece single ('\'' :: acc) (c.skip 2) fuel
      else if ch == (if single then '\'' else '"') then some (acc, Gap.empty, c)
      else if !single && ch == '\\' then
        if c.breakAt 1 then some (acc, { Gap.empty with first := some none }, c.skip 2)
        else do
          let (ch, c) ← escape? c
          quotedPiece single (ch :: acc) c fuel
      else quotedPiece single (ch :: acc) c.next fuel

/-- A quoted scalar after its opening quote: its characters last first, and the cursor after its
closing quote. -/
def quotedFrom (single : Bool) (acc : List Char) (c : Cursor) : Nat → Option (List Char × Cursor)
  | 0 => none
  | fuel + 1 =>
    if c.atDocumentMark || c.atEnd then none
    else do
      let (acc, g, c) ← quotedPiece single acc c (c.rest.length + 1)
      if c.at_ 0 (if single then '\'' else '"') then some (acc, c.next)
      else
        let (g, c) := skipGap g c (c.rest.length + 1)
        quotedFrom single (g.folded ++ acc) c fuel

inductive Chomping
  | clip | strip | keep

/-- The marks after the sign of a block scalar: an indentation and a chomping, in either order. -/
def blockHeader? (c : Cursor) : Option (Nat × Chomping × Cursor) :=
  let chomping (c : Cursor) : Option Chomping :=
    if c.at_ 0 '+' then some .keep else if c.at_ 0 '-' then some .strip else none
  let digit (c : Cursor) : Option Nat := ((c.peek 0).filter Text.isDigit).map Text.digitVal
  match chomping c with
  | some ch => match digit c.next with
    | some 0 => none
    | some n => some (n, ch, c.next.next)
    | none => some (0, ch, c.next)
  | none => match digit c with
    | some 0 => none
    | some n => match chomping c.next with
      | some ch => some (n, ch, c.next.next)
      | none => some (n, .clip, c.next)
    | none => some (0, .clip, c)

/-- Past indentation and empty lines, whose breaks are collected last first; also the widest
indentation seen. -/
def blockBreaks (indent : Nat) (widest : Nat) (breaks : List Char) (c : Cursor) :
    Nat → Option (Nat × List Char × Cursor)
  | 0 => none
  | fuel + 1 =>
    let limit := if indent = 0 then c.rest.length else indent - c.column
    let spaces := ((c.rest.take limit).takeWhile (· == ' ')).length
    let c := c.skip spaces
    let widest := max widest c.column
    if (indent = 0 ∨ c.column < indent) ∧ c.at_ 0 '\t' then none
    else match c.peek 0 with
      | some ch =>
        if isBreak ch then blockBreaks indent widest (ch :: breaks) c.next fuel
        else some (widest, breaks, c)
      | none => some (widest, breaks, c)

def blockLines (literal : Bool) (indent : Nat) (acc : List Char) (lead : Option Char)
    (trailing : List Char) (leadBlank : Bool) (c : Cursor) :
    Nat → Option (List Char × Option Char × List Char × Cursor)
  | 0 => none
  | fuel + 1 =>
    if c.column = indent ∧ !c.atEnd then do
      let blank := (c.peek 0).any isBlank
      let joined :=
        if !literal && lead == some '\n' && !leadBlank && !blank then
          if trailing.isEmpty then ' ' :: acc else acc
        else lead.toList ++ acc
      let acc := trailing ++ joined
      let line := c.takeWhile (fun ch => !isBreak ch)
      let after := c.skipWhile (fun ch => !isBreak ch)
      let lead := after.peek 0
      let (_, trailing, c) ← blockBreaks indent 0 [] after.next (after.rest.length + 2)
      blockLines literal indent (line.reverse ++ acc) lead trailing blank c fuel
    else some (acc, lead, trailing, c)

def blockScalar? (literal : Bool) (outer : Int) (c : Cursor) : Option (String × Cursor) := do
  let (increment, chomping, c) ← blockHeader? c
  let c ← c.endLine?
  let given := if increment = 0 then 0 else (max outer 0).toNat + increment
  let (widest, trailing, c) ← blockBreaks given 0 [] c (c.rest.length + 2)
  let indent := if given = 0 then max (max widest (outer + 1).toNat) 1 else given
  let (acc, lead, trailing, c) ←
    blockLines literal indent [] none trailing false c (c.rest.length + 2)
  let tail := match chomping with
    | .strip => []
    | .clip => lead.toList
    | .keep => trailing ++ lead.toList
  some (String.ofList (tail ++ acc).reverse, c)

end PhasedLoad.Yaml
