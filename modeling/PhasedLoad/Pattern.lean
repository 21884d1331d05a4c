import PhasedLoad.Text.Blank

/-!
The order in which a plan's phases take turns.
-/

namespace PhasedLoad

inductive Pattern
  /-- Each phase uses up its repeats before the next one starts. -/
  | sequence
  /-- The phases take turns. -/
  | cycle
  /-- Each turn goes to any phase with repeats left, all alike. -/
  | random
deriving DecidableEq

namespace Pattern

instance : Inhabited Pattern := ⟨sequence⟩

def name : Pattern → String
  | sequence => "sequence"
  | cycle => "cycle"
  | random => "random"

def all : List Pattern := [sequence, cycle, random]

def ofName? (s : String) : Option Pattern := all.find? fun p => Text.sameLetters p.name s

/-- The pattern that a plan asks for. A plan that asks for none, or for one that is not known, has
its phases in sequence; the second part is the name that is not known. -/
def ofRequest (s : Option String) : Pattern × Option String :=
  match s with
  | none => (sequence, none)
  | some s =>
    let s := Text.trimmed s
    if s = "" then (sequence, none)
    else match ofName? s with
      | some p => (p, none)
      | none => (sequence, some s)

theorem ofName?_name (p : Pattern) : ofName? p.name = some p := by
  cases p <;> decide +kernel

end Pattern

end PhasedLoad
