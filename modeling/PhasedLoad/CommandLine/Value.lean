import PhasedLoad.Duration.Span
import PhasedLoad.Pattern
import PhasedLoad.Text.Split

/-!
The values of options, read from their texts, and what is said about those that are none.
-/

namespace PhasedLoad.CommandLine.Value

def lengthExamples : String := " (expected e.g. 10s, 250ms, 1m)"

def length (s : String) : Except String Duration :=
  let cs := Text.trim s.toList
  if cs.isEmpty then .error ("duration cannot be empty" ++ lengthExamples)
  else match Duration.ofSpan cs with
    | .ok d => .ok d
    | .error f =>
      .error ("invalid duration '" ++ String.ofList cs ++ "': " ++ f.message ++ lengthExamples)

def pattern (s : String) : Except String Pattern :=
  match Pattern.ofName? (Text.trimmed s) with
  | some p => .ok p
  | none =>
    .error ("invalid phase pattern '" ++ s ++ "' (expected sequence, cycle, or random)")

/-- A header: its name before the first colon, its value behind it. -/
def header (s : String) : Except String (String × String) :=
  match Text.cut? ':' s.toList with
  | none => .error ("invalid header '" ++ s ++ "' (expected KEY:VALUE)")
  | some (name, value) =>
    if (Text.trim name).isEmpty then .error ("invalid header '" ++ s ++ "': empty name")
    else .ok (String.ofList (Text.trim name), String.ofList (Text.trim value))

def integer (s : String) : Except String Int :=
  (Text.signed (2 ^ 63) (2 ^ 63 - 1) s.toList).mapError (·.message)

def upTo (most : Nat) (s : String) : Except String Nat := do
  let n ← integer s
  if 0 ≤ n ∧ n ≤ most then return n.toNat
  else throw (toString n ++ " is not in 0..=" ++ toString most)

end PhasedLoad.CommandLine.Value
