import PhasedLoad.Duration
import PhasedLoad.Text.Digits

/-!
A length of time written exactly, in the largest of seconds, milliseconds, microseconds and
nanoseconds of which it holds at least one: `60s`, `1.5s`, `100.00001ms`, `0ns`.
-/

namespace PhasedLoad.Duration

/-- A unit of the exact text: its name, its length in nanoseconds, and how many places it has. -/
structure ExactUnit where
  name : String
  nanos : Nat
  places : Nat

def ExactUnit.of (n : Nat) : ExactUnit :=
  if 10 ^ 9 ≤ n then ⟨"s", 10 ^ 9, 9⟩
  else if 10 ^ 6 ≤ n then ⟨"ms", 10 ^ 6, 6⟩
  else if 10 ^ 3 ≤ n then ⟨"µs", 10 ^ 3, 3⟩
  else ⟨"ns", 1, 0⟩

def fraction (places n : Nat) : List Char :=
  match ((Text.padded places n).reverse.dropWhile (· == '0')).reverse with
  | [] => []
  | cs => '.' :: cs

/-- The length in its largest unit, with every digit it has. -/
def exact (d : Duration) : String :=
  let u := ExactUnit.of d.nanos
  let rest := if u.places = 0 then [] else fraction u.places (d.nanos % u.nanos)
  String.ofList (Text.decimal (d.nanos / u.nanos) ++ rest) ++ u.name

end PhasedLoad.Duration
