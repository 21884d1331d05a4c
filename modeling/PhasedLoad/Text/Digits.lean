import PhasedLoad.Power

/-!
Digits and the numbers they write, in a base up to sixteen.
-/

namespace PhasedLoad.Text

def digit? (base : Nat) (c : Char) : Option Nat :=
  let v :=
    if '0' ≤ c ∧ c ≤ '9' then c.toNat - 48
    else if 'a' ≤ c ∧ c ≤ 'f' then c.toNat - 87
    else if 'A' ≤ c ∧ c ≤ 'F' then c.toNat - 55
    else base
  if v < base then some v else none

def isDigit (c : Char) : Bool := '0' ≤ c && c ≤ '9'

def digitVal (c : Char) : Nat := c.toNat - 48

/-- The number written by the digits after those that wrote `n`. -/
def numberFrom (base : Nat) : Nat → List Char → Option Nat
  | n, [] => some n
  | n, c :: cs => match digit? base c with
    | some d => numberFrom base (n * base + d) cs
    | none => none

def number? (base : Nat) : List Char → Option Nat
  | [] => none
  | cs => numberFrom base 0 cs

def decimal (n : Nat) : List Char := (toString n).toList

/-- `n` in base ten with zeros in front up to `width` digits. -/
def padded (width n : Nat) : List Char :=
  List.replicate (width - (decimal n).length) '0' ++ decimal n

def hexDigit (n : Nat) : Char :=
  if n < 10 then Char.ofNat (48 + n) else Char.ofNat (87 + n)

def hex (n : Nat) : List Char := Nat.toDigits 16 n

inductive NumberFault
  | empty
  | invalidDigit
  | tooLarge
  | tooSmall
deriving DecidableEq

def NumberFault.message : NumberFault → String
  | .empty => "cannot parse integer from empty string"
  | .invalidDigit => "invalid digit found in string"
  | .tooLarge => "number too large to fit in target type"
  | .tooSmall => "number too small to fit in target type"

/-- A whole number with an optional sign, between `-low` and `high`; a lone sign and a character
that is no digit are the same fault, and faults of form come before faults of size only as far as
the digits read so far still fit. -/
def signed (low high : Nat) (s : List Char) : Except NumberFault Int :=
  match s with
  | [] => .error .empty
  | ['+'] => .error .invalidDigit
  | ['-'] => .error .invalidDigit
  | '+' :: cs => positive high 0 cs
  | '-' :: cs => if low = 0 then .error .invalidDigit else negative low 0 cs
  | cs => positive high 0 cs
where
  positive (high : Nat) : Nat → List Char → Except NumberFault Int
    | n, [] => .ok n
    | n, c :: cs => match digit? 10 c with
      | none => .error .invalidDigit
      | some d => if n * 10 + d ≤ high then positive high (n * 10 + d) cs else .error .tooLarge
  negative (low : Nat) : Nat → List Char → Except NumberFault Int
    | n, [] => .ok (-n)
    | n, c :: cs => match digit? 10 c with
      | none => .error .invalidDigit
      | some d => if n * 10 + d ≤ low then negative low (n * 10 + d) cs else .error .tooSmall

/-- A whole number below `2 ^ 64`, with an optional plus in front. -/
def unsigned64? (s : List Char) : Option Nat :=
  match signed 0 (2 ^ 64 - 1) s with
  | .ok n => some n.toNat
  | .error _ => none

end PhasedLoad.Text
