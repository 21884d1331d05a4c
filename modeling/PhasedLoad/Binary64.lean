import PhasedLoad.Power

/-!
Binary floating-point numbers of 64 bits, as exact ratios: a finite number is a whole number times a
power of two, and each operation takes the exact result to the nearest number, a tie going to the
even one.
-/

namespace PhasedLoad

/-- A floating-point number, by its bits: sign, eleven bits of exponent, 52 of fraction. -/
structure Binary64 where
  bits : UInt64
deriving DecidableEq

namespace Binary64

def isNegative (x : Binary64) : Bool := 2 ^ 63 ≤ x.bits.toNat

def magnitude (x : Binary64) : Nat := x.bits.toNat % 2 ^ 63

def isFinite (x : Binary64) : Bool := x.magnitude < 0x7FF * 2 ^ 52

def isNaN (x : Binary64) : Bool := 0x7FF * 2 ^ 52 < x.magnitude

def isZero (x : Binary64) : Bool := x.magnitude == 0

/-- The size of a finite number as `(m, e)`, which stands for `m * 2 ^ (e - 1074)`. -/
def scaled (x : Binary64) : Nat × Nat :=
  let e := x.magnitude / 2 ^ 52
  let f := x.magnitude % 2 ^ 52
  if e = 0 then (f, 0) else (f + 2 ^ 52, e - 1)

def ratio (x : Binary64) : Nat × Nat :=
  let (m, e) := x.scaled
  (m * 2 ^ e, 2 ^ 1074)

/-- A quotient to the nearest whole number, a half going to the even one. -/
def roundHalfEven (num den : Nat) : Nat :=
  let q := num / den
  let r := num % den
  if 2 * r < den then q
  else if 2 * r > den then q + 1
  else q + q % 2

/-- The least `e` for which `num / den` is below `2 ^ (e + 53 - 1074)`. -/
def exponentFor (num den : Nat) : Nat :=
  let e := num.log2 + 1074 - (den.log2 + 52)
  if num * 2 ^ 1074 < den * 2 ^ (e - 1 + 53) then e - 1 else e

/-- The number of the given sign nearest to `num / den`, infinite if that is too large. -/
def ofRatio (negative : Bool) (num den : Nat) : Binary64 :=
  let e := exponentFor num den
  let n := if num = 0 then 0 else e * 2 ^ 52 + roundHalfEven (num * 2 ^ 1074) (den * 2 ^ e)
  ⟨UInt64.ofNat ((if negative then 2 ^ 63 else 0) + min n (0x7FF * 2 ^ 52))⟩

def zero : Binary64 := ⟨0⟩
def infinity : Binary64 := ⟨0x7FF0000000000000⟩
def nan : Binary64 := ⟨0x7FF8000000000000⟩

def ofNat (n : Nat) : Binary64 := ofRatio false n 1

def neg (x : Binary64) : Binary64 := ⟨x.bits ^^^ 0x8000000000000000⟩

def mul (x y : Binary64) : Binary64 :=
  ofRatio (x.isNegative != y.isNegative) (x.ratio.1 * y.ratio.1) (x.ratio.2 * y.ratio.2)

def div (x y : Binary64) : Binary64 :=
  ofRatio (x.isNegative != y.isNegative) (x.ratio.1 * y.ratio.2) (x.ratio.2 * y.ratio.1)

def addSizes (x y : Binary64) : Binary64 :=
  ofRatio false (x.ratio.1 * y.ratio.2 + y.ratio.1 * x.ratio.2) (x.ratio.2 * y.ratio.2)

def maxSize (x y : Binary64) : Binary64 := if x.magnitude < y.magnitude then y else x

/-- The size of a finite number times `n`, to the nearest whole number, a half going to the even
one. -/
def roundTimes (x : Binary64) (n : Nat) : Nat := roundHalfEven (x.ratio.1 * n) x.ratio.2

end Binary64

end PhasedLoad
