import PhasedLoad.Json.Basic
import PhasedLoad.Text.Digits

/-!
The value of a JSON number. Whole numbers of 64 bits are exact. Any other number is made of as many
of its leading digits as fit 64 bits, taken to the nearest floating-point number, and then
multiplied or divided by a power of ten; a number that would be infinite has no value.
-/

namespace PhasedLoad.Json

structure NumberParts where
  negative : Bool
  whole : List Char
  /-- The digits after the point, if there is one. -/
  fraction : Option (List Char)
  /-- Whether the exponent is negative, and its digits. -/
  exponent : Option (Bool × List Char)

/-- Leading digits that fit 64 bits, as a number, and the digits after them. -/
def leading : Nat → List Char → Nat × List Char
  | n, [] => (n, [])
  | n, c :: cs =>
    if n * 10 + Text.digitVal c < 2 ^ 64 then leading (n * 10 + Text.digitVal c) cs
    else (n, c :: cs)

def timesPower (f : Binary64) (e : Nat) : Option Binary64 :=
  let x := f.mul (Binary64.ofNat (10 ^ e))
  if x.isFinite then some x else none

/-- `f` over `10 ^ e`, in steps of at most `10 ^ 308`. -/
def overPower (f : Binary64) (e : Nat) : Nat → Binary64
  | 0 => Binary64.zero
  | fuel + 1 =>
    if e ≤ 308 then f.div (Binary64.ofNat (10 ^ e))
    else if f.isZero then f
    else overPower (f.div (Binary64.ofNat (10 ^ 308))) (e - 308) fuel

def ofSignificand (significand : Nat) (exponent : Int) : Option Binary64 :=
  let f := Binary64.ofNat significand
  if exponent < 0 then some (overPower f exponent.natAbs 10)
  else if exponent ≤ 308 then timesPower f exponent.toNat
  else if significand = 0 then some f
  else none

/-- Exponents from here on have too many digits to be counted. -/
def exponentLimit : Nat := 2 ^ 31

/-- The size of a number that is not written as a whole number of 64 bits. -/
def NumberParts.float (p : NumberParts) : Option Binary64 :=
  let (n, more) := leading 0 p.whole
  let (significand, places) := match p.fraction with
    | none => (n, (0 : Int))
    | some cs =>
      let (n', rest) := leading n cs
      (n', (rest.length : Int) - cs.length)
  let exponent := places + more.length
  match p.exponent with
  | none => ofSignificand significand exponent
  | some (negative, cs) =>
    let e := (Text.numberFrom 10 0 cs).getD 0
    if e ≥ exponentLimit then
      if significand = 0 ∨ negative then some Binary64.zero else none
    else ofSignificand significand (if negative then exponent - e else exponent + e)

/-- The value of a number, if it is not too large. Minus zero is a floating-point number. -/
def NumberParts.value (p : NumberParts) : Option Number :=
  let sign (x : Binary64) : Number := .float (if p.negative then x.neg else x)
  match p.fraction, p.exponent with
  | none, none =>
    let n := (Text.numberFrom 10 0 p.whole).getD 0
    if n < 2 ^ 64 then
      if p.negative then
        if n = 0 ∨ 2 ^ 63 < n then some (.float (Binary64.ofNat n).neg) else some (.whole (-n))
      else some (.whole n)
    else p.float.map sign
  | _, _ => p.float.map sign

end PhasedLoad.Json
