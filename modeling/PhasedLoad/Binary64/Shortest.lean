import PhasedLoad.Binary64
import PhasedLoad.Text.Digits

/-!
The fewest decimal digits that are read back as the same floating-point number, and the texts made
of them.
-/

namespace PhasedLoad.Binary64

/-- `digits * 10 ^ (exponent - 400)`. -/
structure Decimal where
  digits : Nat
  exponent : Nat

def decimalOffset : Nat := 400

/-- The greatest `k` with `10 ^ k ≤ num / den * 10 ^ 400`, found by counting digits. -/
def decimalMagnitude (num den : Nat) : Nat :=
  (toString (num * 10 ^ decimalOffset / den)).length - 1

/-- The interval of reals nearest to a finite number that is not zero, as four times the bounds and
the number itself in units of `2 ^ (e - 1074)`; the bounds belong to it if `closed`. -/
structure Neighbourhood where
  low : Nat
  value : Nat
  high : Nat
  exponent : Nat
  closed : Bool

def neighbourhood (x : Binary64) : Neighbourhood :=
  let (m, e) := x.scaled
  let gapBelow := if m = 2 ^ 52 ∧ e > 0 then 1 else 2
  ⟨4 * m - gapBelow, 4 * m, 4 * m + 2, e, m % 2 == 0⟩

/-- The point of the decimal grid with step `10 ^ (k - 400)` inside the interval and nearest to the
number, if there is one. -/
def Neighbourhood.gridPoint (n : Neighbourhood) (k : Nat) : Option Nat :=
  -- Every quantity is multiplied by `4 * 2 ^ 1074 * 10 ^ 400`.
  let scale := 2 ^ n.exponent * 10 ^ decimalOffset
  let step := 4 * 2 ^ 1074 * 10 ^ k
  let below := n.value * scale / step
  let rest := n.value * scale % step
  let inside (c : Nat) : Bool :=
    if n.closed then n.low * scale ≤ c * step && c * step ≤ n.high * scale
    else n.low * scale < c * step && c * step < n.high * scale
  let above := below + 1
  match inside below, inside above with
  | false, false => none
  | true, false => some below
  | false, true => some above
  | true, true =>
    if 2 * rest < step then some below
    else if 2 * rest > step then some above
    else some (below + below % 2)

/-- The first grid with a point in the interval, from `count` digits fewer than seventeen on. -/
def shortestFrom (n : Neighbourhood) (top : Nat) : Nat → Decimal
  | 0 => ⟨(n.gridPoint (top - 16)).getD 0, top - 16⟩
  | count + 1 =>
    let k := top - (16 - (count + 1))
    match n.gridPoint k with
    | some c => ⟨c, k⟩
    | none => shortestFrom n top count

def Decimal.trimZeros (d : Decimal) : Nat → Decimal
  | 0 => d
  | fuel + 1 =>
    if d.digits % 10 = 0 ∧ d.digits ≠ 0 then
      Decimal.trimZeros ⟨d.digits / 10, d.exponent + 1⟩ fuel
    else d

def shortest (x : Binary64) : Decimal :=
  let top := decimalMagnitude x.ratio.1 x.ratio.2
  (shortestFrom (neighbourhood x) top 16).trimZeros 20

/-- How a number is written with its shortest digits: from and to which decimal exponent without an
exponent, everything else with one. -/
structure Layout where
  leastFixed : Int
  greatestFixed : Int

def fixedText (digits : List Char) (exponent : Int) : List Char :=
  if exponent ≥ 0 then digits ++ List.replicate exponent.toNat '0' ++ ['.', '0']
  else
    let places := (-exponent).toNat
    if places < digits.length then
      digits.take (digits.length - places) ++ '.' :: digits.drop (digits.length - places)
    else '0' :: '.' :: (List.replicate (places - digits.length) '0' ++ digits)

def exponentText (digits : List Char) (exponent : Int) : List Char :=
  let e := exponent + digits.length - 1
  digits.take 1 ++ (if digits.length > 1 then '.' :: digits.drop 1 else []) ++
    'e' :: (if e < 0 then '-' else '+') :: Text.decimal e.natAbs

def finiteText (layout : Layout) (x : Binary64) : List Char :=
  let sign := if x.isNegative then ['-'] else []
  if x.isZero then sign ++ ['0', '.', '0']
  else
    let d := x.shortest
    let digits := Text.decimal d.digits
    let exponent : Int := (d.exponent : Int) - decimalOffset
    let e := exponent + digits.length - 1
    sign ++
      if layout.leastFixed ≤ e ∧ e ≤ layout.greatestFixed then fixedText digits exponent
      else exponentText digits exponent

def plainLayout : Layout := ⟨-400, 400⟩

def plainText (x : Binary64) : String :=
  if x.isFinite then String.ofList (finiteText plainLayout x)
  else if x.isNaN then "NaN"
  else if x.isNegative then "-inf" else "inf"

/-- A number that is not negative with one place, its exact value taken to the nearest, a tie going
to the even digit. -/
def onePlace (x : Binary64) : String :=
  let n := x.roundTimes 10
  String.ofList (Text.decimal (n / 10) ++ '.' :: Text.decimal (n % 10))

end PhasedLoad.Binary64
