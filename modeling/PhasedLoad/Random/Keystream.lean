import PhasedLoad.Power

/-!
A stream of 64-bit words from a seed: the words of a ChaCha key stream of twelve rounds, whose key
is spread out from the seed.
-/

namespace PhasedLoad.Random

abbrev Block := Array UInt32

def rotateLeft (x n : UInt32) : UInt32 := (x <<< n) ||| (x >>> (32 - n))

/-- Adds word `b` to word `a`, mixes the sum into word `d` and turns that by `n` bits. -/
def mix (s : Block) (a b d : Nat) (n : UInt32) : Block :=
  let x := s.getD a 0 + s.getD b 0
  (s.setIfInBounds a x).setIfInBounds d (rotateLeft (s.getD d 0 ^^^ x) n)

def quarterRound (s : Block) (a b c d : Nat) : Block :=
  mix (mix (mix (mix s a b d 16) c d b 12) a b d 8) c d b 7

/-- A round over the columns of a block and one over its diagonals. -/
def doubleRound (s : Block) : Block :=
  let s := quarterRound s 0 4 8 12
  let s := quarterRound s 1 5 9 13
  let s := quarterRound s 2 6 10 14
  let s := quarterRound s 3 7 11 15
  let s := quarterRound s 0 5 10 15
  let s := quarterRound s 1 6 11 12
  let s := quarterRound s 2 7 8 13
  quarterRound s 3 4 9 14

def doubleRounds : Nat → Block → Block
  | 0, s => s
  | n + 1, s => doubleRounds n (doubleRound s)

def block (key : List UInt32) (counter : Nat) : Block :=
  let start : Block :=
    ([0x61707865, 0x3320646e, 0x79622d32, 0x6b206574] ++ key ++
      [UInt32.ofNat counter, UInt32.ofNat (counter / 2 ^ 32), 0, 0]).toArray
  Array.zipWith (· + ·) start (doubleRounds 6 start)

/-- Words spread out from a seed, each from a step of a linear congruence. -/
def spread : Nat → UInt64 → List UInt32
  | 0, _ => []
  | n + 1, state =>
    let state := state * 6364136223846793005 + 11634580027462260723
    let x := (((state >>> 18) ^^^ state) >>> 27).toUInt32
    let turn := (state >>> 59).toUInt32
    ((x >>> turn) ||| (x <<< ((32 - turn) % 32))) :: spread n state

def word (seed : UInt64) (i : Nat) : UInt64 :=
  let b := block (spread 8 seed) (i / 8)
  (b.getD (i % 8 * 2) 0).toUInt64 ||| ((b.getD (i % 8 * 2 + 1) 0).toUInt64 <<< 32)

end PhasedLoad.Random
