import PhasedLoad.Random.Keystream

/-!
Even choices from a stream of 64-bit words. A word is refused where it would favour some of the
choices, so each of them belongs to equally many words.
-/

namespace PhasedLoad.Random

def leadingZeros (n : Nat) : Nat := if n = 0 then 64 else 63 - n.log2

/-- The largest low half of a product that is not refused. -/
def zone (n : Nat) : Nat := n * 2 ^ leadingZeros n - 1

/-- The choice among `n` that a word stands for, unless it is refused. -/
def choiceOf? (n : Nat) (word : UInt64) : Option Nat :=
  let m := word.toNat * n
  if m % 2 ^ 64 ≤ zone n then some (m / 2 ^ 64) else none

structure Chooser where
  words : Nat → UInt64
  used : Nat

namespace Chooser

def seeded (seed : UInt64) : Chooser := ⟨word seed, 0⟩

def next (c : Chooser) : Chooser := { c with used := c.used + 1 }

/-- How many words are tried for one choice before one is taken that would be refused. -/
def patience : Nat := 1000

def choose (n : Nat) : Nat → Chooser → Nat × Chooser
  | 0, c => ((c.words c.used).toNat * n / 2 ^ 64, c.next)
  | tries + 1, c => match choiceOf? n (c.words c.used) with
    | some i => (i, c.next)
    | none => choose n tries c.next

end Chooser

theorem product_lt {n : Nat} (h : 0 < n) (word : UInt64) : word.toNat * n / 2 ^ 64 < n := by
  have hw := word.toNat_lt
  rw [Nat.div_lt_iff_lt_mul (by decide)]
  calc word.toNat * n < 2 ^ 64 * n := Nat.mul_lt_mul_of_pos_right hw h
    _ = n * 2 ^ 64 := Nat.mul_comm _ _

theorem choiceOf?_lt {n : Nat} (h : 0 < n) {word : UInt64} {i : Nat}
    (hi : choiceOf? n word = some i) : i < n := by
  simp only [choiceOf?] at hi
  split at hi
  · cases hi; exact product_lt h word
  · cases hi

theorem Chooser.choose_lt {n : Nat} (h : 0 < n) (tries : Nat) (c : Chooser) :
    (c.choose n tries).1 < n := by
  induction tries generalizing c with
  | zero => exact product_lt h _
  | succ tries ih =>
    simp only [choose]
    split
    · next hi => exact choiceOf?_lt h hi
    · exact ih _

end PhasedLoad.Random
