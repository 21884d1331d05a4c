import PhasedLoad.Power

/-!
Lengths of time and instants, in whole nanoseconds. A length has fewer than `2 ^ 64` whole seconds;
its sums and multiples either stop at the longest length or fail, and each operation says which.
-/

namespace PhasedLoad

/-- A length of time in nanoseconds whose whole seconds fit 64 bits. -/
@[ext] structure Duration where
  nanos : Nat
  lt : nanos < 2 ^ 64 * 10 ^ 9
deriving DecidableEq

namespace Duration

def limit : Nat := 2 ^ 64 * 10 ^ 9

instance : LE Duration := ⟨fun a b => a.nanos ≤ b.nanos⟩
instance : LT Duration := ⟨fun a b => a.nanos < b.nanos⟩
instance (a b : Duration) : Decidable (a ≤ b) := inferInstanceAs (Decidable (a.nanos ≤ b.nanos))
instance (a b : Duration) : Decidable (a < b) := inferInstanceAs (Decidable (a.nanos < b.nanos))

theorem le_def {a b : Duration} : a ≤ b ↔ a.nanos ≤ b.nanos := Iff.rfl
theorem lt_def {a b : Duration} : a < b ↔ a.nanos < b.nanos := Iff.rfl

/-- The length of `n` nanoseconds, or the longest length if there is none. -/
def ofNanos (n : Nat) : Duration := ⟨min n (limit - 1), by simp only [limit]; omega⟩

def ofNanos? (n : Nat) : Option Duration :=
  if h : n < 2 ^ 64 * 10 ^ 9 then some ⟨n, h⟩ else none

@[simp] theorem ofNanos_nanos (n : Nat) : (ofNanos n).nanos = min n (limit - 1) := rfl

theorem ofNanos_nanos_of_lt {n : Nat} (h : n < limit) : (ofNanos n).nanos = n := by
  simp only [ofNanos_nanos]; omega

@[simp] theorem ofNanos_self (d : Duration) : ofNanos d.nanos = d := by
  have := d.lt
  ext; simp only [ofNanos_nanos, limit]; omega

theorem ofNanos?_eq_some_iff {n : Nat} {d : Duration} : ofNanos? n = some d ↔ d.nanos = n := by
  constructor
  · intro h
    unfold ofNanos? at h
    split at h
    · cases h; rfl
    · cases h
  · rintro rfl
    exact dif_pos d.lt

def zero : Duration := ⟨0, by decide⟩

instance : Inhabited Duration := ⟨zero⟩

@[simp] theorem zero_nanos : zero.nanos = 0 := rfl

def ofMicros (n : Nat) : Duration := ofNanos (n * 1000)
def ofMillis (n : Nat) : Duration := ofNanos (n * 10 ^ 6)
def ofSecs (n : Nat) : Duration := ofNanos (n * 10 ^ 9)

def ofParts (secs nanos : Nat) : Duration := ofNanos (secs * 10 ^ 9 + nanos)

def secs (d : Duration) : Nat := d.nanos / 10 ^ 9

def subsecNanos (d : Duration) : Nat := d.nanos % 10 ^ 9

def millis (d : Duration) : Nat := d.nanos / 10 ^ 6
def micros (d : Duration) : Nat := d.nanos / 1000

theorem secs_lt (d : Duration) : d.secs < 2 ^ 64 := by
  have := d.lt
  simp only [secs]; omega

def isZero (d : Duration) : Bool := d.nanos == 0

theorem isZero_iff {d : Duration} : d.isZero = true ↔ d.nanos = 0 := by simp [isZero]

protected def max (a b : Duration) : Duration := if a ≤ b then b else a
protected def min (a b : Duration) : Duration := if a ≤ b then a else b

@[simp] theorem max_nanos (a b : Duration) : (a.max b).nanos = max a.nanos b.nanos := by
  simp only [Duration.max, le_def]; split <;> omega

@[simp] theorem min_nanos (a b : Duration) : (a.min b).nanos = min a.nanos b.nanos := by
  simp only [Duration.min, le_def]; split <;> omega

/-- The sum, or the longest length. -/
def add (a b : Duration) : Duration := ofNanos (a.nanos + b.nanos)

def mul (d : Duration) (n : Nat) : Duration := ofNanos (d.nanos * n)

def sum (ds : List Duration) : Duration := ds.foldl add zero

theorem add_nanos (a b : Duration) : (a.add b).nanos = min (a.nanos + b.nanos) (limit - 1) := rfl

theorem mul_nanos (d : Duration) (n : Nat) : (d.mul n).nanos = min (d.nanos * n) (limit - 1) := rfl

/-- `n` times the length, or the longest length whose nanoseconds fit 64 bits. -/
def mulWithin64 (d : Duration) (n : Nat) : Duration := ofNanos (min (d.nanos * n) (2 ^ 64 - 1))

/-- An `n`th of the length, rounded down, or the longest length whose nanoseconds fit 64 bits;
dividing by zero counts as dividing by one. -/
def divWithin64 (d : Duration) (n : Nat) : Duration :=
  ofNanos (min (d.nanos / max n 1) (2 ^ 64 - 1))

@[simp] theorem mulWithin64_nanos (d : Duration) (n : Nat) :
    (d.mulWithin64 n).nanos = min (d.nanos * n) (2 ^ 64 - 1) := by
  simp only [mulWithin64, ofNanos_nanos, limit]; omega

@[simp] theorem divWithin64_nanos (d : Duration) (n : Nat) :
    (d.divWithin64 n).nanos = min (d.nanos / max n 1) (2 ^ 64 - 1) := by
  simp only [divWithin64, ofNanos_nanos, limit]; omega

end Duration

/-- A moment, in nanoseconds since the clock started. -/
abbrev Instant := Nat

namespace Instant

def limit : Nat := 2 ^ 63 * 10 ^ 9

/-- The instant `d` after `t`, if the clock can show it. -/
def after? (t : Instant) (d : Duration) : Option Instant :=
  if t + d.nanos < limit then some (t + d.nanos) else none

/-- How far away a timer fires whose own instant the clock cannot show. -/
def farAway : Nat := 30 * 365 * 86400 * 10 ^ 9

def wake (t : Instant) (d : Duration) : Instant := (after? t d).getD (t + farAway)

theorem le_wake (t : Instant) (d : Duration) : t ≤ wake t d := by
  unfold wake after?; split <;> simp

theorem wake_of_lt {t : Instant} {d : Duration} (h : t + d.nanos < limit) :
    wake t d = t + d.nanos := by
  simp [wake, after?, h]

/-- The time from `t` to `now`; zero if `now` is not after `t`. -/
def elapsed (t now : Instant) : Duration := Duration.ofNanos (now - t)

end Instant

/-- The earlier of two optional instants; a missing one sets no bound. -/
def earliest? : Option Instant → Option Instant → Option Instant
  | some a, some b => some (min a b)
  | some a, none => some a
  | none, b => b

@[simp] theorem earliest?_none_right (a : Option Instant) : earliest? a none = a := by
  cases a <;> rfl

@[simp] theorem earliest?_none_left (a : Option Instant) : earliest? none a = a := rfl

@[simp] theorem earliest?_some_some (a b : Instant) :
    earliest? (some a) (some b) = some (min a b) := rfl

end PhasedLoad
