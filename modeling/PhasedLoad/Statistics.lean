import PhasedLoad.Duration

/-!
What the workers of one phase execution count: requests, errors, microseconds waited, and how often
each status came back. The counters have 64 bits and wrap.
-/

namespace PhasedLoad

/-- How often each status came back, in the order of the statuses. -/
abbrev Histogram := List (Nat × UInt64)

namespace Histogram

def add (status : Nat) (n : UInt64) : Histogram → Histogram
  | [] => [(status, n)]
  | (s, k) :: rest =>
    if status < s then (status, n) :: (s, k) :: rest
    else if status = s then (s, k + n) :: rest
    else (s, k) :: add status n rest

def merge (h other : Histogram) : Histogram := other.foldl (fun h e => add e.1 e.2 h) h

def count (status : Nat) : Histogram → UInt64
  | [] => 0
  | (s, k) :: rest => if s = status then k else count status rest

end Histogram

structure Snapshot where
  requests : UInt64
  errors : UInt64
  /-- The microseconds that all requests took together. -/
  micros : UInt64
deriving DecidableEq

namespace Snapshot

def zero : Snapshot := ⟨0, 0, 0⟩

instance : Inhabited Snapshot := ⟨zero⟩

def excess (a b : UInt64) : UInt64 := if b ≤ a then a - b else 0

def ok (s : Snapshot) : UInt64 := excess s.requests s.errors

/-- The microseconds of one request on average, rounded down; zero without requests. -/
def meanLatency (s : Snapshot) : Duration := .ofMicros (s.micros.toNat / s.requests.toNat)

def since (s earlier : Snapshot) : Snapshot :=
  ⟨excess s.requests earlier.requests, excess s.errors earlier.errors,
    excess s.micros earlier.micros⟩

end Snapshot

structure Statistics where
  counters : Snapshot
  codes : Histogram

namespace Statistics

def empty : Statistics := ⟨.zero, []⟩

instance : Inhabited Statistics := ⟨empty⟩

/-- The microseconds of a length, or as many as 64 bits hold. -/
def microsOf (d : Duration) : UInt64 := UInt64.ofNat (min d.micros (2 ^ 64 - 1))

def recordRequest (s : Statistics) (d : Duration) : Statistics :=
  { s with counters := { s.counters with
      requests := s.counters.requests + 1
      micros := s.counters.micros + microsOf d } }

def recordError (s : Statistics) : Statistics :=
  { s with counters := { s.counters with errors := s.counters.errors + 1 } }

def mergeCodes (s : Statistics) (codes : Histogram) : Statistics :=
  { s with codes := s.codes.merge codes }

@[simp] theorem recordError_codes (s : Statistics) : s.recordError.codes = s.codes := rfl

end Statistics

end PhasedLoad
