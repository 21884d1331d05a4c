import PhasedLoad.Binary64.Shortest
import PhasedLoad.Duration.Exact
import PhasedLoad.Statistics

/-!
What a run tells about its progress: a line for each interval of a group's work, a summary of each
phase execution, and a report at the end.
-/

namespace PhasedLoad

inductive StopReason
  | canceled
  | deadlineExceeded
deriving DecidableEq

namespace StopReason

def message : StopReason → String
  | canceled => "canceled"
  | deadlineExceeded => "deadline exceeded"

/-- The reason to stop at `now`, if there is one: a deadline that has passed comes before a
cancellation. -/
def observe (deadline canceledAt : Option Instant) (now : Instant) : Option StopReason :=
  if deadline.any (· ≤ now) then some deadlineExceeded
  else if canceledAt.any (· ≤ now) then some canceled
  else none

end StopReason

inductive PhaseEnd
  | deadlineExceeded
  /-- Every group returned before the deadline. -/
  | workersFinished
  | canceled
  | setupFailed
deriving DecidableEq

namespace PhaseEnd

def name : PhaseEnd → String
  | deadlineExceeded => "deadline_exceeded"
  | workersFinished => "workers_finished"
  | canceled => "canceled"
  | setupFailed => "setup_failed"

def ofReason : StopReason → PhaseEnd
  | .canceled => canceled
  | .deadlineExceeded => deadlineExceeded

def all : List PhaseEnd := [deadlineExceeded, workersFinished, canceled, setupFailed]

end PhaseEnd

structure PhaseSummary where
  /-- The phase's place in the plan, from zero. -/
  phase : Nat
  name : String
  /-- Which execution of the phase it is, from one. -/
  execution : Nat
  elapsed : Duration
  requests : UInt64
  errors : UInt64
  meanLatency : Duration
  codes : Histogram
  ending : PhaseEnd

inductive RunEnd
  /-- Every phase used up its repeats. -/
  | completed
  | runTimeout
deriving DecidableEq

def RunEnd.name : RunEnd → String
  | completed => "completed"
  | runTimeout => "run_timeout"

structure RunReport where
  /-- The executions of each phase. -/
  executions : List Nat
  /-- All executions together. -/
  total : Nat
  elapsed : Duration
  ending : RunEnd
deriving DecidableEq

def RunReport.ofExecutions (executions : List Nat) (elapsed : Duration) (ending : RunEnd) :
    RunReport :=
  ⟨executions, executions.foldr (· + ·) 0, elapsed, ending⟩

structure IntervalReport where
  requestsPerSecond : Binary64
  meanLatency : Duration
  errors : UInt64
  ok : UInt64

namespace IntervalReport

/-- A length in seconds: the whole ones and the part of one, added as floating-point numbers. -/
def seconds (d : Duration) : Binary64 :=
  (Binary64.ofNat d.secs).addSizes
    ((Binary64.ofNat d.subsecNanos).div (Binary64.ofNat (10 ^ 9)))

def leastSeconds : Binary64 := Binary64.ofRatio false 1 (10 ^ 9)

def between (earlier current : Snapshot) (elapsed : Duration) : IntervalReport :=
  let delta := current.since earlier
  { requestsPerSecond := (Binary64.ofNat delta.requests.toNat).div
      ((seconds elapsed).maxSize leastSeconds)
    meanLatency := delta.meanLatency
    errors := delta.errors
    ok := delta.ok }

def text (r : IntervalReport) : String :=
  r.requestsPerSecond.onePlace ++ " req/s, avg latency " ++ r.meanLatency.exact ++
    ", " ++ toString r.errors.toNat ++ " errors, " ++ toString r.ok.toNat ++ " ok"

end IntervalReport

end PhasedLoad
