import PhasedLoad.Duration.Exact

/-!
Why a plan or its settings are refused, and why a run fails.
-/

namespace PhasedLoad

inductive TargetFault
  /-- The request cannot be made; no later one can. -/
  | invalidRequest (text : String)
  | transport (text : String)
  | timeout (after : Duration)
deriving DecidableEq

namespace TargetFault

def message : TargetFault → String
  | invalidRequest text => "invalid request: " ++ text
  | transport text => "transport error: " ++ text
  | timeout d => "request timed out after " ++ d.exact

/-- A fatal fault ends the worker that meets it. -/
def isFatal : TargetFault → Bool
  | invalidRequest _ => true
  | _ => false

end TargetFault

inductive Fault
  | emptyPlan
  | durationOutOfRange (phase worker : Nat) (duration min max : Duration)
  | unschedulable (phase worker : Nat) (delay duration : Duration)
  | invalidRepeats (got : Int)
  | runtimeOutOfRange (runtime min max : Duration)
  | invalidBounds (min max : Duration)
  | invalidReportInterval
  | setup (phase : Nat) (name : String) (source : TargetFault)
  | canceled
deriving DecidableEq

namespace Fault

/-- A worker of a phase, both counted from one. -/
def place (phase worker : Nat) : String :=
  "phase " ++ toString phase ++ " worker " ++ toString worker

def range (min max : Duration) : String := "[" ++ min.exact ++ ", " ++ max.exact ++ "]"

def message : Fault → String
  | emptyPlan => "plan must contain at least one phase"
  | durationOutOfRange phase worker duration min max =>
    place phase worker ++ ": `duration` " ++ duration.exact ++ " is outside " ++ range min max
  | unschedulable phase worker delay duration =>
    place phase worker ++ ": `delay` " ++ delay.exact ++ " is not shorter than its duration " ++
      duration.exact ++ ", no request could ever be sent"
  | invalidRepeats got =>
    "repeats per phase must be -1 (use plan values), 0 (unlimited), or 1..=max (got " ++
      toString got ++ ")"
  | runtimeOutOfRange runtime min max =>
    "total runtime " ++ runtime.exact ++ " must be within " ++ range min max
  | invalidBounds min max =>
    "invalid phase duration bounds: min " ++ min.exact ++ ", max " ++ max.exact
  | invalidReportInterval => "report interval must be a positive duration"
  | setup phase name source =>
    "phase " ++ toString phase ++ " (`" ++ name ++ "`) setup failed: " ++ source.message
  | canceled => "run canceled"

/-- Whether the plan or the settings are at fault, and not the run. -/
def isConfiguration : Fault → Bool
  | setup .. | canceled => false
  | _ => true

def source? : Fault → Option TargetFault
  | setup _ _ source => some source
  | _ => none

end Fault

end PhasedLoad
