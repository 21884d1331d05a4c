import PhasedLoad.Budget
import PhasedLoad.Report
import PhasedLoad.Text.Quoted

/-!
What a run puts into its log, and the lines that say it.
-/

namespace PhasedLoad

structure GroupName where
  phase : String
  group : Nat
deriving DecidableEq

inductive Breakdown
  | panic (text : String)
  /-- An interval of no length cannot be waited for. -/
  | zeroInterval
deriving DecidableEq

def Breakdown.text : Breakdown → String
  | panic text => text
  | zeroInterval => "`period` must be non-zero."

/-- What is worth a line in the log. Phases and groups are counted from one. -/
inductive LogEvent
  | unknownPattern (name : String)
  | repeats (notice : Repeats.Notice)
  | patternOverridden (plan pattern : Pattern)
  | planLoaded (pattern : Pattern) (phases executions : Nat) (total : Duration)
  | runtimeAdjusted (requested adjusted : Duration)
  | phasePlanned (phase : Nat) (name : String) (groups repeats : Nat) (duration total : Duration)
  | runStarting (url : String)
  | interrupted
  | runTimedOut
  | runFinished (executions : Nat) (took : Duration) (ending : RunEnd)
  | phaseStarting (phase : Nat) (name : String) (execution : Nat) (duration : Duration)
  | setupStarting
  | setupRejected (body : String)
  | setupFailed (phase : Nat) (name : String) (fault : TargetFault)
  | workersStarting (group : GroupName) (instances : Nat) (duration delay : Duration)
  | requestRejected (phase : String) (body : String)
  | requestImpossible (group : GroupName) (fault : TargetFault)
  | workerBroken (group : GroupName) (why : Breakdown)
  | reporterBroken (group : GroupName) (why : Breakdown)
  | interval (group : GroupName) (report : IntervalReport)
  | groupStopped (group : GroupName) (reason : StopReason)
  | groupFinished (group : GroupName)
  | phaseStopped (name : String) (reason : StopReason)
  | phaseSummary (summary : PhaseSummary)
  | statusCode (phase status : Nat) (count : UInt64)
  | teardownStarting (phase : Nat)
  | teardownRejected (phase : Nat) (body : String)
  | teardownFailed (phase : Nat) (fault : TargetFault)

namespace LogEvent

inductive Level
  | info
  | warn
  | error
deriving DecidableEq

def Level.name : Level → String
  | info => "INFO"
  | warn => "WARN"
  | error => "ERROR"

structure Line where
  level : Level
  message : String
  values : List (String × String)

def Line.text (l : Line) : String :=
  l.values.foldl (fun s v => s ++ " " ++ v.1 ++ "=" ++ v.2) (l.level.name ++ " " ++ l.message)

def info (message : String) (values : List (String × String)) : Line := ⟨.info, message, values⟩
def warn (message : String) (values : List (String × String)) : Line := ⟨.warn, message, values⟩
def error (message : String) (values : List (String × String)) : Line := ⟨.error, message, values⟩

def groupValues (g : GroupName) : List (String × String) :=
  [("phase", g.phase), ("group", toString g.group)]

/-- A task that broke down; its number is left open. -/
def brokenTask (why : Breakdown) : String :=
  "task _ panicked with message " ++ Text.quoted why.text

def line : LogEvent → Line
  | unknownPattern name =>
    warn "unknown phase pattern, falling back to sequence" [("pattern", name)]
  | repeats (.unlimited n) =>
    info "unlimited repeats requested, using the per-phase maximum" [("repeats", toString n)]
  | repeats (.overridden n) => info "overriding plan repeats" [("repeats", toString n)]
  | repeats (.capped phase asked most) =>
    warn "phase repeat count exceeds maximum, capping"
      [("phase", toString phase), ("repeat", toString asked), ("max", toString most)]
  | patternOverridden plan pattern =>
    info "overriding phase pattern" [("plan", plan.name), ("pattern", pattern.name)]
  | planLoaded pattern phases executions total =>
    info "plan loaded"
      [("pattern", pattern.name), ("phases", toString phases),
        ("executions", toString executions), ("total", total.exact)]
  | runtimeAdjusted requested adjusted =>
    warn "total duration adjusted to fit the phase duration limits"
      [("requested", requested.exact), ("adjusted", adjusted.exact)]
  | phasePlanned phase name groups times duration total =>
    info "phase planned"
      [("phase", toString phase), ("name", name), ("groups", toString groups),
        ("repeat", toString times), ("duration", duration.exact), ("total", total.exact)]
  | runStarting url => info "starting run" [("url", url)]
  | interrupted => warn "interrupt received, stopping" []
  | runTimedOut => info "run timeout reached, stopping" []
  | runFinished executions took ending =>
    info "run finished"
      [("executions", toString executions), ("took", took.exact), ("end", ending.name)]
  | phaseStarting phase name execution duration =>
    info "starting phase"
      [("phase", toString phase), ("name", name), ("execution", toString execution),
        ("duration", duration.exact)]
  | setupStarting => info "running setup" []
  | setupRejected body => warn "setup request rejected" [("body", body)]
  | setupFailed phase name fault =>
    error "setup failed" [("phase", toString phase), ("name", name), ("error", fault.message)]
  | workersStarting g instances duration delay =>
    info "starting workers"
      (groupValues g ++ [("instances", toString instances), ("duration", duration.exact),
        ("delay", delay.exact)])
  | requestRejected phase body => warn "bad request" [("phase", phase), ("body", body)]
  | requestImpossible g fault =>
    error "failed to create request" (groupValues g ++ [("error", fault.message)])
  | workerBroken g why => error "worker panicked" (groupValues g ++ [("error", brokenTask why)])
  | reporterBroken g why =>
    error "reporter panicked" (groupValues g ++ [("error", brokenTask why)])
  | interval g report => info report.text (groupValues g)
  | groupStopped g reason =>
    info "worker group completed" (groupValues g ++ [("reason", reason.message)])
  | groupFinished g => info "worker group completed: workers finished" (groupValues g)
  | phaseStopped name reason =>
    info "phase completed" [("phase", name), ("reason", reason.message)]
  | phaseSummary s =>
    info "phase summary"
      [("phase", toString (s.phase + 1)), ("name", s.name), ("execution", toString s.execution),
        ("took", s.elapsed.exact), ("requests", toString s.requests.toNat),
        ("errors", toString s.errors.toNat), ("avg_latency", s.meanLatency.exact),
        ("end", s.ending.name)]
  | statusCode phase status count =>
    info "status code"
      [("phase", toString phase), ("status", toString status), ("count", toString count.toNat)]
  | teardownStarting phase => info "running teardown" [("phase", toString phase)]
  | teardownRejected phase body =>
    warn "teardown request rejected" [("phase", toString phase), ("body", body)]
  | teardownFailed phase fault =>
    warn "teardown failed" [("phase", toString phase), ("error", fault.message)]

def ofSummary (s : PhaseSummary) : List LogEvent :=
  phaseSummary s :: s.codes.map fun (status, count) => statusCode (s.phase + 1) status count

end LogEvent

end PhasedLoad
