import PhasedLoad.Json.Basic
import PhasedLoad.Settings
import PhasedLoad.Text.Blank

/-!
Plans: phases with groups of workers, and what they send. A normal plan has every default filled in
and every group able to send a request.
-/

namespace PhasedLoad

structure WorkerGroup where
  instances : Nat
  /-- How long they work; zero for the shortest phase allowed. -/
  duration : Duration
  /-- How long each waits before a request. -/
  delay : Duration
  /-- How long each waits for an answer; zero for the usual time. -/
  timeout : Duration
deriving DecidableEq, Inhabited

def standardTimeout : Duration := .ofSecs 10

namespace WorkerGroup

def effectiveDuration (g : WorkerGroup) (limits : Limits) : Duration :=
  if g.duration.isZero then limits.minPhase else g.duration

def effectiveTimeout (g : WorkerGroup) : Duration :=
  if g.timeout.isZero then standardTimeout else g.timeout

/-- The group with its defaults filled in, if it can send a request; `phase` and `worker` are its
place in the plan, from one. -/
def normalize (limits : Limits) (phase worker : Nat) (g : WorkerGroup) :
    Except Fault WorkerGroup :=
  if ¬ g.duration.isZero ∧ (g.duration < limits.minPhase ∨ limits.maxPhase < g.duration) then
    .error (.durationOutOfRange phase worker g.duration limits.minPhase limits.maxPhase)
  else
    let duration := g.effectiveDuration limits
    if duration ≤ g.delay then .error (.unschedulable phase worker g.delay duration)
    else .ok { g with duration := duration, timeout := g.effectiveTimeout }

def normalizeAll (limits : Limits) (phase : Nat) :
    Nat → List WorkerGroup → Except Fault (List WorkerGroup)
  | _, [] => .ok []
  | worker, g :: gs => do
    let g ← g.normalize limits phase worker
    let gs ← normalizeAll limits phase (worker + 1) gs
    return g :: gs

end WorkerGroup

structure Phase where
  name : String
  workers : List WorkerGroup
  setup : Option Json
  workload : Option Json
  teardown : Option Json
  /-- How often the phase is executed; zero counts as one. -/
  repeats : Nat
deriving Inhabited

namespace Phase

def normalize (limits : Limits) (phase : Nat) (p : Phase) : Except Fault Phase := do
  let workers ← WorkerGroup.normalizeAll limits phase 1 p.workers
  return { p with
    repeats := if p.repeats = 0 then 1 else p.repeats
    name := if (Text.trim p.name.toList).isEmpty then "phase " ++ toString phase else p.name
    workers := workers }

def normalizeAll (limits : Limits) : Nat → List Phase → Except Fault (List Phase)
  | _, [] => .ok []
  | phase, p :: ps => do
    let p ← p.normalize limits phase
    let ps ← normalizeAll limits (phase + 1) ps
    return p :: ps

end Phase

structure Plan where
  pattern : Pattern
  phases : List Phase
deriving Inhabited

namespace Plan

def withPattern (plan : Plan) (pattern : Option Pattern) : Plan :=
  { plan with pattern := pattern.getD plan.pattern }

/-- The plan with its defaults filled in, if it has a phase and every group can send a request. -/
def normalize (plan : Plan) (limits : Limits) : Except Fault Plan := do
  if plan.phases.isEmpty then throw .emptyPlan
  let phases ← Phase.normalizeAll limits 1 plan.phases
  return { plan with phases := phases }

end Plan

end PhasedLoad
