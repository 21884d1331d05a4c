import PhasedLoad.Json.Printer
import PhasedLoad.Log
import PhasedLoad.Selector

/-!
A plan made ready to run: normal, with its repeats, its budget and the texts of its requests.
-/

namespace PhasedLoad

structure Requests where
  setup : Option String
  workload : String
  teardown : Option String
deriving DecidableEq

/-- A phase without workload sends empty objects. -/
def Requests.ofPhase (p : Phase) : Requests :=
  { setup := p.setup.map Json.compact
    workload := (p.workload.map Json.compact).getD "\x7b\x7d"
    teardown := p.teardown.map Json.compact }

structure Campaign where
  plan : Plan
  settings : RunSettings
  repeats : Repeats
  budget : Budget

namespace Campaign

def overrideEvents (plan : Plan) (settings : RunSettings) : List LogEvent :=
  match settings.pattern with
  | some p => if p = plan.pattern then [] else [.patternOverridden plan.pattern p]
  | none => []

/-- The plan made ready under the settings, and what is logged on the way. -/
def prepare (plan : Plan) (settings : RunSettings) :
    List LogEvent × Except Fault Campaign :=
  match settings.validate with
  | .error f => ([], .error f)
  | .ok () =>
    let events := overrideEvents plan settings
    match (plan.withPattern settings.pattern).normalize settings.limits with
    | .error f => (events, .error f)
    | .ok plan =>
      let (repeats, notices) := Repeats.ofPlan plan settings.repeats settings.limits
      let budget := Budget.ofPlan settings.runtime plan repeats settings.limits
      (events ++ notices.map .repeats, .ok ⟨plan, settings, repeats, budget⟩)

def phaseCount (c : Campaign) : Nat := c.plan.phases.length

def requests (c : Campaign) (i : Nat) : Requests := .ofPhase (c.plan.phases.getD i default)

/-- How many executions there are at most. -/
def executions (c : Campaign) : Nat := c.repeats.total c.phaseCount

def phaseEvent (c : Campaign) (i : Nat) (p : Phase) : LogEvent :=
  .phasePlanned (i + 1) p.name p.workers.length (c.repeats.count i) (c.budget.phase i)
    (c.budget.phaseTotal i)

def overview (c : Campaign) : List LogEvent :=
  LogEvent.planLoaded c.plan.pattern c.phaseCount c.budget.executions c.budget.total ::
    (c.budget.adjustment?.map fun (asked, given) => LogEvent.runtimeAdjusted asked given).toList ++
    c.plan.phases.mapIdx c.phaseEvent

end Campaign

end PhasedLoad
