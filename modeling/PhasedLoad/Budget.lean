import PhasedLoad.Repeats

/-!
How long each execution of each phase of a plan may take: as long as its groups work, or its share
of the time that the whole run should take.
-/

namespace PhasedLoad

structure Budget where
  limits : Limits
  /-- The time the whole run should take, if one was asked for. -/
  runtime : Option Duration
  /-- That time, brought within what the executions can take. -/
  adjusted : Option Duration
  /-- How many executions there are, at least one. -/
  executions : Nat
  /-- The executions of each phase. -/
  repeats : List Nat
  /-- How long the groups of each phase work. -/
  intrinsic : List Duration

namespace Budget

/-- A runtime within `executions` times the bounds of a phase. -/
def adjust (limits : Limits) (executions : Nat) (runtime : Duration) : Duration :=
  (runtime.max (limits.minPhase.mulWithin64 executions)).min
    (limits.maxPhase.mulWithin64 executions)

def workOf (limits : Limits) (p : Phase) : Duration :=
  Duration.sum (p.workers.map (·.effectiveDuration limits))

/-- The budget of a plan; a runtime of zero counts as none. -/
def ofPlan (runtime : Option Duration) (plan : Plan) (repeats : Repeats) (limits : Limits) :
    Budget :=
  let phases := plan.phases.length
  let executions := max (repeats.total phases) 1
  let runtime := runtime.filter fun d => !d.isZero
  { limits := limits
    runtime := runtime
    adjusted := runtime.map (adjust limits executions)
    executions := executions
    repeats := (List.range phases).map repeats.count
    intrinsic := plan.phases.map (workOf limits) }

def phaseCount (b : Budget) : Nat := b.intrinsic.length

def phase (b : Budget) (i : Nat) : Duration :=
  match b.intrinsic[i]? with
  | none => b.limits.minPhase
  | some work => b.limits.clamp (match b.adjusted with
    | some d => d.divWithin64 b.executions
    | none => work)

def repeatsOf (b : Budget) (i : Nat) : Nat := b.repeats.getD i 1

def phaseTotal (b : Budget) (i : Nat) : Duration := (b.phase i).mul (b.repeatsOf i)

def total (b : Budget) : Duration :=
  match b.adjusted with
  | some d => d
  | none => Duration.sum ((List.range b.phaseCount).map b.phaseTotal)

/-- What the runtime asked for became, if it is not what was asked for. -/
def adjustment? (b : Budget) : Option (Duration × Duration) :=
  match b.runtime, b.adjusted with
  | some asked, some given => if asked = given then none else some (asked, given)
  | _, _ => none

def runtimeLine (b : Budget) : List String :=
  match b.runtime, b.adjusted with
  | some asked, some given =>
    if asked = given then ["runtime: " ++ asked.exact]
    else ["runtime: " ++ given.exact ++ " (adjusted from " ++ asked.exact ++
      " to fit phase limits)"]
  | _, _ => []

def phaseLine (b : Budget) (i : Nat) : String :=
  "phase " ++ toString (i + 1) ++ ": " ++ (b.phase i).exact ++ " x " ++ toString (b.repeatsOf i) ++
    " = " ++ (b.phaseTotal i).exact

def lines (b : Budget) : List String :=
  b.runtimeLine ++ (List.range b.phaseCount).map b.phaseLine ++ ["total: " ++ b.total.exact]

def text (b : Budget) : String := "\n".intercalate b.lines

end Budget

end PhasedLoad
