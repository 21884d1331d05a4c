import PhasedLoad.Campaign

/-!
What a program reads about a plan and its run: one JSON object a line, whose kind comes first. Times
are in whole milliseconds, mean latencies in whole microseconds.
-/

namespace PhasedLoad.Output

/-- A number that has to fit 64 bits, or the largest that does. -/
def within64 (n : Nat) : Nat := min n (2 ^ 64 - 1)

def whole (n : Nat) : Json := .number (.whole n)

def millis (d : Duration) : Json := whole (within64 d.millis)

def line (v : Json) : String := v.compact ++ "\n"

def phaseItem (repeats : Repeats) (budget : Budget) (i : Nat) (p : Phase) : Json :=
  .object
    [("name", .string p.name), ("groups", whole p.workers.length),
      ("repeat", whole (repeats.count i)), ("duration_ms", millis (budget.phase i)),
      ("total_duration_ms", millis (budget.phaseTotal i))]

def planRecord (plan : Plan) (repeats : Repeats) (budget : Budget) : Json :=
  .object
    ([("kind", .string "plan"), ("pattern", .string plan.pattern.name),
      ("executions", whole budget.executions), ("total_duration_ms", millis budget.total)] ++
      (budget.runtime.map fun d => ("requested_runtime_ms", millis d)).toList ++
      [("phases", .array (plan.phases.mapIdx (phaseItem repeats budget)))])

def planLine (plan : Plan) (repeats : Repeats) (budget : Budget) : String :=
  line (planRecord plan repeats budget)

def codeItem (c : Nat × UInt64) : String × Json := (toString c.1, whole c.2.toNat)

def summaryRecord (s : PhaseSummary) : Json :=
  .object
    [("kind", .string "phase"), ("phase", whole (s.phase + 1)), ("name", .string s.name),
      ("execution", whole s.execution), ("end", .string s.ending.name),
      ("elapsed_ms", millis s.elapsed), ("requests", whole s.requests.toNat),
      ("errors", whole s.errors.toNat),
      ("latency_mean_us", whole (within64 s.meanLatency.micros)),
      ("status_codes", .object (s.codes.map codeItem))]

def summaryLine (s : PhaseSummary) : String := line (summaryRecord s)

def reportRecord (r : RunReport) : Json :=
  .object
    [("kind", .string "run"), ("end", .string r.ending.name),
      ("total_executions", whole r.total), ("executions", .array (r.executions.map whole)),
      ("elapsed_ms", millis r.elapsed)]

def reportLine (r : RunReport) : String := line (reportRecord r)

end PhasedLoad.Output
