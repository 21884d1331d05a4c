import PhasedLoad.Campaign
import PhasedLoad.Duration.Span

/-!
What a person reads about a plan and its run.
-/

namespace PhasedLoad.Output

def lines (ls : List String) : String := String.join (ls.map (· ++ "\n"))

def phaseText (repeats : Repeats) (i : Nat) (p : Phase) : String :=
  "phase " ++ toString (i + 1) ++ ": " ++ p.name ++ " groups=" ++ toString p.workers.length ++
    " repeat=" ++ toString (repeats.count i)

def planText (plan : Plan) (repeats : Repeats) (budget : Budget) : String :=
  lines (["pattern: " ++ plan.pattern.name] ++ plan.phases.mapIdx (phaseText repeats) ++
    [budget.text, ""])

def codesText (codes : Histogram) : String :=
  if codes.isEmpty then "-"
  else " ".intercalate (codes.map fun c => toString c.1 ++ "=" ++ toString c.2.toNat)

def summaryText (s : PhaseSummary) : String :=
  lines
    ["phase " ++ toString (s.phase + 1) ++ " `" ++ s.name ++ "` (execution " ++
        toString s.execution ++ "): " ++ s.ending.name,
      "  took: " ++ s.elapsed.span,
      "  requests: " ++ toString s.requests.toNat ++ " (errors " ++ toString s.errors.toNat ++ ")",
      "  avg latency: " ++ s.meanLatency.single,
      "  status codes: " ++ codesText s.codes,
      ""]

def executionsText (i n : Nat) : String := "  phase " ++ toString (i + 1) ++ ": " ++ toString n

def reportText (r : RunReport) : String :=
  lines (("run " ++ r.ending.name ++ ": " ++ toString r.total ++ " phase executions in " ++
    r.elapsed.span) :: r.executions.mapIdx executionsText)

end PhasedLoad.Output
