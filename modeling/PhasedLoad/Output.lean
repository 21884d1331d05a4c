import PhasedLoad.Output.Lines
import PhasedLoad.Output.Prose

/-!
The two forms in which a plan, its phase executions and its run are shown.
-/

namespace PhasedLoad

inductive OutputForm
  | prose
  /-- Lines of JSON. -/
  | json
deriving DecidableEq

namespace OutputForm

def all : List OutputForm := [prose, json]

def name : OutputForm → String
  | prose => "human-readable"
  | json => "json"

def ofName? (s : String) : Option OutputForm := all.find? (·.name = s)

def plan (f : OutputForm) (p : Plan) (repeats : Repeats) (budget : Budget) : String :=
  match f with
  | prose => Output.planText p repeats budget
  | json => Output.planLine p repeats budget

def summary (f : OutputForm) (s : PhaseSummary) : String :=
  match f with
  | prose => Output.summaryText s
  | json => Output.summaryLine s

def report (f : OutputForm) (r : RunReport) : String :=
  match f with
  | prose => Output.reportText r
  | json => Output.reportLine r

theorem ofName?_name (f : OutputForm) : ofName? f.name = some f := by cases f <;> decide

end OutputForm

end PhasedLoad
