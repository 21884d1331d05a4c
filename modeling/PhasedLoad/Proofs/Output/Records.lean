import PhasedLoad.Output.Lines
import PhasedLoad.Proofs.Json.Reading
import PhasedLoad.Text.Split

/-! What a program finds in the records about a plan and its run: each is an object in a line of its
own, and tells its kind. -/

namespace PhasedLoad

namespace Json

def member? (k : String) : Json → Option Json
  | object members => lookup k members
  | _ => none

def text? : Json → Option String
  | string s => some s
  | _ => none

def nat? : Json → Option Nat
  | number (.whole n) => n.toNat?
  | _ => none

def items : Json → List Json
  | array items => items
  | _ => []

theorem areWhole_eq_all (items : List Json) : areWhole items = items.all isWhole := by
  induction items with
  | nil => rfl
  | cons v items ih => rw [areWhole, ih, List.all_cons]

theorem haveWhole_eq_all (members : List (String × Json)) :
    haveWhole members = members.all (·.2.isWhole) := by
  induction members with
  | nil => rfl
  | cons m members ih => rw [haveWhole, ih, List.all_cons]

/-- A value that is an object is read back from its text, and that is one line. -/
structure IsRecord (r : Json) : Prop where
  line : '\n' ∉ r.chars
  object : ∃ members, r = object members ∧
    Document.read r.chars = ⟨.object (memberTrees members) true, true⟩

theorem isRecord_object {members : List (String × Json)} (h : haveWhole members = true) :
    IsRecord (object members) :=
  ⟨newline_not_mem_chars _ h, members, rfl, read_chars (v := object members) h⟩

end Json

namespace Output

open Json

@[simp] theorem isWhole_whole (n : Nat) : (whole n).isWhole = true := rfl
@[simp] theorem isWhole_millis (d : Duration) : (millis d).isWhole = true := rfl
@[simp] theorem nat?_whole (n : Nat) : (whole n).nat? = some n := rfl

theorem isRecord_planRecord (plan : Plan) (repeats : Repeats) (budget : Budget) :
    IsRecord (planRecord plan repeats budget) := by
  refine isRecord_object ?_
  have hphases : areWhole (plan.phases.mapIdx (phaseItem repeats budget)) = true := by
    rw [areWhole_eq_all, List.all_eq_true]
    intro item hitem
    obtain ⟨i, hi, rfl⟩ := List.mem_mapIdx.mp hitem
    rfl
  simp [haveWhole_eq_all, isWhole, hphases]

theorem isRecord_summaryRecord (s : PhaseSummary) : IsRecord (summaryRecord s) := by
  refine isRecord_object ?_
  have hcodes : haveWhole (s.codes.map codeItem) = true := by
    rw [haveWhole_eq_all, List.all_eq_true]
    intro item hitem
    obtain ⟨code, -, rfl⟩ := List.mem_map.mp hitem
    rfl
  simp [haveWhole, isWhole, hcodes]

theorem isRecord_reportRecord (r : RunReport) : IsRecord (reportRecord r) := by
  refine isRecord_object ?_
  have hexecutions : areWhole (r.executions.map whole) = true := by
    simp [areWhole_eq_all]
  simp [haveWhole, isWhole, hexecutions]

theorem toList_line (r : Json) : (line r).toList = r.chars ++ ['\n'] := by
  simp [line, compact]

theorem splitAll_lines {rs : List Json} (h : ∀ r ∈ rs, IsRecord r) :
    Text.splitAll '\n' (String.join (rs.map line)).toList = rs.map Json.chars ++ [[]] := by
  simp only [String.toList_join, List.flatMap_map, toList_line]
  induction rs with
  | nil => rfl
  | cons r rs ih =>
    simp only [List.forall_mem_cons] at h
    rw [List.flatMap_cons, List.append_assoc, List.singleton_append, Text.splitAll_append h.1.line,
      ih h.2, List.map_cons, List.cons_append]

def kind? (r : Json) : Option String := (r.member? "kind").bind text?

def ending? (r : Json) : Option String := (r.member? "end").bind text?

def isPhase (r : Json) : Bool := kind? r = some "phase"

/-- Of which execution a record about a phase is: the phase, from one, its name, and which execution
of it. -/
def started? (r : Json) : Option (Nat × String × Nat) :=
  if isPhase r then do
    let phase ← (← r.member? "phase").nat?
    let name ← (← r.member? "name").text?
    let execution ← (← r.member? "execution").nat?
    some (phase, name, execution)
  else none

def total? (r : Json) : Option Nat := (r.member? "total_executions").bind nat?

def executed (r : Json) : List (Option Nat) := ((r.member? "executions").getD .null).items.map nat?

def planned? (r : Json) : Option Nat := (r.member? "executions").bind nat?

def repeated (r : Json) : List (Option Nat) :=
  ((r.member? "phases").getD .null).items.map fun item => (item.member? "repeat").bind nat?

section

variable (plan : Plan) (repeats : Repeats) (budget : Budget) (s : PhaseSummary) (r : RunReport)

@[simp] theorem kind?_planRecord : kind? (planRecord plan repeats budget) = some "plan" := rfl
@[simp] theorem kind?_summaryRecord : kind? (summaryRecord s) = some "phase" := rfl
@[simp] theorem kind?_reportRecord : kind? (reportRecord r) = some "run" := rfl

@[simp] theorem isPhase_planRecord : isPhase (planRecord plan repeats budget) = false := rfl
@[simp] theorem isPhase_summaryRecord : isPhase (summaryRecord s) = true := rfl
@[simp] theorem isPhase_reportRecord : isPhase (reportRecord r) = false := rfl

@[simp] theorem ending?_summaryRecord : ending? (summaryRecord s) = some s.ending.name := rfl
@[simp] theorem ending?_reportRecord : ending? (reportRecord r) = some r.ending.name := rfl

@[simp] theorem started?_planRecord : started? (planRecord plan repeats budget) = none := rfl
@[simp] theorem started?_summaryRecord :
    started? (summaryRecord s) = some (s.phase + 1, s.name, s.execution) := rfl
@[simp] theorem started?_reportRecord : started? (reportRecord r) = none := rfl

@[simp] theorem total?_reportRecord : total? (reportRecord r) = some r.total := rfl
@[simp] theorem planned?_planRecord :
    planned? (planRecord plan repeats budget) = some budget.executions := rfl

@[simp] theorem executed_reportRecord : executed (reportRecord r) = r.executions.map some := by
  simp [executed, reportRecord, member?, lookup, items]

@[simp] theorem repeated_planRecord : repeated (planRecord plan repeats budget) =
    (List.range plan.phases.length).map fun i => some (repeats.count i) := by
  have hmember : (planRecord plan repeats budget).member? "phases" =
      some (.array (plan.phases.mapIdx (phaseItem repeats budget))) := by
    cases hruntime : budget.runtime <;> simp [planRecord, member?, lookup, hruntime]
  rw [repeated, hmember, Option.getD_some, items]
  refine List.ext_getElem (by simp) fun i _ _ => ?_
  simp [phaseItem, member?, lookup]

end

end Output

end PhasedLoad
