import PhasedLoad.Pattern
import PhasedLoad.Random.Choice
import PhasedLoad.Repeats

/-!
Which phase runs next. A phase may run while it has repeats left; a selector finds one such phase,
or none if no phase that it looks at has any.
-/

namespace PhasedLoad

/-- How often each phase was executed, in plan order. -/
abbrev Executions := List Nat

def Executions.record (e : Executions) (i : Nat) : Executions := e.modify i (· + 1)

namespace Repeats

def hasBudget (r : Repeats) (e : Executions) (i : Nat) : Bool :=
  match e[i]? with
  | some done => done < r.count i
  | none => false

theorem hasBudget_iff {r : Repeats} {e : Executions} {i : Nat} :
    r.hasBudget e i = true ↔ ∃ h : i < e.length, e[i] < r.count i := by
  by_cases h : i < e.length
  · simp [hasBudget, h]
  · simp [hasBudget, h]

def eligible (r : Repeats) (e : Executions) : List Nat :=
  (List.range e.length).filter (r.hasBudget e)

def isComplete (r : Repeats) (e : Executions) : Bool :=
  (List.range e.length).all fun i => !r.hasBudget e i

def remainingFrom (r : Repeats) : Nat → Executions → Nat
  | _, [] => 0
  | i, done :: rest => (r.count i - done) + remainingFrom r (i + 1) rest

def remaining (r : Repeats) (e : Executions) : Nat := r.remainingFrom 0 e

theorem remainingFrom_record {r : Repeats} {e : Executions} {i j : Nat} {done : Nat}
    (h : e[j]? = some done) (hlt : done < r.count (i + j)) :
    r.remainingFrom i (e.record j) + 1 = r.remainingFrom i e := by
  induction e generalizing i j with
  | nil => simp at h
  | cons d e ih =>
    cases j with
    | zero =>
      simp only [List.getElem?_cons_zero, Option.some.injEq] at h
      subst h
      simp only [Executions.record, List.modify_zero_cons, remainingFrom, Nat.add_zero] at hlt ⊢
      omega
    | succ j =>
      have hrest := ih (i := i + 1) (j := j) (by simpa using h)
        (by simpa [Nat.add_assoc, Nat.add_comm 1 j] using hlt)
      simp only [Executions.record, List.modify_succ_cons, remainingFrom] at hrest ⊢
      omega

theorem remaining_record {r : Repeats} {e : Executions} {i : Nat} (h : r.hasBudget e i = true) :
    r.remaining (e.record i) + 1 = r.remaining e := by
  obtain ⟨hi, hlt⟩ := hasBudget_iff.mp h
  exact remainingFrom_record (List.getElem?_eq_getElem hi) (by simpa using hlt)

theorem remaining_record_lt {r : Repeats} {e : Executions} {i : Nat}
    (h : r.hasBudget e i = true) : r.remaining (e.record i) < r.remaining e := by
  have := remaining_record h
  omega

end Repeats

inductive Selector
  | sequence
  | cycle
  | random (chooser : Random.Chooser)

namespace Selector

def ofPattern (chooser : Random.Chooser) : Pattern → Selector
  | .sequence => sequence
  | .cycle => cycle
  | .random => random chooser

/-- The phase after `current`: the first with repeats left from `current` on, the first with repeats
left after `current` in turn, or any phase with repeats left. -/
def nextPhase (s : Selector) (current : Nat) (r : Repeats) (e : Executions) :
    Option Nat × Selector :=
  match s with
  | sequence =>
    (((List.range e.length).drop current).find? (r.hasBudget e), sequence)
  | cycle =>
    (((List.range e.length).map fun step => (current + (step + 1)) % e.length).find?
      (r.hasBudget e), cycle)
  | random chooser =>
    let phases := r.eligible e
    if phases.isEmpty then (none, random chooser)
    else
      let (i, chooser) := chooser.choose phases.length Random.Chooser.patience
      (phases[i]?, random chooser)

/-- Whether the turn of `current` is over: a phase in sequence keeps it to its last repeat. -/
def shouldAdvance (s : Selector) (current : Nat) (r : Repeats) (e : Executions) : Bool :=
  match s with
  | sequence => !r.hasBudget e current
  | cycle | random _ => true

/-- Picks phases, executes them and goes on from them until there is none, for at most `turns`
turns. -/
def drain (r : Repeats) : Nat → Selector → Nat → Executions → List Nat × Executions × Selector
  | 0, s, _, e => ([], e, s)
  | turns + 1, s, current, e =>
    match s.nextPhase current r e with
    | (some i, s) =>
      let (picks, e, s) := drain r turns s i (e.record i)
      (i :: picks, e, s)
    | (none, s) => ([], e, s)

theorem hasBudget_of_nextPhase {s s' : Selector} {current i : Nat} {r : Repeats} {e : Executions}
    (h : s.nextPhase current r e = (some i, s')) : r.hasBudget e i = true := by
  cases s with
  | sequence =>
    simp only [nextPhase, Prod.mk.injEq] at h
    exact List.find?_some h.1
  | cycle =>
    simp only [nextPhase, Prod.mk.injEq] at h
    exact List.find?_some h.1
  | random chooser =>
    simp only [nextPhase] at h
    split at h
    · simp at h
    · simp only [Prod.mk.injEq] at h
      have hi := List.mem_of_getElem? h.1
      simp only [Repeats.eligible, List.mem_filter] at hi
      exact hi.2

end Selector

end PhasedLoad
