import PhasedLoad.Plan

/-!
How often each phase of a plan is executed: at least once, and at most as often as the limits allow.
-/

namespace PhasedLoad

/-- A number of executions for each phase, with exceptions to a common one. -/
structure Repeats where
  common : Nat
  /-- Phases with a number of their own, the latest first. -/
  special : List (Nat × Nat)
  common_pos : 1 ≤ common
  special_pos : ∀ p ∈ special, 1 ≤ p.2

namespace Repeats

def uniform (n : Nat) : Repeats :=
  ⟨max n 1, [], Nat.le_max_right n 1, by simp⟩

/-- With phase `i` executed `n` times, but at least once. -/
def set (r : Repeats) (i n : Nat) : Repeats :=
  { r with
    special := (i, max n 1) :: r.special
    special_pos := by
      intro p hp
      rcases List.mem_cons.1 hp with rfl | hp
      · exact Nat.le_max_right n 1
      · exact r.special_pos p hp }

def count (r : Repeats) (i : Nat) : Nat := (r.special.lookup i).getD r.common

theorem count_pos (r : Repeats) (i : Nat) : 1 ≤ r.count i := by
  unfold count
  cases h : r.special.lookup i with
  | none => exact r.common_pos
  | some n =>
    obtain ⟨l₁, l₂, h', -⟩ := List.lookup_eq_some_iff.1 h
    exact r.special_pos (i, n) (by rw [h']; simp)

def total (r : Repeats) (phases : Nat) : Nat :=
  (List.range phases).foldl (fun n i => n + r.count i) 0

theorem total_succ (r : Repeats) (n : Nat) : r.total (n + 1) = r.total n + r.count n := by
  simp [total, List.range_succ]

inductive Notice
  | unlimited (repeats : Nat)
  | overridden (repeats : Nat)
  /-- A phase, from one, asks for more than `max`. -/
  | capped (phase asked max : Nat)

/-- The repeats of phases in a plan, none above `max`, the first phase being number `i`. -/
def fromPhases (max : Nat) : Nat → List Phase → Repeats → Repeats × List Notice
  | _, [], r => (r, [])
  | i, p :: ps, r =>
    if max < p.repeats then
      let (r, notices) := fromPhases max (i + 1) ps (r.set i max)
      (r, .capped (i + 1) p.repeats max :: notices)
    else fromPhases max (i + 1) ps (r.set i p.repeats)

/-- The repeats of a plan, or those that take their place. -/
def ofPlan (plan : Plan) (override : RepeatsOverride) (limits : Limits) : Repeats × List Notice :=
  let most := max limits.maxRepeats 1
  match override with
  | .unlimited => (uniform most, [.unlimited most])
  | .fixed n => (uniform (min (max n 1) most), [.overridden (min (max n 1) most)])
  | .fromPlan => fromPhases most 0 plan.phases (uniform 1)

end Repeats

end PhasedLoad
