import PhasedLoad.Proofs.Order
import PhasedLoad.Proofs.Completion

/-! Phases in sequence: a run executes each of them as often as it may be before the next one. -/

namespace PhasedLoad

namespace Repeats

variable {r : Repeats} {phases current done : Nat}

/-- Every phase as often as it may be executed, one phase after the other from phase `i` on. -/
def blocksFrom (r : Repeats) (i phases : Nat) : List Nat :=
  (List.range' i (phases - i)).flatMap fun j => List.replicate (r.count j) j

def blocks (r : Repeats) (phases : Nat) : List Nat := r.blocksFrom 0 phases

theorem blocksFrom_of_lt {i : Nat} (h : i < phases) :
    r.blocksFrom i phases = List.replicate (r.count i) i ++ r.blocksFrom (i + 1) phases := by
  have hlength : phases - i = phases - (i + 1) + 1 := by omega
  rw [blocksFrom, hlength, List.range'_succ, List.flatMap_cons, blocksFrom]

theorem blocksFrom_self (r : Repeats) (phases : Nat) : r.blocksFrom phases phases = [] := by
  simp [blocksFrom]

/-- The counts when a phase in sequence was executed `done` times. -/
def doneUpTo (r : Repeats) (phases current done : Nat) : Executions :=
  (List.range phases).map fun j =>
    if j < current then r.count j else if j = current then done else 0

@[simp] theorem length_doneUpTo : (r.doneUpTo phases current done).length = phases := by
  simp [doneUpTo]

theorem hasBudget_doneUpTo {j : Nat} (hj : j < phases) (hcurrent : current ≤ j) :
    r.hasBudget (r.doneUpTo phases current done) j =
      decide ((if j = current then done else 0) < r.count j) := by
  have hlt : ¬ j < current := by omega
  simp [hasBudget, doneUpTo, hj, hlt]

theorem record_doneUpTo :
    (r.doneUpTo phases current done).record current = r.doneUpTo phases current (done + 1) := by
  apply List.ext_getElem (by simp [Executions.record])
  intro j hj _
  simp only [Executions.record, doneUpTo, List.getElem_modify, List.getElem_map,
    List.getElem_range]
  grind

theorem record_doneUpTo_succ :
    (r.doneUpTo phases current (r.count current)).record (current + 1) =
      r.doneUpTo phases (current + 1) 1 := by
  apply List.ext_getElem (by simp [Executions.record])
  intro j hj _
  simp only [Executions.record, doneUpTo, List.getElem_modify, List.getElem_map,
    List.getElem_range]
  grind

end Repeats

namespace Selector

variable {r : Repeats} {phases current done : Nat}

theorem nextPhase_sequence (r : Repeats) (current : Nat) (e : Executions) :
    sequence.nextPhase current r e =
      ((List.range' current (e.length - current)).find? (r.hasBudget e), sequence) := by
  simp [nextPhase, List.range_eq_range', List.drop_range']

theorem coming_sequence (hcurrent : current < phases) (hdone : done ≤ r.count current) :
    sequence.coming r current (r.doneUpTo phases current done) =
      List.replicate (r.count current - done) current ++ r.blocksFrom (current + 1) phases := by
  induction hleft : r.remaining (r.doneUpTo phases current done) using Nat.strongRecOn
    generalizing current done with
  | _ left ih =>
    have hlength : phases - current = phases - (current + 1) + 1 := by omega
    have hnext := nextPhase_sequence r current (r.doneUpTo phases current done)
    rw [Repeats.length_doneUpTo, hlength, List.range'_succ, List.find?_cons,
      Repeats.hasBudget_doneUpTo hcurrent (Nat.le_refl _), if_pos rfl] at hnext
    by_cases hkeeps : done < r.count current
    · -- the phase keeps its turn
      simp only [hkeeps, decide_true] at hnext
      have hlt := Repeats.remaining_record_lt (hasBudget_of_nextPhase hnext)
      rw [Repeats.record_doneUpTo, hleft] at hlt
      have hcount : r.count current - done = r.count current - (done + 1) + 1 := by omega
      rw [coming_of_some hnext, Repeats.record_doneUpTo, ih _ hlt hcurrent hkeeps rfl,
        hcount, List.replicate_succ, List.cons_append]
    · have hall : done = r.count current := by omega
      subst hall
      simp only [Nat.lt_irrefl, decide_false] at hnext
      by_cases hlast : current + 1 = phases
      · subst hlast
        rw [Nat.sub_self, List.range'_zero, List.find?_nil] at hnext
        simp [coming_of_none (congrArg Prod.fst hnext), Repeats.blocksFrom_self]
      · -- the next phase has all its repeats left
        have hcurrent' : current + 1 < phases := by omega
        have hlength' : phases - (current + 1) = phases - (current + 1 + 1) + 1 := by omega
        have hpos := r.count_pos (current + 1)
        rw [hlength', List.range'_succ, List.find?_cons,
          Repeats.hasBudget_doneUpTo hcurrent' (by omega), if_neg (by omega)] at hnext
        simp only [Nat.lt_of_lt_of_le Nat.zero_lt_one hpos, decide_true] at hnext
        have hlt := Repeats.remaining_record_lt (hasBudget_of_nextPhase hnext)
        rw [Repeats.record_doneUpTo_succ, hleft] at hlt
        have hcount : r.count (current + 1) = r.count (current + 1) - 1 + 1 := by omega
        rw [coming_of_some hnext, Repeats.record_doneUpTo_succ,
          ih _ hlt hcurrent' hpos rfl, Nat.sub_self, List.replicate_zero, List.nil_append,
          Repeats.blocksFrom_of_lt hcurrent', hcount, List.replicate_succ, List.cons_append,
          Nat.add_sub_cancel]

end Selector

namespace Campaign

open RunState

variable {σ : Type} {c : Campaign}

theorem course_sequence (hphases : c.plan.phases ≠ []) (w : World σ) :
    (start c .sequence w).course c = c.repeats.blocks c.phaseCount := by
  have hpos : 0 < c.phaseCount := List.length_pos_iff.mpr hphases
  have hstart : List.replicate c.phaseCount 0 = c.repeats.doneUpTo c.phaseCount 0 0 := by
    apply List.ext_getElem (by simp)
    intro j _ _
    simp [Repeats.doneUpTo]
  have hcount : c.repeats.count 0 = c.repeats.count 0 - 1 + 1 := by
    have := c.repeats.count_pos 0
    omega
  rw [course, start, hstart, Repeats.record_doneUpTo,
    Selector.coming_sequence hpos (c.repeats.count_pos 0), Repeats.blocks,
    Repeats.blocksFrom_of_lt hpos, Nat.zero_add, hcount, List.replicate_succ, List.cons_append,
    Nat.add_sub_cancel]

/-- A run in sequence executes its first phase as often as it may be, then the second one, and so
on. All of these executions are what a complete run consists of, and what starts in any run is a
first part of them. -/
theorem run_in_sequence (hphases : c.plan.phases ≠ []) (env : Environment σ) (turns : Nat)
    (outer : Option Instant) (w : World σ) :
    (∀ s i, Reaches env turns c (c.deadline outer w) (start c .sequence w) s →
      s.Starts c (c.deadline outer w) i →
      s.past.reverse.map (·.phase) ++ [i] <+: c.repeats.blocks c.phaseCount) ∧
    ∀ o, c.run env turns .sequence outer w = some o →
      o.executions.map (·.phase) <+: c.repeats.blocks c.phaseCount ∧
      ∀ report, o.ending = .finished report → report.ending = .completed →
        o.executions.map (·.phase) = c.repeats.blocks c.phaseCount := by
  have hfollows := run_follows_course hphases env turns .sequence outer w
  rw [course_sequence hphases w] at hfollows
  exact hfollows

theorem pair_in_sequence :
    pairReady.plan.phases ≠ [] ∧
    ∃ o report, pairReady.run (.orderly Target.scripted) 100 .sequence none (.start [] none) = some o ∧
      o.ending = .finished report ∧ report.ending = .completed ∧
      o.executions.map (·.phase) = [0, 0, 1] ∧
      pairReady.repeats.blocks pairReady.phaseCount = [0, 0, 1] := by
  have hphases : pairReady.plan.phases ≠ [] := by decide
  have hcheck : (pairReady.run (.orderly Target.scripted) 100 .sequence none (.start [] none)).map
      (·.ending) = some (.finished ⟨[2, 1], 3, .ofSecs 120, .completed⟩) := by
    decide +kernel
  obtain ⟨o, hrun, hending⟩ := Option.map_eq_some_iff.mp hcheck
  have horder := ((run_in_sequence hphases (.orderly Target.scripted) 100 none (.start [] none)).2 o
    hrun).2 _ hending rfl
  have hcourse : pairReady.repeats.blocks pairReady.phaseCount = [0, 0, 1] := by decide +kernel
  exact ⟨hphases, o, _, hrun, hending, rfl, horder.trans hcourse, hcourse⟩

end Campaign

end PhasedLoad
