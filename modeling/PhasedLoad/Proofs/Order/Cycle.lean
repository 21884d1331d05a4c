import PhasedLoad.Proofs.Order
import PhasedLoad.Proofs.Completion

/-! Phases in a cycle: a run goes round after round over those phases that have repeats left. -/

namespace PhasedLoad

namespace Repeats

theorem filter_range'_eq_cons {p : Nat → Bool} {a n i : Nat} {l : List Nat}
    (h : (List.range' a n).filter p = i :: l) :
    a ≤ i ∧ i < a + n ∧ p i = true ∧ (∀ j, a ≤ j → j < i → p j = false) ∧
      l = (List.range' (i + 1) (a + n - (i + 1))).filter p := by
  induction n generalizing a with
  | zero => simp at h
  | succ n ih =>
    rw [List.range'_succ, List.filter_cons] at h
    split at h
    · next ha =>
      cases h
      refine ⟨Nat.le_refl _, by omega, ha, fun j hj hlt => by omega, ?_⟩
      congr 2
      omega
    · next ha =>
      obtain ⟨hle, hlt, hi, hbefore, hl⟩ := ih h
      refine ⟨by omega, by omega, hi, fun j hj hji => ?_, ?_⟩
      · by_cases hja : j = a
        · subst hja
          simpa using ha
        · exact hbefore j (by omega) hji
      · rw [hl]
        congr 2
        omega

variable {r : Repeats} {phases k current : Nat}

/-- Round `k`, from zero, from phase `i` on: every phase that may be executed more than `k` times.
-/
def roundFrom (r : Repeats) (k i phases : Nat) : List Nat :=
  (List.range' i (phases - i)).filter fun j => k < r.count j

def most (r : Repeats) (phases : Nat) : Nat := ((List.range phases).map r.count).foldr max 0

def roundsFrom (r : Repeats) (k phases : Nat) : List Nat :=
  (List.range' k (r.most phases - k)).flatMap fun k => r.roundFrom k 0 phases

def rounds (r : Repeats) (phases : Nat) : List Nat := r.roundsFrom 0 phases

theorem count_le_most {i : Nat} (h : i < phases) : r.count i ≤ r.most phases :=
  List.le_max_of_le' 0 (List.mem_map_of_mem (List.mem_range.mpr h)) (Nat.le_refl _)

theorem roundFrom_eq_nil_iff {i : Nat} :
    r.roundFrom k i phases = [] ↔ ∀ j, i ≤ j → j < phases → r.count j ≤ k := by
  simp only [roundFrom, List.filter_eq_nil_iff, List.mem_range'_1, decide_eq_true_eq, Nat.not_lt]
  exact ⟨fun h j hij hj => h j ⟨hij, by omega⟩, fun h j hj => h j hj.1 (by omega)⟩

theorem roundFrom_eq_cons {i j : Nat} {l : List Nat} (h : r.roundFrom k i phases = j :: l) :
    i ≤ j ∧ j < phases ∧ k < r.count j ∧ (∀ m, i ≤ m → m < j → r.count m ≤ k) ∧
      l = r.roundFrom k (j + 1) phases := by
  obtain ⟨hij, hj, hcount, hbefore, hl⟩ := filter_range'_eq_cons h
  refine ⟨hij, by omega, by simpa using hcount, fun m hm hmj => by simpa using hbefore m hm hmj, ?_⟩
  rw [hl, roundFrom]
  congr 2
  omega

theorem roundFrom_skip {i : Nat} (hi : i ≤ phases) (h : ∀ j < i, r.count j ≤ k) :
    r.roundFrom k 0 phases = r.roundFrom k i phases := by
  have hsplit : List.range' 0 phases = List.range' 0 i ++ List.range' i (phases - i) := by
    have happend := @List.range'_append_1 0 i (phases - i)
    rw [Nat.zero_add, Nat.add_sub_cancel' hi] at happend
    exact happend.symm
  have hskipped : (List.range' 0 i).filter (fun j => decide (k < r.count j)) = [] := by
    simp only [List.filter_eq_nil_iff, List.mem_range'_1, decide_eq_true_eq, Nat.not_lt]
    exact fun j hj => h j (by omega)
  rw [roundFrom, Nat.sub_zero, hsplit, List.filter_append, hskipped, List.nil_append, roundFrom]

theorem roundFrom_first {i : Nat} (hi : i < phases) (hcount : k < r.count i)
    (hbefore : ∀ j < i, r.count j ≤ k) :
    r.roundFrom k 0 phases = i :: r.roundFrom k (i + 1) phases := by
  have hlength : phases - i = phases - (i + 1) + 1 := by omega
  rw [roundFrom_skip (Nat.le_of_lt hi) hbefore, roundFrom, hlength, List.range'_succ,
    List.filter_cons_of_pos (by simpa using hcount), roundFrom]

theorem roundsFrom_of_lt (h : k < r.most phases) :
    r.roundsFrom k phases = r.roundFrom k 0 phases ++ r.roundsFrom (k + 1) phases := by
  have hlength : r.most phases - k = r.most phases - (k + 1) + 1 := by omega
  rw [roundsFrom, hlength, List.range'_succ, List.flatMap_cons, roundsFrom]

theorem roundsFrom_eq_nil (h : ∀ j < phases, r.count j ≤ k) : r.roundsFrom k phases = [] := by
  simp only [roundsFrom, List.flatMap_eq_nil_iff, List.mem_range'_1]
  intro m hm
  exact roundFrom_eq_nil_iff.mpr fun j _ hj => Nat.le_trans (h j hj) hm.1

/-- The counts when phase `current` had its turn in round `k`. -/
def doneInRound (r : Repeats) (phases k current : Nat) : Executions :=
  (List.range phases).map fun j => min (r.count j) (if j ≤ current then k + 1 else k)

@[simp] theorem length_doneInRound : (r.doneInRound phases k current).length = phases := by
  simp [doneInRound]

theorem hasBudget_doneInRound {j : Nat} (hj : j < phases) :
    r.hasBudget (r.doneInRound phases k current) j =
      decide ((if j ≤ current then k + 1 else k) < r.count j) := by
  simp only [hasBudget, doneInRound, List.getElem?_map, List.getElem?_range hj, Option.map_some]
  grind

theorem record_doneInRound {i : Nat} (hi : current < i) (hcount : k < r.count i)
    (hbetween : ∀ j, current < j → j < i → r.count j ≤ k) :
    (r.doneInRound phases k current).record i = r.doneInRound phases k i := by
  apply List.ext_getElem (by simp [Executions.record])
  intro j hj _
  simp only [Executions.record, doneInRound, List.getElem_modify, List.getElem_map,
    List.getElem_range]
  grind

theorem record_doneInRound_succ {i : Nat} (hcount : k + 1 < r.count i)
    (hafter : ∀ j, current < j → j < phases → r.count j ≤ k)
    (hbefore : ∀ j < i, r.count j ≤ k + 1) (hi : i ≤ current) :
    (r.doneInRound phases k current).record i = r.doneInRound phases (k + 1) i := by
  apply List.ext_getElem (by simp [Executions.record])
  intro j hj _
  have hj : j < phases := by simpa [Executions.record] using hj
  have hafter := hafter j
  have hbefore := hbefore j
  simp only [Executions.record, doneInRound, List.getElem_modify, List.getElem_map,
    List.getElem_range]
  grind

end Repeats

namespace Selector

variable {r : Repeats} {phases k current : Nat}

theorem steps_eq (h : current < phases) :
    (List.range phases).map (fun step => (current + (step + 1)) % phases) =
      List.range' (current + 1) (phases - (current + 1)) ++ List.range' 0 (current + 1) := by
  apply List.ext_getElem (by simp; omega)
  intro j hj _
  have hj : j < phases := by simpa using hj
  simp only [List.getElem_map, List.getElem_range, List.getElem_append, List.length_range',
    List.getElem_range', Nat.one_mul]
  split
  · rw [Nat.mod_eq_of_lt (by omega)]
    omega
  · have hwrap : current + (j + 1) = 0 + (j - (phases - (current + 1))) + phases := by omega
    rw [hwrap, Nat.add_mod_right, Nat.mod_eq_of_lt (by omega)]

/-- The next phase in a cycle: the next one of this round, or the first one of the next round. -/
theorem nextPhase_cycle (h : current < phases) :
    (cycle.nextPhase current r (r.doneInRound phases k current)).1 =
      ((r.roundFrom k (current + 1) phases).head?).or
        (((List.range' 0 (current + 1)).filter fun j => k + 1 < r.count j).head?) := by
  have hrest : (List.range' (current + 1) (phases - (current + 1))).find?
      (r.hasBudget (r.doneInRound phases k current)) =
        (r.roundFrom k (current + 1) phases).head? := by
    rw [Repeats.roundFrom, ← List.head?_filter]
    refine congrArg List.head? (List.filter_congr fun j hj => ?_)
    rw [List.mem_range'_1] at hj
    rw [Repeats.hasBudget_doneInRound (by omega), if_neg (by omega)]
  have hagain : (List.range' 0 (current + 1)).find?
      (r.hasBudget (r.doneInRound phases k current)) =
        ((List.range' 0 (current + 1)).filter fun j => k + 1 < r.count j).head? := by
    rw [← List.head?_filter]
    refine congrArg List.head? (List.filter_congr fun j hj => ?_)
    rw [List.mem_range'_1] at hj
    rw [Repeats.hasBudget_doneInRound (by omega), if_pos (by omega)]
  rw [nextPhase, Repeats.length_doneInRound, steps_eq h, List.find?_append, hrest, hagain]

theorem coming_cycle (hcurrent : current < phases) :
    cycle.coming r current (r.doneInRound phases k current) =
      r.roundFrom k (current + 1) phases ++ r.roundsFrom (k + 1) phases := by
  induction hleft : r.remaining (r.doneInRound phases k current) using Nat.strongRecOn
    generalizing k current with
  | _ left ih =>
    have hnext := nextPhase_cycle (r := r) (k := k) hcurrent
    cases hround : r.roundFrom k (current + 1) phases with
    | cons i l =>
      -- the round goes on
      obtain ⟨hi, hlt, hcount, hbetween, rfl⟩ := Repeats.roundFrom_eq_cons hround
      rw [hround, List.head?_cons, Option.some_or] at hnext
      have hsome : cycle.nextPhase current r (r.doneInRound phases k current) = (some i, cycle) :=
        Prod.ext hnext rfl
      have hrecord : (r.doneInRound phases k current).record i = r.doneInRound phases k i :=
        Repeats.record_doneInRound hi hcount hbetween
      have hless := Repeats.remaining_record_lt (hasBudget_of_nextPhase hsome)
      rw [hrecord, hleft] at hless
      rw [coming_of_some hsome, hrecord, ih _ hless hlt rfl, List.cons_append]
    | nil =>
      have hafter := Repeats.roundFrom_eq_nil_iff.mp hround
      rw [hround, List.head?_nil, Option.none_or] at hnext
      cases hagain : (List.range' 0 (current + 1)).filter fun j => k + 1 < r.count j with
      | nil =>
        -- no phase has repeats left
        rw [hagain, List.head?_nil] at hnext
        have hbefore : ∀ j < phases, r.count j ≤ k + 1 := by
          intro j hj
          by_cases hjc : j ≤ current
          · have hnot := List.filter_eq_nil_iff.mp hagain j (by
              rw [List.mem_range'_1]
              omega)
            simpa using hnot
          · exact Nat.le_succ_of_le (hafter j (by omega) hj)
        rw [coming_of_none hnext, Repeats.roundsFrom_eq_nil hbefore, List.append_nil]
      | cons i l =>
        -- the next round starts
        obtain ⟨-, hi, hcount, hbefore, -⟩ := Repeats.filter_range'_eq_cons hagain
        simp only [Nat.zero_add, Nat.zero_le, decide_eq_true_eq, decide_eq_false_iff_not,
          Nat.not_lt, forall_const] at hi hcount hbefore
        rw [hagain, List.head?_cons] at hnext
        have hsome : cycle.nextPhase current r (r.doneInRound phases k current) =
            (some i, cycle) := Prod.ext hnext rfl
        have hrecord := Repeats.record_doneInRound_succ hcount hafter hbefore (by omega)
        have hless := Repeats.remaining_record_lt (hasBudget_of_nextPhase hsome)
        rw [hrecord, hleft] at hless
        have hlt : i < phases := by omega
        have hmost : k + 1 < r.most phases := Nat.lt_of_lt_of_le hcount (Repeats.count_le_most hlt)
        rw [coming_of_some hsome, hrecord, ih _ hless hlt rfl, Repeats.roundsFrom_of_lt hmost,
          Repeats.roundFrom_first hlt hcount hbefore, List.nil_append, List.cons_append]

end Selector

namespace Campaign

open RunState

variable {σ : Type} {c : Campaign}

theorem course_cycle (hphases : c.plan.phases ≠ []) (w : World σ) :
    (start c .cycle w).course c = c.repeats.rounds c.phaseCount := by
  have hpos : 0 < c.phaseCount := List.length_pos_iff.mpr hphases
  have hcount : 0 < c.repeats.count 0 := c.repeats.count_pos 0
  have hrecord : Executions.record (List.replicate c.phaseCount 0) 0 =
      c.repeats.doneInRound c.phaseCount 0 0 := by
    apply List.ext_getElem (by simp [Executions.record])
    intro j _ _
    simp only [Executions.record, Repeats.doneInRound, List.getElem_modify, List.getElem_map,
      List.getElem_range, List.getElem_replicate]
    grind
  have hmost : 0 < c.repeats.most c.phaseCount :=
    Nat.lt_of_lt_of_le hcount (Repeats.count_le_most hpos)
  rw [course, start, hrecord, Selector.coming_cycle hpos, Repeats.rounds,
    Repeats.roundsFrom_of_lt hmost, Repeats.roundFrom_first hpos hcount (by simp), List.cons_append]

/-- A run in a cycle executes in round `k` every phase that may be executed more than `k` times, in
plan order, and goes on with round `k + 1`. All of these executions are what a complete run consists
of, and what starts in any run is a first part of them. -/
theorem run_in_cycle (hphases : c.plan.phases ≠ []) (env : Environment σ) (turns : Nat)
    (outer : Option Instant) (w : World σ) :
    (∀ s i, Reaches env turns c (c.deadline outer w) (start c .cycle w) s →
      s.Starts c (c.deadline outer w) i →
      s.past.reverse.map (·.phase) ++ [i] <+: c.repeats.rounds c.phaseCount) ∧
    ∀ o, c.run env turns .cycle outer w = some o →
      o.executions.map (·.phase) <+: c.repeats.rounds c.phaseCount ∧
      ∀ report, o.ending = .finished report → report.ending = .completed →
        o.executions.map (·.phase) = c.repeats.rounds c.phaseCount := by
  have hfollows := run_follows_course hphases env turns .cycle outer w
  rw [course_cycle hphases w] at hfollows
  exact hfollows

theorem pair_in_cycle :
    pairReady.plan.phases ≠ [] ∧
    ∃ o report, pairReady.run (.orderly Target.scripted) 100 .cycle none (.start [] none) = some o ∧
      o.ending = .finished report ∧ report.ending = .completed ∧
      o.executions.map (·.phase) = [0, 1, 0] ∧
      pairReady.repeats.rounds pairReady.phaseCount = [0, 1, 0] := by
  have hphases : pairReady.plan.phases ≠ [] := by decide
  obtain ⟨o, hrun, hending⟩ := pair_finishes
  have horder := ((run_in_cycle hphases (.orderly Target.scripted) 100 none (.start [] none)).2 o
    hrun).2 _ hending rfl
  have hcourse : pairReady.repeats.rounds pairReady.phaseCount = [0, 1, 0] := by decide +kernel
  exact ⟨hphases, o, _, hrun, hending, rfl, horder.trans hcourse, hcourse⟩

end Campaign

end PhasedLoad
