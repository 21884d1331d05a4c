import Mathlib.Algebra.BigOperators.Ring.Finset
import Mathlib.Data.List.MinMax
import PhasedLoad.Selector

/-! What is left of the repeats of a plan, and what it means that a selector finds no phase. -/

namespace PhasedLoad

namespace Repeats

variable {r : Repeats} {e : Executions}

theorem total_eq_sum (r : Repeats) (n : Nat) :
    r.total n = ((List.range n).map r.count).sum := by
  induction n with
  | zero => rfl
  | succ n ih =>
    rw [total_succ, ih, List.range_succ, List.map_append, List.sum_append, List.map_singleton,
      List.sum_singleton]

theorem remainingFrom_replicate (r : Repeats) (i n : Nat) :
    r.remainingFrom i (List.replicate n 0) =
      ((List.range' i n).map r.count).sum := by
  induction n generalizing i with
  | zero => rfl
  | succ n ih => simp [List.replicate_succ, List.range'_succ, remainingFrom, ih]

theorem remaining_replicate (r : Repeats) (n : Nat) :
    r.remaining (List.replicate n 0) = r.total n := by
  rw [remaining, remainingFrom_replicate, total_eq_sum, List.range_eq_range']

theorem remaining_pos {i : Nat} (h : r.hasBudget e i = true) : 0 < r.remaining e := by
  have hrecord := remaining_record h
  omega

theorem lt_length_of_hasBudget {i : Nat} (h : r.hasBudget e i = true) : i < e.length :=
  (hasBudget_iff.mp h).1

theorem lt_count_of_hasBudget {i : Nat} (h : r.hasBudget e i = true) : e.getD i 0 < r.count i := by
  obtain ⟨hi, hlt⟩ := hasBudget_iff.mp h
  simpa [List.getD_eq_getElem?_getD, List.getElem?_eq_getElem hi] using hlt

theorem hasBudget_replicate {n i : Nat} (h : i < n) :
    r.hasBudget (List.replicate n 0) i = true := by
  have hcount := r.count_pos i
  exact hasBudget_iff.mpr ⟨by simpa using h, by simp; omega⟩

theorem hasBudget_record_of_ne {i j : Nat} (h : i ≠ j) :
    r.hasBudget (e.record i) j = r.hasBudget e j := by
  simp [hasBudget, Executions.record, h]

/-- No phase was executed more often than it may be. -/
def Within (r : Repeats) (e : Executions) : Prop := ∀ i, e.getD i 0 ≤ r.count i

theorem within_replicate (r : Repeats) (n : Nat) : r.Within (List.replicate n 0) := by
  intro i
  by_cases h : i < n <;> simp [List.getD_eq_getElem?_getD, h]

theorem Within.record (h : r.Within e) {i : Nat} (hi : r.hasBudget e i = true) :
    r.Within (e.record i) := by
  intro j
  by_cases hj : i = j
  · subst hj
    obtain ⟨hlen, hlt⟩ := hasBudget_iff.mp hi
    simpa [List.getD_eq_getElem?_getD, Executions.record, List.getElem?_modify,
      List.getElem?_eq_getElem hlen] using Nat.succ_le_of_lt hlt
  · have := h j
    simpa [List.getD_eq_getElem?_getD, Executions.record, List.getElem?_modify, hj] using this

theorem Within.eq_map_count (h : r.Within e) (hnone : ∀ i, r.hasBudget e i = false) :
    e = (List.range e.length).map r.count := by
  apply List.ext_getElem (by simp)
  intro i hi _
  have hle := h i
  have hge : r.count i ≤ e[i] := by
    have := hnone i
    simpa [hasBudget, List.getElem?_eq_getElem hi] using this
  simp only [List.getD_eq_getElem?_getD, List.getElem?_eq_getElem hi, Option.getD_some] at hle
  simp only [List.getElem_map, List.getElem_range]
  omega

end Repeats

namespace Selector

variable {s : Selector} {current : Nat} {r : Repeats} {e : Executions}

theorem eq_sequence_of_nextPhase (h : (s.nextPhase current r e).2 = .sequence) :
    s = .sequence := by
  cases s with
  | sequence => rfl
  | cycle => cases h
  | random chooser =>
    simp only [nextPhase] at h
    split at h <;> cases h

theorem passed_of_nextPhase {i j : Nat}
    (h : (sequence.nextPhase current r e).1 = some i) (hj : current ≤ j) (hji : j < i) :
    r.hasBudget e j = false := by
  simp only [nextPhase, List.find?_eq_some_iff_getElem] at h
  obtain ⟨-, k, hk, hget, hbefore⟩ := h
  simp only [List.getElem_drop, List.getElem_range] at hget
  have hpassed := hbefore (j - current) (by omega)
  simp only [List.getElem_drop, List.getElem_range] at hpassed
  rw [Nat.add_sub_cancel' hj] at hpassed
  simpa using hpassed

theorem hasBudget_of_sequence_none (h : (sequence.nextPhase current r e).1 = none) {i : Nat}
    (hi : current ≤ i) : r.hasBudget e i = false := by
  by_cases hlen : i < e.length
  · simp only [nextPhase, List.find?_eq_none] at h
    have hmem : i ∈ (List.range e.length).drop current :=
      List.mem_drop_iff_getElem.mpr ⟨i - current, by simp; omega, by simp [Nat.add_sub_cancel' hi]⟩
    simpa using h i hmem
  · simp [Repeats.hasBudget, List.getElem?_eq_none (Nat.le_of_not_lt hlen)]

theorem exists_step_eq {n i : Nat} (current : Nat) (hi : i < n) :
    ∃ step < n, (current + (step + 1)) % n = i := by
  have hmod : current % n < n := Nat.mod_lt _ (by omega)
  have hsplit := Nat.div_add_mod current n
  refine ⟨(n - 1 - current % n + i) % n, Nat.mod_lt _ (by omega), ?_⟩
  calc (current + ((n - 1 - current % n + i) % n + 1)) % n
      = (current % n + (n - 1 - current % n + i + 1)) % n := by
        simp [Nat.add_mod]
    _ = (i + n) % n := by congr 1; omega
    _ = i := by rw [Nat.add_mod_right, Nat.mod_eq_of_lt hi]

theorem hasBudget_of_cycle_none (h : (cycle.nextPhase current r e).1 = none) (i : Nat) :
    r.hasBudget e i = false := by
  by_cases hlen : i < e.length
  · obtain ⟨step, hstep, rfl⟩ := exists_step_eq current hlen
    simp only [nextPhase, List.find?_eq_none, List.mem_map, List.mem_range] at h
    simpa using h _ ⟨step, hstep, rfl⟩
  · simp [Repeats.hasBudget, List.getElem?_eq_none (Nat.le_of_not_lt hlen)]

theorem hasBudget_of_random_none {chooser : Random.Chooser}
    (h : ((random chooser).nextPhase current r e).1 = none) (i : Nat) :
    r.hasBudget e i = false := by
  have heligible : r.eligible e = [] := by
    simp only [nextPhase] at h
    split at h
    · next hempty => simpa using hempty
    · next hne =>
      have hpos : 0 < (r.eligible e).length := by
        simpa [List.length_pos_iff] using hne
      have hlt := Random.Chooser.choose_lt hpos Random.Chooser.patience chooser
      simp [hlt] at h
  cases hi : r.hasBudget e i with
  | false => rfl
  | true =>
    have hmem : i ∈ r.eligible e := by
      simp only [Repeats.eligible, List.mem_filter, List.mem_range]
      exact ⟨Repeats.lt_length_of_hasBudget hi, hi⟩
    simp [heligible] at hmem

/-- A selector that finds no phase has looked at all with repeats left; in sequence those before the
current one must be used up. -/
theorem hasBudget_of_nextPhase_none (h : (s.nextPhase current r e).1 = none)
    (hs : s = .sequence → ∀ j < current, r.hasBudget e j = false) (i : Nat) :
    r.hasBudget e i = false := by
  cases s with
  | sequence =>
    by_cases hi : current ≤ i
    · exact hasBudget_of_sequence_none h hi
    · exact hs rfl i (by omega)
  | cycle => exact hasBudget_of_cycle_none h i
  | random chooser => exact hasBudget_of_random_none h i

end Selector

end PhasedLoad
