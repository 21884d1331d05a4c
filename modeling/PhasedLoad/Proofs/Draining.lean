import Mathlib.Algebra.BigOperators.Group.Finset.Basic
import PhasedLoad.Proofs.Repeats

/-! Picking phase after phase until there is none. From any counts and any phase on, a selector
picks each phase that it looks at as often as that has repeats left, and no other phase. -/

namespace PhasedLoad

namespace Repeats

variable {r : Repeats} {e : Executions} {i j : Nat}

def left (r : Repeats) (e : Executions) (i : Nat) : Nat :=
  match e[i]? with
  | some done => r.count i - done
  | none => 0

theorem left_eq_zero_iff : r.left e i = 0 ↔ r.hasBudget e i = false := by
  unfold left hasBudget
  cases e[i]? with
  | none => simp
  | some done => simp [Nat.sub_eq_zero_iff_le]

theorem left_record (h : r.hasBudget e j = true) (i : Nat) :
    r.left e i = r.left (e.record j) i + if i = j then 1 else 0 := by
  by_cases hij : i = j
  · subst hij
    obtain ⟨hi, hlt⟩ := hasBudget_iff.mp h
    simp only [left, Executions.record, List.getElem?_modify, List.getElem?_eq_getElem hi, if_pos,
      Option.map_eq_map, Option.map_some]
    omega
  · simp [left, Executions.record, Ne.symm hij, hij]

theorem left_of_length_le (h : e.length ≤ i) : r.left e i = 0 := by
  simp [left, List.getElem?_eq_none h]

theorem isComplete_iff : r.isComplete e = true ↔ ∀ i, r.hasBudget e i = false := by
  simp only [isComplete, List.all_eq_true, List.mem_range, Bool.not_eq_true']
  refine ⟨fun h i => ?_, fun h i _ => h i⟩
  by_cases hi : i < e.length
  · exact h i hi
  · simp [hasBudget, List.getElem?_eq_none (Nat.le_of_not_lt hi)]

end Repeats

namespace Selector

variable {r : Repeats} {s s' : Selector} {current i j : Nat} {e : Executions} {picks : List Nat}

/-- How often phase `i` is to be picked from phase `current` on; in sequence no phase before that
one is looked at. -/
def due (s : Selector) (r : Repeats) (current : Nat) (e : Executions) (i : Nat) : Nat :=
  match s with
  | sequence => if i < current then 0 else r.left e i
  | cycle | random _ => r.left e i

/-- Phases are picked and executed, each time from the last one on, until there is none. -/
inductive Drains (r : Repeats) : Selector → Nat → Executions → List Nat → Prop
  | done {s s' : Selector} {current : Nat} {e : Executions}
      (next : s.nextPhase current r e = (none, s')) : Drains r s current e []
  | pick {s s' : Selector} {current i : Nat} {e : Executions} {picks : List Nat}
      (next : s.nextPhase current r e = (some i, s')) (rest : Drains r s' i (e.record i) picks) :
      Drains r s current e (i :: picks)

theorem le_of_nextPhase (h : (sequence.nextPhase current r e).1 = some i) : current ≤ i := by
  have hmem := List.mem_of_find?_eq_some h
  obtain ⟨k, hk, rfl⟩ := List.mem_drop_iff_getElem.mp hmem
  simp

theorem exists_random_of_nextPhase {chooser : Random.Chooser} {pick : Option Nat}
    (h : (random chooser).nextPhase current r e = (pick, s')) :
    ∃ chooser', s' = random chooser' := by
  simp only [nextPhase] at h
  split at h
  · exact ⟨_, (congrArg Prod.snd h).symm⟩
  · exact ⟨_, (congrArg Prod.snd h).symm⟩

theorem due_of_none (h : (s.nextPhase current r e).1 = none) (i : Nat) :
    s.due r current e i = 0 := by
  cases s with
  | sequence =>
    by_cases hbefore : i < current
    · exact if_pos hbefore
    · have hnone := hasBudget_of_sequence_none h (Nat.le_of_not_lt hbefore)
      exact (if_neg hbefore).trans (Repeats.left_eq_zero_iff.mpr hnone)
  | cycle => exact Repeats.left_eq_zero_iff.mpr (hasBudget_of_cycle_none h i)
  | random chooser => exact Repeats.left_eq_zero_iff.mpr (hasBudget_of_random_none h i)

/-- A pick is one of those that were to come; the others still are. -/
theorem due_of_some (h : s.nextPhase current r e = (some j, s')) (i : Nat) :
    s.due r current e i = s'.due r j (e.record j) i + if i = j then 1 else 0 := by
  have hbudget := hasBudget_of_nextPhase h
  have hleft := Repeats.left_record hbudget i
  have hpick := congrArg Prod.fst h
  cases s with
  | sequence =>
    obtain rfl : sequence = s' := congrArg Prod.snd h
    have hle := le_of_nextPhase hpick
    by_cases hbefore : i < current
    · have hlt := Nat.lt_of_lt_of_le hbefore hle
      simp [due, hbefore, hlt, Nat.ne_of_lt hlt]
    · by_cases hpassed : i < j
      · have hnone := passed_of_nextPhase hpick (Nat.le_of_not_lt hbefore) hpassed
        simp [due, hpassed, Nat.ne_of_lt hpassed, Repeats.left_eq_zero_iff.mpr hnone]
      · simpa [due, hbefore, hpassed] using hleft
  | cycle =>
    obtain rfl : cycle = s' := congrArg Prod.snd h
    exact hleft
  | random chooser =>
    obtain ⟨chooser', rfl⟩ := exists_random_of_nextPhase h
    exact hleft

theorem due_of_length_le (h : e.length ≤ i) : s.due r current e i = 0 := by
  have hleft : r.left e i = 0 := Repeats.left_of_length_le h
  cases s with
  | sequence => simp [due, hleft]
  | cycle => exact hleft
  | random chooser => exact hleft

theorem exists_drains (r : Repeats) (s : Selector) (current : Nat) (e : Executions) :
    ∃ picks, Drains r s current e picks := by
  induction hleft : r.remaining e using Nat.strongRecOn generalizing s current e with
  | _ left ih =>
    cases hnext : s.nextPhase current r e with
    | mk pick s' =>
      cases pick with
      | none => exact ⟨[], .done hnext⟩
      | some i =>
        have hless := Repeats.remaining_record_lt (hasBudget_of_nextPhase hnext)
        rw [hleft] at hless
        obtain ⟨picks, hrest⟩ := ih _ hless s' i (e.record i) rfl
        exact ⟨i :: picks, .pick hnext hrest⟩

namespace Drains

theorem count (h : Drains r s current e picks) (i : Nat) :
    picks.count i = s.due r current e i := by
  induction h with
  | done hnext => exact (due_of_none (congrArg Prod.fst hnext) i).symm
  | @pick s s' current j e picks hnext _ ih =>
    rw [due_of_some hnext i, ← ih, List.count_cons]
    simp only [beq_iff_eq, @eq_comm _ i j]

theorem length_eq (h : Drains r s current e picks) :
    picks.length = ∑ i ∈ Finset.range e.length, s.due r current e i := by
  have hmem : ∀ i ∈ (picks : Multiset Nat), i ∈ Finset.range e.length := by
    intro i hi
    rw [Finset.mem_range]
    by_contra hlast
    have hcount := h.count i
    rw [due_of_length_le (Nat.le_of_not_lt hlast), List.count_eq_zero] at hcount
    exact hcount hi
  have hsum := Multiset.sum_count_eq_card hmem
  simp only [Multiset.coe_count, Multiset.coe_card] at hsum
  rw [← hsum]
  exact Finset.sum_congr rfl fun i _ => h.count i

theorem hasBudget (h : Drains r s current e picks) {before after : List Nat}
    (hpicks : picks = before ++ i :: after) :
    r.hasBudget (before.foldl Executions.record e) i = true := by
  induction before generalizing s current e picks with
  | nil =>
    subst hpicks
    cases h with
    | pick hnext _ => exact hasBudget_of_nextPhase hnext
  | cons j before ih =>
    subst hpicks
    cases h with
    | pick _ hrest => exact ih hrest rfl

theorem drain_eq (h : Drains r s current e picks) {turns : Nat} (hturns : picks.length < turns) :
    ∃ s', drain r turns s current e = (picks, picks.foldl Executions.record e, s') := by
  induction h generalizing turns with
  | done hnext =>
    obtain ⟨turns, rfl⟩ := Nat.exists_eq_add_one_of_ne_zero (Nat.ne_of_gt hturns)
    exact ⟨_, by rw [drain, hnext]; rfl⟩
  | pick hnext _ ih =>
    obtain ⟨turns, rfl⟩ := Nat.exists_eq_add_one_of_ne_zero (Nat.ne_zero_of_lt hturns)
    obtain ⟨s', hs'⟩ := ih (Nat.lt_of_succ_lt_succ hturns)
    exact ⟨s', by rw [drain, hnext]; simp only [hs']; rfl⟩

end Drains

/-- From any counts and any phase on, picks come to an end, after as many as there are repeats left
of the phases looked at: of all phases, in sequence of those from that phase on. Each of these
phases is picked as often as it has repeats left, never without, and no other phase is. With turns
to spare, `drain` makes these picks. Other than in sequence, no phase is found just where none has
repeats left. -/
theorem drains_exactly (r : Repeats) (s : Selector) (current : Nat) (e : Executions) :
    (∃ picks, Drains r s current e picks) ∧
    (∀ picks, Drains r s current e picks →
      picks.length = ∑ i ∈ Finset.range e.length, s.due r current e i ∧
      (∀ i, picks.count i = s.due r current e i) ∧
      (∀ before i after, picks = before ++ i :: after →
        r.hasBudget (before.foldl Executions.record e) i = true) ∧
      ∀ turns, picks.length < turns →
        ∃ s', drain r turns s current e = (picks, picks.foldl Executions.record e, s')) ∧
    (s ≠ sequence → ((s.nextPhase current r e).1 = none ↔ r.isComplete e = true)) := by
  refine ⟨exists_drains r s current e, fun picks h => ⟨h.length_eq, h.count,
    fun before i after hpicks => h.hasBudget hpicks, fun turns hturns => h.drain_eq hturns⟩,
    fun hs => ?_⟩
  rw [Repeats.isComplete_iff]
  refine ⟨fun hnone => hasBudget_of_nextPhase_none hnone fun hsequence => absurd hsequence hs,
    fun hcomplete => ?_⟩
  cases hnext : s.nextPhase current r e with
  | mk pick s' =>
    cases pick with
    | none => rfl
    | some i =>
      have hbudget := hasBudget_of_nextPhase hnext
      rw [hcomplete i] at hbudget
      cases hbudget

/-- In a cycle from the first of three phases, which was executed more often than it may be: the
other two take turns. -/
theorem overdone_drains :
    ∃ picks, Drains ((Repeats.uniform 2).set 1 3) cycle 0 [5, 1, 0] picks ∧ picks.length = 4 ∧
      picks.count 0 = 0 ∧ picks.count 1 = 2 ∧
      (drain ((Repeats.uniform 2).set 1 3) 5 cycle 0 [5, 1, 0]).1 = picks ∧ picks = [1, 2, 1, 2] ∧
      (cycle.nextPhase 0 ((Repeats.uniform 2).set 1 3) [5, 1, 0]).1 ≠ none := by
  obtain ⟨⟨picks, hpicks⟩, hdrains, hnone⟩ :=
    drains_exactly ((Repeats.uniform 2).set 1 3) cycle 0 [5, 1, 0]
  obtain ⟨hlength, hcount, -, hdrain⟩ := hdrains picks hpicks
  have hfour : picks.length = 4 := hlength.trans (by decide)
  obtain ⟨s', hs'⟩ := hdrain 5 (by omega)
  have hfirst := congrArg Prod.fst hs'
  refine ⟨picks, hpicks, hfour, (hcount 0).trans (by decide), (hcount 1).trans (by decide), hfirst,
    hfirst.symm.trans (by decide), ?_⟩
  rw [Ne, hnone (by simp)]
  decide

end Selector

end PhasedLoad
