import PhasedLoad.Proofs.Completion

/-! What the executions of a run may take together: never more than the budget of the plan says. -/

namespace PhasedLoad

theorem Duration.sum_nanos (ds : List Duration) :
    (Duration.sum ds).nanos = min ((ds.map (·.nanos)).sum) (limit - 1) := by
  have hfold : ∀ a : Duration, (ds.foldl add a).nanos =
      min (a.nanos + (ds.map (·.nanos)).sum) (limit - 1) := by
    induction ds with
    | nil =>
      intro a
      have hlt := a.lt
      simp only [List.foldl_nil, List.map_nil, List.sum_nil, limit]
      omega
    | cons d ds ih =>
      intro a
      rw [List.foldl_cons, ih, add_nanos, List.map_cons, List.sum_cons]
      omega
  rw [Duration.sum, hfold, zero_nanos, Nat.zero_add]

namespace Executions

variable {f : Nat → Nat} {r : Repeats} {e : Executions}

/-- What executions take of which one of phase `j` takes `f j`, the first phase being number `i`. -/
def spentFrom (f : Nat → Nat) : Nat → Executions → Nat
  | _, [] => 0
  | i, done :: rest => done * f i + spentFrom f (i + 1) rest

def spent (f : Nat → Nat) (e : Executions) : Nat := spentFrom f 0 e

theorem spentFrom_record {i j : Nat} (h : j < e.length) :
    spentFrom f i (e.record j) = spentFrom f i e + f (i + j) := by
  induction e generalizing i j with
  | nil => simp at h
  | cons done rest ih =>
    cases j with
    | zero =>
      simp only [record, List.modify_zero_cons, spentFrom, Nat.succ_mul, Nat.add_zero]
      omega
    | succ j =>
      have hrest := ih (i := i + 1) (j := j) (by simpa using h)
      rw [Nat.add_assoc, Nat.add_comm 1 j] at hrest
      simp only [record, List.modify_succ_cons, spentFrom] at hrest ⊢
      omega

theorem spent_record {j : Nat} (h : j < e.length) : spent f (e.record j) = spent f e + f j := by
  rw [spent, spentFrom_record h, Nat.zero_add, spent]

theorem spent_add (f : Nat → Nat) (k : Nat) (e : Executions) :
    spent (fun j => f j + k) e = spent f e + e.sum * k := by
  have hfrom : ∀ i, spentFrom (fun j => f j + k) i e =
      spentFrom f i e + e.sum * k := by
    induction e with
    | nil => simp [spentFrom]
    | cons done rest ih =>
      intro i
      rw [spentFrom, ih, spentFrom, List.sum_cons, Nat.mul_add, Nat.add_mul]
      omega
  exact hfrom 0

theorem spent_le_mul {k : Nat} (h : ∀ j < e.length, f j ≤ k) :
    spent f e ≤ e.sum * k := by
  have hfrom : ∀ i, (∀ j, i ≤ j → j < i + e.length → f j ≤ k) →
      spentFrom f i e ≤ e.sum * k := by
    clear h
    induction e with
    | nil => simp [spentFrom]
    | cons done rest ih =>
      intro i hle
      have hrest := ih (i + 1) fun j hj hlt => hle j (by omega) (by
        rw [List.length_cons]
        omega)
      have hfirst := Nat.mul_le_mul_left done (hle i (Nat.le_refl i) (by simp))
      rw [spentFrom, List.sum_cons, Nat.add_mul]
      omega
  exact hfrom 0 fun j _ hj => h j (by omega)

theorem spent_le_of_within (h : r.Within e) :
    spent f e ≤ ((List.range e.length).map fun j => r.count j * f j).sum := by
  have hfrom : ∀ i, (∀ j, e.getD j 0 ≤ r.count (i + j)) → spentFrom f i e ≤
      ((List.range' i e.length).map fun j => r.count j * f j).sum := by
    clear h
    induction e with
    | nil => simp [spentFrom]
    | cons done rest ih =>
      intro i hle
      have hrest := ih (i + 1) fun j => by
        have := hle (j + 1)
        rwa [List.getD_cons_succ, ← Nat.add_assoc, Nat.add_right_comm] at this
      have hfirst := Nat.mul_le_mul_right (f i) (hle 0)
      rw [List.getD_cons_zero, Nat.add_zero] at hfirst
      rw [spentFrom, List.length_cons, List.range'_succ, List.map_cons, List.sum_cons]
      omega
  rw [spent, List.range_eq_range']
  exact hfrom 0 fun j => by simpa using h j

end Executions

namespace Campaign

variable {c : Campaign} {e : Executions} {i : Nat}

theorem Ready.sum_le (hc : c.Ready) (hwithin : c.repeats.Within e)
    (hlength : e.length = c.phaseCount) : e.sum ≤ c.budget.executions := by
  have hspent := Executions.spent_le_of_within (f := fun _ => 0 + 1) hwithin
  rw [Executions.spent_add (fun _ => 0) 1 e, hlength] at hspent
  have htotal : ((List.range c.phaseCount).map fun j => c.repeats.count j * (0 + 1)).sum =
      c.budget.executions := by
    simp [hc.executions_eq, executions, Repeats.total_eq_sum]
  rw [htotal] at hspent
  omega

theorem Ready.phaseCount_eq (hc : c.Ready) : c.budget.phaseCount = c.phaseCount :=
  Budget.phaseCount_eq hc.budget_eq

theorem Ready.repeatsOf_eq (hc : c.Ready) (hi : i < c.phaseCount) :
    c.budget.repeatsOf i = c.repeats.count i := Budget.repeatsOf_eq hc.budget_eq hi

theorem Ready.le_total (hc : c.Ready) (hnone : c.budget.adjusted = none) :
    min (((List.range c.phaseCount).map fun i =>
      c.repeats.count i * (c.budget.phase i).nanos).sum) (Duration.limit - 1) ≤
        c.budget.total.nanos := by
  have hphases : ∀ i ∈ List.range c.phaseCount,
      min (c.repeats.count i * (c.budget.phase i).nanos) (Duration.limit - 1) ≤
        (c.budget.phaseTotal i).nanos := by
    intro i hi
    rw [Budget.phaseTotal, Duration.mul_nanos, hc.repeatsOf_eq (List.mem_range.mp hi), Nat.mul_comm]
  have hcut := min_sum_le hphases
  rw [Budget.total, hnone]
  simp only [Duration.sum_nanos, List.map_map, hc.phaseCount_eq, Function.comp_def]
  omega

/-- Executions within the repeats keep to the budget of the run. -/
theorem Ready.spent_le_total (hc : c.Ready) (hwithin : c.repeats.Within e)
    (hlength : e.length = c.phaseCount)
    (hfits : c.budget.adjusted ≠ none →
      c.settings.limits.minPhase.nanos * c.budget.executions < 2 ^ 64) :
    min (e.spent fun i => (c.budget.phase i).nanos) (Duration.limit - 1) ≤
      c.budget.total.nanos := by
  cases hadjusted : c.budget.adjusted with
  | none =>
    have hspent := Executions.spent_le_of_within (f := fun i => (c.budget.phase i).nanos) hwithin
    have htotal := hc.le_total hadjusted
    rw [hlength] at hspent
    omega
  | some d =>
    have hspent := Executions.spent_le_mul (e := e) (f := fun i => (c.budget.phase i).nanos)
      fun i hi => Nat.le_of_eq (Budget.phase_eq_share hc.budget_eq hc.minPhase_le
        (hfits (by simp [hadjusted])) hadjusted (Nat.lt_of_lt_of_eq hi hlength)).2.1
    have hcount := Nat.mul_le_mul_right (d.nanos / c.budget.executions) (hc.sum_le hwithin hlength)
    have hshares := Nat.mul_div_le d.nanos c.budget.executions
    rw [Budget.total, hadjusted]
    simp only
    omega

end Campaign

end PhasedLoad
