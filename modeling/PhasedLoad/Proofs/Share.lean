import PhasedLoad.Budget
import PhasedLoad.Proofs.Ready
import PhasedLoad.Proofs.Repeats

/-! A runtime that was asked for and is shared among the executions of a plan: each of them has the
same whole number of nanoseconds, and fewer are left than there are executions. -/

namespace PhasedLoad

theorem Limits.clamp_eq_self {l : Limits} {d : Duration} (hmin : l.minPhase ≤ d)
    (hmax : d ≤ l.maxPhase) : l.clamp d = d := by
  ext
  simp only [Duration.le_def] at hmin hmax
  simp only [clamp, Duration.min_nanos, Duration.max_nanos]
  omega

/-- Sums of what is cut at `m` reach `m` when the sums of what is not cut do. -/
theorem min_sum_le {α : Type*} {m : Nat} {f g : α → Nat} {l : List α}
    (hle : ∀ i ∈ l, min (f i) m ≤ g i) : min (l.map f).sum m ≤ (l.map g).sum := by
  induction l with
  | nil => exact Nat.min_le_left _ _
  | cons i l ih =>
    have hi := hle i (List.mem_cons_self ..)
    have hrest := ih fun j hj => hle j (List.mem_cons_of_mem _ hj)
    simp only [List.map_cons, List.sum_cons]
    omega

namespace Repeats

theorem le_total (r : Repeats) (n : Nat) : n ≤ r.total n := by
  induction n with
  | zero => exact Nat.zero_le _
  | succ n ih =>
    have hcount := r.count_pos n
    rw [total_succ]
    omega

theorem count_le_total (r : Repeats) {i n : Nat} (h : i < n) : r.count i ≤ r.total n := by
  induction n with
  | zero => omega
  | succ n ih =>
    rw [total_succ]
    rcases Nat.lt_succ_iff_lt_or_eq.mp h with hlt | rfl
    · exact Nat.le_trans (ih hlt) (Nat.le_add_right _ _)
    · exact Nat.le_add_left _ _

end Repeats

namespace Budget

theorem adjust_nanos (limits : Limits) (executions : Nat) (runtime : Duration) :
    (adjust limits executions runtime).nanos =
      min (max runtime.nanos (min (limits.minPhase.nanos * executions) (2 ^ 64 - 1)))
        (min (limits.maxPhase.nanos * executions) (2 ^ 64 - 1)) := by
  simp [adjust]

theorem adjust_mem {limits : Limits} {n : Nat} (hbounds : limits.minPhase ≤ limits.maxPhase)
    (hfits : limits.minPhase.nanos * n < 2 ^ 64) (runtime : Duration) :
    limits.minPhase.nanos * n ≤ (adjust limits n runtime).nanos ∧
      (adjust limits n runtime).nanos ≤ limits.maxPhase.nanos * n ∧
      (adjust limits n runtime).nanos < 2 ^ 64 := by
  have hscaled := Nat.mul_le_mul_right n (Duration.le_def.mp hbounds)
  rw [adjust_nanos]
  omega

theorem adjust_eq_self {limits : Limits} {n : Nat} {runtime : Duration}
    (hruntime : runtime.nanos < 2 ^ 64) (hmin : limits.minPhase.nanos * n ≤ runtime.nanos)
    (hmax : runtime.nanos ≤ limits.maxPhase.nanos * n) : adjust limits n runtime = runtime := by
  ext
  rw [adjust_nanos]
  omega

def sumOfTotals (b : Budget) : Nat :=
  ((List.range b.phaseCount).map fun i => (b.phaseTotal i).nanos).sum

section

variable {b : Budget} {asked : Option Duration} {plan normal : Plan} {repeats : Repeats}
  {limits : Limits} {runtime d : Duration} {i : Nat}

theorem phaseCount_eq (hb : b = ofPlan asked plan repeats limits) :
    b.phaseCount = plan.phases.length := by
  rw [hb]
  exact List.length_map _

theorem executions_pos (hb : b = ofPlan asked plan repeats limits) : 0 < b.executions := by
  rw [hb]
  exact Nat.le_max_right _ _

theorem executions_eq_total (hb : b = ofPlan asked plan repeats limits)
    (hphases : plan.phases ≠ []) : b.executions = repeats.total plan.phases.length := by
  have hpos := List.length_pos_iff.mpr hphases
  have htotal := repeats.le_total plan.phases.length
  rw [hb]
  exact Nat.max_eq_left (by omega)

theorem repeatsOf_eq (hb : b = ofPlan asked plan repeats limits) (hi : i < plan.phases.length) :
    b.repeatsOf i = repeats.count i := by
  rw [hb]
  simp [repeatsOf, ofPlan, List.getD_eq_getElem?_getD, hi]

theorem exists_adjust_eq (hb : b = ofPlan asked plan repeats limits)
    (hd : b.adjusted = some d) : ∃ runtime, d = adjust limits b.executions runtime := by
  subst hb
  obtain ⟨runtime, -, rfl⟩ := Option.map_eq_some_iff.mp hd
  exact ⟨runtime, rfl⟩

/-- Every execution has an equal share of the runtime, which keeps to the bounds of a phase. -/
theorem phase_eq_share (hb : b = ofPlan asked plan repeats limits)
    (hbounds : limits.minPhase ≤ limits.maxPhase)
    (hfits : limits.minPhase.nanos * b.executions < 2 ^ 64) (hd : b.adjusted = some d)
    (hi : i < plan.phases.length) :
    b.phase i = d.divWithin64 b.executions ∧ (b.phase i).nanos = d.nanos / b.executions ∧
      limits.minPhase ≤ d.divWithin64 b.executions ∧
      d.divWithin64 b.executions ≤ limits.maxPhase := by
  have hpos := executions_pos hb
  obtain ⟨runtime, hadjust⟩ := exists_adjust_eq hb hd
  obtain ⟨hmin, hmax, hlt⟩ := adjust_mem hbounds hfits runtime
  rw [← hadjust] at hmin hmax hlt
  have hshare : (d.divWithin64 b.executions).nanos = d.nanos / b.executions := by
    have hle := Nat.div_le_self d.nanos b.executions
    rw [Duration.divWithin64_nanos, Nat.max_eq_left hpos]
    omega
  have hleast : limits.minPhase ≤ d.divWithin64 b.executions := by
    rw [Duration.le_def, hshare]
    exact (Nat.le_div_iff_mul_le hpos).mpr hmin
  have hmost : d.divWithin64 b.executions ≤ limits.maxPhase := by
    rw [Duration.le_def, hshare]
    exact Nat.div_le_of_le_mul (by rwa [Nat.mul_comm])
  have hwork : b.intrinsic[i]? = some (workOf limits plan.phases[i]) := by
    rw [hb]
    simp [ofPlan, hi]
  have hlimits : b.limits = limits := by rw [hb]; rfl
  have hphase : b.phase i = d.divWithin64 b.executions := by
    rw [phase, hwork]
    simp only [hd, hlimits]
    exact Limits.clamp_eq_self hleast hmost
  exact ⟨hphase, by rw [hphase, hshare], hleast, hmost⟩

theorem phaseTotal_eq_shares (hb : b = ofPlan asked plan repeats limits)
    (hbounds : limits.minPhase ≤ limits.maxPhase)
    (hfits : limits.minPhase.nanos * b.executions < 2 ^ 64) (hd : b.adjusted = some d)
    (hi : i < plan.phases.length) :
    (b.phaseTotal i).nanos = d.nanos / b.executions * repeats.count i := by
  have hcount : repeats.count i ≤ b.executions := by
    rw [hb]
    exact Nat.le_trans (repeats.count_le_total hi) (Nat.le_max_left _ _)
  have hshares := Nat.mul_le_mul_left (d.nanos / b.executions) hcount
  have hall := Nat.div_mul_le_self d.nanos b.executions
  have hlt := d.lt
  rw [phaseTotal, Duration.mul_nanos, (phase_eq_share hb hbounds hfits hd hi).2.1,
    repeatsOf_eq hb hi, Duration.limit]
  omega

theorem sumOfTotals_eq_shares (hb : b = ofPlan asked plan repeats limits)
    (hphases : plan.phases ≠ []) (hbounds : limits.minPhase ≤ limits.maxPhase)
    (hfits : limits.minPhase.nanos * b.executions < 2 ^ 64) (hd : b.adjusted = some d) :
    b.sumOfTotals = d.nanos / b.executions * b.executions := by
  have hshares : ((List.range plan.phases.length).map fun i => (b.phaseTotal i).nanos) =
      (List.range plan.phases.length).map fun i => d.nanos / b.executions * repeats.count i :=
    List.map_congr_left fun i hi =>
      phaseTotal_eq_shares hb hbounds hfits hd (List.mem_range.mp hi)
  rw [sumOfTotals, phaseCount_eq hb, hshares, List.sum_map_mul_left, ← Repeats.total_eq_sum,
    ← executions_eq_total hb hphases]

/-- A runtime that was asked for is brought to what the executions of the plan can take, and left
alone if they can take it. Every execution of every phase has the same share of it, rounded down to
whole nanoseconds and within the bounds of a phase as it is. What all executions may take together
is less than the runtime by fewer nanoseconds than there are executions. -/
theorem splits_runtime (hlimits : limits.validate = .ok ())
    (hplan : plan.normalize limits = .ok normal) (hleast : RunSettings.minRuntime ≤ runtime)
    (hmost : runtime ≤ RunSettings.maxRuntime)
    (hb : b = ofPlan (some runtime) normal repeats limits)
    (hfits : limits.minPhase.nanos * b.executions < 2 ^ 64) :
    b.executions = repeats.total normal.phases.length ∧
    ∃ d, b.adjusted = some d ∧
      (limits.minPhase.nanos * b.executions ≤ d.nanos ∧
        d.nanos ≤ limits.maxPhase.nanos * b.executions) ∧
      (limits.minPhase.nanos * b.executions ≤ runtime.nanos →
        runtime.nanos ≤ limits.maxPhase.nanos * b.executions → d = runtime) ∧
      (∀ i < normal.phases.length, b.phase i = d.divWithin64 b.executions ∧
        (b.phase i).nanos = d.nanos / b.executions ∧
        limits.minPhase ≤ d.divWithin64 b.executions ∧
        d.divWithin64 b.executions ≤ limits.maxPhase) ∧
      b.sumOfTotals ≤ d.nanos ∧ d.nanos - b.sumOfTotals < b.executions := by
  have hbounds := (Limits.bounds_of_validate hlimits).2
  have hphases := Plan.phases_ne_nil_of_normalize hplan
  have hasked : runtime.isZero = false := by
    have hsecond : 0 < RunSettings.minRuntime.nanos := by decide
    have hpos := Nat.lt_of_lt_of_le hsecond (Duration.le_def.mp hleast)
    simpa [Duration.isZero] using Nat.ne_of_gt hpos
  have hruntime : runtime.nanos < 2 ^ 64 := by
    have hlongest : RunSettings.maxRuntime.nanos < 2 ^ 64 := by decide
    exact Nat.lt_of_le_of_lt (Duration.le_def.mp hmost) hlongest
  have hd : b.adjusted = some (adjust limits b.executions runtime) := by
    have hkept : (some runtime).filter (fun d => !d.isZero) = some runtime := by simp [hasked]
    rw [hb]
    simp only [ofPlan, hkept, Option.map_some]
  obtain ⟨hmin, hmax, -⟩ := adjust_mem hbounds hfits runtime
  refine ⟨executions_eq_total hb hphases, _, hd, ⟨hmin, hmax⟩,
    fun hmin hmax => adjust_eq_self hruntime hmin hmax,
    fun i hi => phase_eq_share hb hbounds hfits hd hi, ?_⟩
  have hpos := executions_pos hb
  have hrest := Nat.mod_lt (adjust limits b.executions runtime).nanos hpos
  have hsplit := Nat.div_add_mod' (adjust limits b.executions runtime).nanos b.executions
  rw [sumOfTotals_eq_shares hb hphases hbounds hfits hd]
  omega

/-- Three phases, of which the second is executed twice. -/
def uneven : Plan :=
  { pattern := .sequence
    phases := [1, 2, 1].map fun n =>
      { name := "load", workers := [⟨1, .ofSecs 60, .ofSecs 1, .ofSecs 1⟩], setup := none,
        workload := none, teardown := none, repeats := n } }

/-- Its four executions share 1000 s and 3 ns, of which the 3 ns are left. -/
theorem uneven_splits :
    ∃ b, b = ofPlan (some (.ofNanos 1000000000003)) uneven ((Repeats.uniform 1).set 1 2) .standard ∧
      uneven.normalize .standard = .ok uneven ∧ b.adjusted = some (.ofNanos 1000000000003) ∧
      (∀ i < 3, (b.phase i).nanos = 250000000000) ∧ b.sumOfTotals = 1000000000000 := by
  obtain ⟨b, hb⟩ : ∃ b, b = ofPlan (some (.ofNanos 1000000000003)) uneven
      ((Repeats.uniform 1).set 1 2) .standard := ⟨_, rfl⟩
  have hplan : uneven.normalize .standard = .ok uneven := rfl
  have hexecutions : b.executions = 4 := by rw [hb]; rfl
  obtain ⟨-, d, hd, -, hself, hphase, -⟩ := splits_runtime rfl hplan (by decide) (by decide)
    hb (by rw [hexecutions]; decide)
  obtain rfl := hself (by rw [hexecutions]; decide) (by rw [hexecutions]; decide)
  refine ⟨b, hb, hplan, hd, fun i hi => ?_, by rw [hb]; rfl⟩
  rw [(hphase i hi).2.1, hexecutions]
  rfl

end

end Budget

end PhasedLoad
