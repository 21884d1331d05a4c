import PhasedLoad.Proofs.Share

/-! The least time that the executions of a plan need together, and what becomes of a runtime that
was asked for when the nanoseconds of that time do not fit 64 bits. -/

namespace PhasedLoad

theorem RunSettings.runtime_of_validate {s : RunSettings} {d : Duration} (h : s.validate = .ok ())
    (hd : s.runtime = some d) : minRuntime ≤ d ∧ d ≤ maxRuntime := by
  by_cases hrange : d < minRuntime ∨ maxRuntime < d
  · simp only [validate, validate_limits h, hd, if_pos hrange, bind, Except.bind, throw, throwThe,
      MonadExceptOf.throw, reduceCtorEq] at h
  · simp only [Duration.lt_def, not_or, Nat.not_lt] at hrange
    exact hrange

theorem Limits.clamp_of_le {l : Limits} {d : Duration} (hbounds : l.minPhase ≤ l.maxPhase)
    (hd : d ≤ l.minPhase) : l.clamp d = l.minPhase := by
  ext
  simp only [Duration.le_def] at hbounds hd
  simp only [clamp, Duration.min_nanos, Duration.max_nanos]
  omega

namespace Budget

/-- The least that all executions take together, in nanoseconds. -/
def least (b : Budget) : Nat := b.limits.minPhase.nanos * b.executions

section

variable {b : Budget} {asked : Option Duration} {plan : Plan} {repeats : Repeats} {limits : Limits}
  {runtime d : Duration}

theorem least_eq (hb : b = ofPlan asked plan repeats limits) :
    b.least = limits.minPhase.nanos * b.executions := by
  rw [hb]
  rfl

theorem adjusted_eq_adjust (hb : b = ofPlan (some runtime) plan repeats limits)
    (hpos : 0 < runtime.nanos) : b.adjusted = some (adjust limits b.executions runtime) := by
  have hkept : (some runtime).filter (fun d => !d.isZero) = some runtime := by
    simp [Duration.isZero, Nat.ne_of_gt hpos]
  rw [hb]
  simp only [ofPlan, hkept, Option.map_some]

theorem adjust_of_overflow {n : Nat} (hbounds : limits.minPhase ≤ limits.maxPhase)
    (hruntime : runtime.nanos < 2 ^ 64) (hover : 2 ^ 64 ≤ limits.minPhase.nanos * n) :
    (adjust limits n runtime).nanos = 2 ^ 64 - 1 := by
  have hscaled := Nat.mul_le_mul_right n (Duration.le_def.mp hbounds)
  rw [adjust_nanos]
  omega

theorem phase_eq_minPhase (hb : b = ofPlan asked plan repeats limits)
    (hbounds : limits.minPhase ≤ limits.maxPhase) (hd : b.adjusted = some d)
    (hshort : d.nanos < b.least) {i : Nat} (hi : i < plan.phases.length) :
    b.phase i = limits.minPhase := by
  have hpos := executions_pos hb
  have hshare : d.divWithin64 b.executions ≤ limits.minPhase := by
    have hquotient : d.nanos / b.executions < limits.minPhase.nanos :=
      (Nat.div_lt_iff_lt_mul hpos).mpr (least_eq hb ▸ hshort)
    rw [Duration.le_def, Duration.divWithin64_nanos, Nat.max_eq_left hpos]
    omega
  have hwork : b.intrinsic[i]? = some (workOf limits plan.phases[i]) := by
    rw [hb]
    simp [ofPlan, hi]
  have hlimits : b.limits = limits := by rw [hb]; rfl
  rw [phase, hwork]
  simp only [hd, hlimits]
  exact Limits.clamp_of_le hbounds hshare

/-- When every phase is raised to its least length, all executions together reach the least that
they take, as far as 64 bits of nanoseconds hold it. -/
theorem min_least_le_sumOfTotals (hb : b = ofPlan asked plan repeats limits)
    (hphases : plan.phases ≠ []) (hphase : ∀ i < plan.phases.length, b.phase i = limits.minPhase) :
    min b.least (2 ^ 64) ≤ b.sumOfTotals := by
  have hexact : b.least =
      ((List.range plan.phases.length).map fun i => limits.minPhase.nanos * repeats.count i).sum := by
    rw [least_eq hb, executions_eq_total hb hphases, Repeats.total_eq_sum, ← List.sum_map_mul_left]
  rw [hexact, sumOfTotals, phaseCount_eq hb]
  refine min_sum_le fun i hi => ?_
  have hlt := List.mem_range.mp hi
  rw [phaseTotal, hphase i hlt, repeatsOf_eq hb hlt, Duration.mul_nanos, Duration.limit]
  omega

end

variable {settings : RunSettings} {plan normal : Plan} {repeats : Repeats} {b : Budget}
  {runtime : Duration}

/-- A runtime that was asked for is brought to at least the sum of the least lengths of all
executions exactly when that sum fits 64 bits of nanoseconds; the same decides whether what the
executions may take together is within the announced total. Otherwise the total is all that 64 bits
hold, and every execution still takes the least length of a phase. -/
theorem floor_kept_iff_fits (hsettings : settings.validate = .ok ())
    (hruntime : settings.runtime = some runtime)
    (hplan : plan.normalize settings.limits = .ok normal)
    (hb : b = ofPlan settings.runtime normal repeats settings.limits) :
    ∃ d, b.adjusted = some d ∧ b.total = d ∧
      (settings.limits.minPhase.nanos * b.executions ≤ d.nanos ↔
        settings.limits.minPhase.nanos * b.executions < 2 ^ 64) ∧
      (b.sumOfTotals ≤ b.total.nanos ↔
        settings.limits.minPhase.nanos * b.executions < 2 ^ 64) ∧
      (2 ^ 64 ≤ settings.limits.minPhase.nanos * b.executions →
        d.nanos = 2 ^ 64 - 1 ∧
        ∀ i < normal.phases.length, b.phase i = settings.limits.minPhase) := by
  have hbounds := (Limits.bounds_of_validate (RunSettings.validate_limits hsettings)).2
  have hphases := Plan.phases_ne_nil_of_normalize hplan
  obtain ⟨hleast, hmost⟩ := RunSettings.runtime_of_validate hsettings hruntime
  have hpos : 0 < runtime.nanos := Nat.lt_of_lt_of_le (by decide) (Duration.le_def.mp hleast)
  have hlt : runtime.nanos < 2 ^ 64 := Nat.lt_of_le_of_lt (Duration.le_def.mp hmost) (by decide)
  rw [hruntime] at hb
  obtain ⟨d, hadjust⟩ : ∃ d, d = adjust settings.limits b.executions runtime := ⟨_, rfl⟩
  have hd : b.adjusted = some d := hadjust ▸ adjusted_eq_adjust hb hpos
  have htotal : b.total = d := by simp only [total, hd]
  rw [← least_eq hb, htotal]
  refine ⟨d, hd, rfl, ?_⟩
  by_cases hfits : b.least < 2 ^ 64
  · have hmin : b.least ≤ d.nanos := by
      rw [hadjust, least_eq hb]
      exact (adjust_mem hbounds (least_eq hb ▸ hfits) runtime).1
    have hsum : b.sumOfTotals ≤ d.nanos := by
      rw [sumOfTotals_eq_shares hb hphases hbounds (least_eq hb ▸ hfits) hd]
      exact Nat.div_mul_le_self _ _
    exact ⟨iff_of_true hmin hfits, iff_of_true hsum hfits, fun hover => absurd hfits (by omega)⟩
  · have hover := Nat.le_of_not_lt hfits
    have hcut : d.nanos = 2 ^ 64 - 1 := by
      rw [hadjust]
      exact adjust_of_overflow hbounds hlt (least_eq hb ▸ hover)
    have hphase : ∀ i < normal.phases.length, b.phase i = settings.limits.minPhase := fun i hi =>
      phase_eq_minPhase hb hbounds hd (by omega) hi
    have hsum := min_least_le_sumOfTotals hb hphases hphase
    exact ⟨iff_of_false (by omega) hfits, iff_of_false (by omega) hfits,
      fun _ => ⟨hcut, hphase⟩⟩

/-- Sixteen phases of 28 days each. -/
def enduring : Plan :=
  { pattern := .sequence
    phases := List.replicate 16
      { name := "soak", workers := [⟨1, .ofSecs (28 * 86400), .ofSecs 3600, .ofSecs 10⟩],
        setup := none, workload := none, teardown := none, repeats := 1 } }

/-- No phase is shorter, all are repeated as often as they may be, and an hour is asked for. -/
def enduringSettings : RunSettings :=
  { RunSettings.standard with
    limits := ⟨.ofSecs (28 * 86400), .ofSecs (28 * 86400), 500⟩
    runtime := some (.ofSecs 3600)
    repeats := .unlimited }

def enduringBudget : Budget :=
  ofPlan enduringSettings.runtime enduring
    (Repeats.ofPlan enduring enduringSettings.repeats enduringSettings.limits).1
    enduringSettings.limits

theorem enduring_floor_cut :
    ∃ d, enduringBudget.adjusted = some d ∧ d.nanos = 2 ^ 64 - 1 ∧
      (∀ i < 16, enduringBudget.phase i = .ofSecs (28 * 86400)) ∧
      ¬ enduringBudget.sumOfTotals ≤ enduringBudget.total.nanos := by
  have hover : 2 ^ 64 ≤ enduringSettings.limits.minPhase.nanos * enduringBudget.executions := by
    decide +kernel
  have hsettings : enduringSettings.validate = .ok () := rfl
  have hplan : enduring.normalize enduringSettings.limits = .ok enduring := rfl
  obtain ⟨d, hd, -, -, hsum, hcut⟩ :=
    floor_kept_iff_fits (b := enduringBudget) hsettings rfl hplan rfl
  obtain ⟨hnanos, hphase⟩ := hcut hover
  exact ⟨d, hd, hnanos, hphase, fun hle => absurd (hsum.mp hle) (Nat.not_lt.mpr hover)⟩

/-- Accepted settings and an accepted plan whose runtime is below its floor, and whose executions
may take longer than the announced total. -/
theorem floor_not_always_kept :
    enduringSettings.validate = .ok () ∧ enduring.normalize enduringSettings.limits = .ok enduring ∧
      (∃ d, enduringBudget.adjusted = some d ∧
        d.nanos < enduringSettings.limits.minPhase.nanos * enduringBudget.executions) ∧
      enduringBudget.total.nanos < enduringBudget.sumOfTotals :=
  ⟨rfl, rfl, ⟨.ofNanos (2 ^ 64 - 1), by decide +kernel, by decide +kernel⟩, by decide +kernel⟩

end Budget

end PhasedLoad
