import PhasedLoad.Proofs.CommandLine.Stream

/-! A check and a run of the same plan with the same options agree: what the one rejects the other
rejects, and what is not rejected is shown alike. The two look at the settings and at the plan in
different orders, so they may tell of different faults. -/

namespace PhasedLoad

/-- Settings are valid whatever the time at which a run is stopped, and whatever the time between
reports if there is any. -/
theorem RunSettings.validate_congr {s : RunSettings} {interval : Duration}
    (hs : s.reportInterval.isZero = false) (hinterval : interval.isZero = false)
    (timeout : Option Duration) :
    { s with reportInterval := interval, runTimeout := timeout }.validate = s.validate := by
  simp only [validate, hs, hinterval]

theorem Campaign.prepare_congr (plan : Plan) {s : RunSettings} {interval : Duration}
    (hs : s.reportInterval.isZero = false) (hinterval : interval.isZero = false)
    (timeout : Option Duration) :
    (prepare plan { s with reportInterval := interval, runTimeout := timeout }).2 =
      (prepare plan s).2.map fun c =>
        { c with settings := { s with reportInterval := interval, runTimeout := timeout } } := by
  unfold prepare
  rw [RunSettings.validate_congr hs hinterval timeout]
  split
  · rfl
  · dsimp only
    split
    · rfl
    · rfl

namespace CommandLine

theorem Failure.kind_eq_invalidInput_iff (f : Failure) :
    f.kind = .invalidInput ↔ f.exitCode = 30 := by
  unfold exitCode
  cases f.kind <;> decide

theorem kind_of_isConfiguration {f : Fault} (h : f.isConfiguration = true) :
    (Failure.run f).kind = .invalidInput :=
  (Failure.kind_eq_invalidInput_iff _).mpr (exitCode_of_isConfiguration h)

theorem PlanChoice.reportInterval_of_settings {p : PlanChoice} {s : RunSettings}
    (h : p.settings = .ok s) : s.reportInterval = RunSettings.standardReportInterval := by
  unfold settings at h
  cases hrepeats : RepeatsOverride.ofFlag p.repeats { Limits.standard with minPhase := p.minPhase } with
  | error f => simp [hrepeats, bind, Except.bind] at h
  | ok repeats =>
    simp only [hrepeats, bind, Except.bind, pure, Except.pure, Except.ok.injEq] at h
    rw [← h]
    rfl

theorem check_eq (p : PlanChoice) (form : OutputForm) (source : Except FileFault String) :
    (check p form source).2 = do
      let settings ← p.settings.mapError .run
      settings.validate.mapError .run
      let (plan, _) ← p.plan source
      let c ← (Campaign.prepare plan settings).2.mapError .run
      return form.plan c.plan c.repeats c.budget := by
  unfold check
  cases hsettings : p.settings with
  | error f => rfl
  | ok settings =>
    cases hvalid : settings.validate with
    | error f => simp [hvalid, bind, Except.bind, Except.mapError]
    | ok u =>
      cases hplan : p.plan source with
      | error f => simp [hvalid, bind, Except.bind, Except.mapError, pure, Except.pure]
      | ok read =>
        simp only [hvalid, bind, Except.bind, Except.mapError, pure, Except.pure, Campaign.prepare]
        cases (read.1.withPattern settings.pattern).normalize settings.limits <;> rfl

variable {p : PlanChoice} {choice : RunChoice} {source : Except FileFault String}

/-- What a check shows is the plan of a run that is ready; a check and a run reject the same, if not
for the same fault. -/
theorem check_cases (form : OutputForm) (source : Except FileFault String)
    (hinterval : choice.reportInterval.isZero = false) :
    (∃ f g, (check p form source).2 = .error f ∧ f.kind = .invalidInput ∧
      accepted p choice source = .error g ∧ g.kind = .invalidInput) ∨
    ∃ c, (check p form source).2 = .ok (form.plan c.plan c.repeats c.budget) ∧
      accepted p choice source = .ok c := by
  rw [check_eq, accepted]
  cases hsettings : p.settings with
  | error f =>
    have hkind := (Failure.kind_eq_invalidInput_iff _).mpr (p.exitCode_of_settings hsettings)
    exact .inl ⟨_, _, rfl, hkind, rfl, hkind⟩
  | ok settings =>
    have hstandard : settings.reportInterval.isZero = false := by
      rw [PlanChoice.reportInterval_of_settings hsettings]
      rfl
    have hprepare := fun plan =>
      Campaign.prepare_congr plan hstandard hinterval choice.runTimeout
    simp only [Except.mapError, bind, Except.bind, pure, Except.pure, hprepare]
    -- A check looks at the settings before the plan, a run at both together.
    cases hvalid : settings.validate with
    | error f =>
      have hkind := kind_of_isConfiguration (settings.configures_validate f hvalid)
      cases hplan : p.plan source with
      | error g =>
        exact .inl ⟨_, _, rfl, hkind, rfl,
          (Failure.kind_eq_invalidInput_iff _).mpr (PlanChoice.exitCode_of_plan hplan)⟩
      | ok read =>
        have hrefused : (Campaign.prepare read.1 settings).2 = .error f := by
          rw [Campaign.prepare, hvalid]
        exact .inl ⟨_, .run f, rfl, hkind, by simp [hrefused, Except.map], hkind⟩
    | ok u =>
      cases hplan : p.plan source with
      | error g =>
        have hkind := (Failure.kind_eq_invalidInput_iff _).mpr (PlanChoice.exitCode_of_plan hplan)
        exact .inl ⟨_, _, rfl, hkind, rfl, hkind⟩
      | ok read =>
        cases hready : (Campaign.prepare read.1 settings).2 with
        | error f =>
          have hprepared : Campaign.prepare read.1 settings =
              ((Campaign.prepare read.1 settings).1, .error f) := Prod.ext rfl hready
          have hkind := kind_of_isConfiguration (Campaign.refusal_of_prepare hprepared)
          exact .inl ⟨.run f, .run f, by simp [hready], hkind, by simp [hready, Except.map], hkind⟩
        | ok c =>
          exact .inr ⟨{ c with settings := { settings with
            reportInterval := choice.reportInterval
            runTimeout := choice.runTimeout } }, by simp [hready], by simp [hready, Except.map]⟩

variable {σ : Type}

theorem plan_ne_empty (form : OutputForm) (plan : Plan) (repeats : Repeats) (budget : Budget) :
    form.plan plan repeats budget ≠ "" := by
  rw [← String.toList_inj.ne]
  cases form with
  | prose => simp [OutputForm.plan, Output.planText, Output.lines]
  | json => simp [OutputForm.plan, Output.planLine, Output.line]

theorem launch_of_rejected {f : Failure} (h : accepted p choice source = .error f)
    (form : OutputForm) : ∃ log, launch p form choice source = .error ⟨"", log, some f⟩ := by
  obtain ⟨g, log, hrejected, -, hlaunch⟩ | ⟨c, log, haccepted, -⟩ := launch_cases p form choice source
  · obtain rfl := Except.error.inj (h.symm.trans hrejected)
    exact ⟨log, hlaunch⟩
  · cases h.symm.trans haccepted

theorem launch_of_accepted {c : Campaign} (h : accepted p choice source = .ok c)
    (form : OutputForm) : c.Ready ∧
      ∃ log, launch p form choice source = .ok ⟨c, form.plan c.plan c.repeats c.budget, log⟩ := by
  obtain ⟨f, log, hrejected, -⟩ | ⟨c', log, haccepted, hc, -, hlaunch⟩ :=
    launch_cases p form choice source
  · cases h.symm.trans hrejected
  · obtain rfl := Except.ok.inj (h.symm.trans haccepted)
    exact ⟨hc, log, hlaunch⟩

theorem Launch.map_stdout_run (l : Launch) (env : Environment σ) (state : σ)
    (around : Circumstances) (form : OutputForm) :
    (l.run env state around form).map (·.1.stdout) =
      (around.run env state l.campaign).map fun o => l.overview ++ shown form o := by
  unfold Launch.run
  cases around.run env state l.campaign <;> rfl

theorem Launch.stdout_ne_empty {l : Launch} {env : Environment σ} {state s : σ}
    {around : Circumstances} {form : OutputForm} {t : Transcript} (hoverview : l.overview ≠ "")
    (h : l.run env state around form = some (t, s)) : t.stdout ≠ "" := by
  have hstdout := l.map_stdout_run env state around form
  rw [h, Option.map_some] at hstdout
  obtain ⟨o, -, ho⟩ := Option.map_eq_some_iff.mp hstdout.symm
  rw [← ho]
  exact fun hempty => hoverview (String.append_eq_empty_iff.mp hempty).1

/-- What is left behind when all that was given is rejected: nothing is shown. -/
def Transcript.IsRejection (t : Transcript) : Prop :=
  t.stdout = "" ∧ ∃ f, t.failure = some f ∧ f.kind = .invalidInput

/-- A check rejects a plan, its file or its options if and only if a run rejects them before it
shows the plan, whatever it would run against; a check fails for no other reason. A plan that is not
rejected is shown by the check as every run shows it before it starts, whether or not the run ends:
with the pattern, the phases, the repeats and the budget that the run keeps to. What comes of the
run follows, and does come if the rounds of the workers take time. -/
theorem check_tells_of_run (connect : Destination → Environment σ) (state : σ)
    (around : Circumstances) (p : PlanChoice) (form : OutputForm) (choice : RunChoice)
    (source : Except FileFault String) (hinterval : 0 < choice.reportInterval.nanos) :
    ((∃ f, (check p form source).2 = .error f ∧ f.kind = .invalidInput) ↔
      ∃ t, launch p form choice source = .error t ∧ t.IsRejection) ∧
    ((∃ f, (check p form source).2 = .error f ∧ f.kind = .invalidInput) ↔
      ∃ t s, runAgainst connect state around p form choice source = some (t, s) ∧ t.IsRejection) ∧
    (∀ f, (check p form source).2 = .error f → f.kind = .invalidInput) ∧
    ∀ overview, (check p form source).2 = .ok overview →
      ∃ c log, accepted p choice source = .ok c ∧
        launch p form choice source = .ok ⟨c, overview, log⟩ ∧
        overview = form.plan c.plan c.repeats c.budget ∧
        (runAgainst connect state around p form choice source).map (·.1.stdout) =
          (around.run (connect choice.destination) state c).map
            (fun o => overview ++ shown form o) ∧
        ((connect choice.destination).target.Honours →
          (∀ i, ∀ run ∈ c.groups i, run.TakesTime (connect choice.destination)) →
          c.longest < Instant.limit → c.enoughTurns ≤ around.turns →
          ∃ o, around.run (connect choice.destination) state c = some o) := by
  have hzero : choice.reportInterval.isZero = false := by
    rw [Bool.eq_false_iff, ne_eq, Duration.isZero_iff]
    exact Nat.ne_of_gt hinterval
  obtain ⟨f, g, hcheck, hf, hrun, hg⟩ | ⟨c, hcheck, hrun⟩ := check_cases (p := p) form source hzero
  · obtain ⟨log, hlaunch⟩ := launch_of_rejected hrun form
    have hagainst : runAgainst connect state around p form choice source =
        some (⟨"", log, some g⟩, state) := by
      rw [runAgainst, hlaunch]
    refine ⟨⟨fun _ => ⟨_, hlaunch, rfl, g, rfl, hg⟩, fun _ => ⟨f, hcheck, hf⟩⟩,
      ⟨fun _ => ⟨_, _, hagainst, rfl, g, rfl, hg⟩, fun _ => ⟨f, hcheck, hf⟩⟩, ?_, ?_⟩
    · intro f' hf'
      obtain rfl := Except.error.inj (hcheck.symm.trans hf')
      exact hf
    · intro overview hoverview
      cases hcheck.symm.trans hoverview
  · obtain ⟨hc, log, hlaunch⟩ := launch_of_accepted hrun form
    have hagainst : runAgainst connect state around p form choice source =
        Launch.run ⟨c, form.plan c.plan c.repeats c.budget, log⟩ (connect choice.destination) state
          around form := by
      rw [runAgainst, hlaunch]
    have hpasses : ¬ ∃ f, (check p form source).2 = .error f ∧ f.kind = .invalidInput := by
      rintro ⟨f, hf, -⟩
      cases hcheck.symm.trans hf
    -- A run that shows its plan is no rejection: the overview of a plan is never empty.
    refine ⟨iff_of_false hpasses ?_, iff_of_false hpasses ?_, ?_, ?_⟩
    · rintro ⟨t, ht, -⟩
      cases hlaunch.symm.trans ht
    · rintro ⟨t, s, ht, hempty, -⟩
      rw [hagainst] at ht
      exact Launch.stdout_ne_empty (plan_ne_empty form _ _ _) ht hempty
    · intro f hf
      cases hcheck.symm.trans hf
    · intro overview hoverview
      obtain rfl := Except.ok.inj (hcheck.symm.trans hoverview)
      refine ⟨c, log, hrun, hlaunch, rfl, ?_, fun hhonours htime hrange hturns =>
        Circumstances.exists_run hc hhonours htime hrange hturns state⟩
      rw [hagainst, Launch.map_stdout_run]

/-- The shortest phase allowed takes no time at all. -/
def mistakenPlan : PlanChoice := { warmupPlan with minPhase := .zero }

def warmupOverview : String :=
  "pattern: sequence\nphase 1: warm\n\"up\" groups=1 repeat=1\nphase 2: load groups=0 repeat=1\n" ++
    "phase 1: 9s x 1 = 9s\nphase 2: 1s x 1 = 1s\ntotal: 10s\n\n"

/-- How it is shown that the warmup ran where nothing listens. -/
def warmupPhases : String :=
  "phase 1 `warm\n\"up\"` (execution 1): deadline_exceeded\n  took: 9s\n" ++
    "  requests: 0 (errors 2)\n  avg latency: 0us\n  status codes: -\n\n" ++
    "phase 2 `load` (execution 1): setup_failed\n  took: 0us\n" ++
    "  requests: 0 (errors 0)\n  avg latency: 0us\n  status codes: -\n\n"

/-- A mistaken plan whose file is missing is rejected by both, though a check tells of the mistake
and a run of the file. The warmup is shown by both in the same seven lines, with which the output of
its run begins. -/
theorem warmup_check_tells :
    (check mistakenPlan .prose (.error .missing)).2 =
        .error (.run (.invalidBounds .zero (.ofSecs (28 * 86400)))) ∧
    (∃ t s, runAgainst (fun d => .orderly (Target.http .plain d)) none ⟨none, .seeded 0, 100⟩
        mistakenPlan .prose warmupRun (.error .missing) = some (t, s) ∧ t.IsRejection) ∧
    (check warmupPlan .prose (.ok warmup)).2 = .ok warmupOverview ∧
    (∃ c log, launch warmupPlan .prose warmupRun (.ok warmup) = .ok ⟨c, warmupOverview, log⟩) ∧
    ∃ t s, runAgainst (fun d => .orderly (Target.http .plain d)) none ⟨none, .seeded 0, 100⟩
        warmupPlan .prose warmupRun (.ok warmup) = some (t, s) ∧
      t.stdout = warmupOverview ++ warmupPhases := by
  have hmistaken : (check mistakenPlan .prose (.error .missing)).2 =
      .error (.run (.invalidBounds .zero (.ofSecs (28 * 86400)))) := rfl
  have hoverview : (check warmupPlan .prose (.ok warmup)).2.toOption = some warmupOverview := by
    decide +kernel
  have hshown : (check warmupPlan .prose (.ok warmup)).2 = .ok warmupOverview := by
    cases hcheck : (check warmupPlan .prose (.ok warmup)).2 with
    | error f => simp [hcheck, Except.toOption] at hoverview
    | ok overview => simpa [hcheck, Except.toOption] using hoverview
  have hruns : (runAgainst (fun d => .orderly (Target.http .plain d)) none ⟨none, .seeded 0, 100⟩
      warmupPlan .prose warmupRun (.ok warmup)).map (·.1.stdout) =
      some (warmupOverview ++ warmupPhases) := by
    decide +kernel
  refine ⟨hmistaken, ?_, hshown, ?_, ?_⟩
  · exact (check_tells_of_run (fun d => .orderly (Target.http .plain d)) none
      ⟨none, .seeded 0, 100⟩ mistakenPlan .prose warmupRun (.error .missing) (by decide)).2.1.mp
        ⟨_, hmistaken, rfl⟩
  · obtain ⟨c, log, -, hlaunch, -⟩ := (check_tells_of_run
      (fun d => .orderly (Target.http .plain d)) none ⟨none, .seeded 0, 100⟩ warmupPlan .prose
      warmupRun (.ok warmup) (by decide)).2.2.2 _ hshown
    exact ⟨c, log, hlaunch⟩
  · obtain ⟨⟨t, s⟩, hrun, hstdout⟩ := Option.map_eq_some_iff.mp hruns
    exact ⟨t, s, hrun, hstdout⟩

end CommandLine

end PhasedLoad
