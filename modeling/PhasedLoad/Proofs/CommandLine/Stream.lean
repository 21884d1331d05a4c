import PhasedLoad.CommandLine.Perform
import PhasedLoad.Proofs.Ending
import PhasedLoad.Proofs.Output.Records
import PhasedLoad.Proofs.Refusal
import PhasedLoad.Proofs.TimeBound

/-! What a run shows to a program, and its exit code: a record for the plan, one for each execution
and one for the end, and a code that agrees with them. -/

namespace PhasedLoad

theorem Target.calm_http (naming : Http.Naming) (d : Destination) : (Target.http naming d).Calm := by
  have hwithin : ∀ (r : Reply) (timeout : Option Duration) (text : String),
      r.outcome ≠ .panic text → (r.within timeout).outcome ≠ .panic text := by
    intro r timeout text hr
    cases timeout with
    | none => exact hr
    | some limit =>
      simp only [Reply.within]
      split
      · simp
      · exact hr
  intro call listener text
  refine hwithin _ _ _ ?_
  dsimp only
  split
  · simp [failing]
  · split
    · simp [served, Reply.ofResponse]
    · simp [failing]
  · simp [failing]

theorem Campaign.starts_of_prepare {plan : Plan} {settings : RunSettings} {events : List LogEvent}
    {c : Campaign} (h : prepare plan settings = (events, .ok c)) : LogEvent.starts events = [] := by
  unfold prepare at h
  split at h
  · cases h
  · dsimp only at h
    split at h
    · cases h
    · cases h
      refine List.filterMap_eq_nil_iff.mpr fun event hevent => ?_
      rcases List.mem_append.mp hevent with hevent | hevent
      · unfold overrideEvents at hevent
        split at hevent
        · split at hevent
          · cases hevent
          · rw [List.mem_singleton.mp hevent]
            rfl
        · cases hevent
      · obtain ⟨notice, -, rfl⟩ := List.mem_map.mp hevent
        rfl

def RunEnding.report? : RunEnding → Option RunReport
  | finished report => some report
  | _ => none

namespace CommandLine

variable {σ : Type}

/-! What is wrong before a run starts. -/

theorem exitCode_of_isConfiguration {f : Fault} (h : f.isConfiguration = true) :
    (Failure.run f).exitCode = 30 := by
  cases f <;> first | rfl | cases h

theorem PlanChoice.exitCode_of_settings {p : PlanChoice} {f : Fault} (h : p.settings = .error f) :
    (Failure.run f).exitCode = 30 := by
  have hconfigures : Fault.Configures p.settings :=
    .bind (RepeatsOverride.configures_ofFlag _ _) fun _ => .ok _
  exact exitCode_of_isConfiguration (hconfigures f h)

theorem PlanChoice.exitCode_of_plan {p : PlanChoice} {source : Except FileFault String} {f : Failure}
    (h : p.plan source = .error f) : f.exitCode = 30 := by
  cases source with
  | error fault =>
    cases h
    rfl
  | ok text =>
    simp only [plan] at h
    cases hread : PlanFile.read p.format text with
    | ok plan => simp [hread, Except.mapError] at h
    | error fault =>
      simp only [hread, Except.mapError] at h
      cases h
      rfl

def accepted (p : PlanChoice) (choice : RunChoice) (source : Except FileFault String) :
    Except Failure Campaign := do
  let settings ← p.settings.mapError .run
  let (plan, _) ← p.plan source
  let settings := { settings with
    reportInterval := choice.reportInterval
    runTimeout := choice.runTimeout }
  (Campaign.prepare plan settings).2.mapError .run

/-- A run is rejected before it has shown anything, or its plan is shown; no target has a part in
that. -/
theorem launch_cases (p : PlanChoice) (form : OutputForm) (choice : RunChoice)
    (source : Except FileFault String) :
    (∃ f log, accepted p choice source = .error f ∧ f.exitCode = 30 ∧
      launch p form choice source = .error ⟨"", log, some f⟩) ∨
    ∃ c log, accepted p choice source = .ok c ∧ c.Ready ∧ LogEvent.starts log = [] ∧
      launch p form choice source = .ok ⟨c, form.plan c.plan c.repeats c.budget, log⟩ := by
  unfold accepted launch
  -- The settings, the plan and the two together are looked at in this order, and each may be rejected.
  cases hsettings : p.settings with
  | error f => exact .inl ⟨_, _, rfl, PlanChoice.exitCode_of_settings hsettings, rfl⟩
  | ok settings =>
    cases hplan : p.plan source with
    | error f => exact .inl ⟨_, _, rfl, PlanChoice.exitCode_of_plan hplan, rfl⟩
    | ok read =>
      obtain ⟨plan, unknown⟩ := read
      generalize hgiven : ({ settings with
        reportInterval := choice.reportInterval
        runTimeout := choice.runTimeout } : RunSettings) = given
      cases hprepare : Campaign.prepare plan given with
      | mk events prepared =>
        cases prepared with
        | error f =>
          have hcode := exitCode_of_isConfiguration (Campaign.refusal_of_prepare hprepare)
          refine .inl ⟨.run f, unknownEvents unknown ++ .runStarting choice.destination.url :: events,
            ?_, hcode, ?_⟩
          · simp [Except.mapError, bind, Except.bind, hgiven, hprepare]
          · simp only [hgiven, hprepare]
        | ok c =>
          refine .inr ⟨c, unknownEvents unknown ++ .runStarting choice.destination.url :: events,
            ?_, Campaign.ready_of_prepare hprepare, ?_, ?_⟩
          · simp [Except.mapError, bind, Except.bind, hgiven, hprepare]
          · have hunknown : LogEvent.starts (unknownEvents unknown) = [] := by
              cases unknown <;> rfl
            have hevents := Campaign.starts_of_prepare hprepare
            rw [LogEvent.starts, List.filterMap_append, ← LogEvent.starts, hunknown]
            exact hevents
          · simp only [hgiven, hprepare]

theorem Circumstances.exists_run {env : Environment σ} {around : Circumstances} {c : Campaign}
    (hc : c.Ready) (hhonours : env.target.Honours)
    (htime : ∀ i, ∀ run ∈ c.groups i, run.TakesTime env) (hrange : c.longest < Instant.limit)
    (hturns : c.enoughTurns ≤ around.turns) (state : σ) : ∃ o, around.run env state c = some o :=
  hc.exists_run htime (hc.staysInRange hhonours (by simpa [World.start] using hrange) _ _ _) hturns

/-! What a run shows. -/

open Output

/-- The records of a run: of its plan, of the executions of its phases in their order, and of its
end if it finished. -/
def records (c : Campaign) (o : RunOutcome σ) : List Json :=
  planRecord c.plan c.repeats c.budget :: o.summaries.map summaryRecord ++
    o.ending.report?.toList.map reportRecord

variable {c : Campaign} {o : RunOutcome σ}

theorem mem_records {r : Json} : r ∈ records c o ↔
    r = planRecord c.plan c.repeats c.budget ∨ (∃ s ∈ o.summaries, r = summaryRecord s) ∨
      ∃ report, o.ending.report? = some report ∧ r = reportRecord report := by
  simp [records, eq_comm (a := r)]

theorem isRecord_of_mem_records {r : Json} (h : r ∈ records c o) : r.IsRecord := by
  obtain rfl | ⟨s, -, rfl⟩ | ⟨report, -, rfl⟩ := mem_records.mp h
  · exact isRecord_planRecord _ _ _
  · exact isRecord_summaryRecord s
  · exact isRecord_reportRecord report

theorem shown_json (c : Campaign) (o : RunOutcome σ) :
    OutputForm.json.plan c.plan c.repeats c.budget ++ shown .json o =
      String.join ((records c o).map line) := by
  rw [← String.toList_inj]
  cases hending : o.ending <;>
    simp [records, shown, hending, RunEnding.report?, OutputForm.plan, OutputForm.summary,
      OutputForm.report, planLine, summaryLine, reportLine, String.toList_join, List.flatMap_map]

theorem filterMap_started?_records :
    (records c o).filterMap started? = o.summaries.map PhaseSummary.start := by
  have hsummaries : started? ∘ summaryRecord = some ∘ PhaseSummary.start := rfl
  have hreports : started? ∘ reportRecord = fun _ => none := rfl
  rw [records, List.cons_append, List.filterMap_cons_none (started?_planRecord ..)]
  simp [List.filterMap_map, hsummaries, hreports]

theorem filter_isPhase_records :
    (records c o).filter isPhase = o.summaries.map summaryRecord := by
  simp [records, List.filter_map, Function.comp_def]

theorem map_kind?_records : (records c o).map kind? =
    some "plan" :: List.replicate o.summaries.length (some "phase") ++
      o.ending.report?.toList.map fun _ => some "run" := by
  simp [records, Function.comp_def]

theorem starts_withInterrupt (t now : Instant) (h : History) :
    LogEvent.starts (withInterrupt t now h).logs = LogEvent.starts h.logs := by
  unfold withInterrupt
  split
  · rfl
  · rw [History.starts_logs, History.starts_logs, History.marks_append, History.marks_cons,
      if_neg nofun, ← History.marks_append, List.takeWhile_append_dropWhile]

theorem ending?_getLast?_records : ((records c o).filter isPhase).getLast?.bind ending? =
    o.summaries.getLast?.map fun s => s.ending.name := by
  rw [filter_isPhase_records, List.getLast?_map, Option.bind_map, Option.map_eq_bind]
  rfl

/-! The exit code of a run. -/

def endingCode (ending : RunEnding) : Nat := (endingFailure ending).elim 0 Failure.exitCode

theorem exitCode_eq {t : Transcript} {ending : RunEnding} (h : t.failure = endingFailure ending) :
    t.exitCode = endingCode ending := by
  rw [Transcript.exitCode, h, endingCode]
  cases endingFailure ending <;> rfl

section

variable {ss : List PhaseSummary} {ending : RunEnding} (h : c.Concludes ss ending)

include h

theorem endingCode_ne_thirty : endingCode ending ≠ 30 := by
  cases h <;> exact nofun

theorem endingCode_eq_zero_iff : endingCode ending = 0 ↔ ending.report?.isSome = true := by
  cases h <;> exact ⟨fun _ => by trivial, fun _ => by trivial⟩

theorem endingCode_eq_fifty_iff : endingCode ending = 50 ↔ ending = .failed .canceled := by
  cases h with
  | finished _ _ => exact ⟨nofun, nofun⟩
  | canceled _ => exact ⟨fun _ => rfl, fun _ => rfl⟩
  | cut _ _ => exact ⟨fun _ => rfl, fun _ => rfl⟩
  | setupFailed _ _ => exact ⟨nofun, nofun⟩

theorem endingCode_eq_forty_iff : endingCode ending = 40 ↔
    (ss.getLast?.map fun s => s.ending.name) = some "setup_failed" := by
  have hgoes : (∀ s ∈ ss, s.ending.isLast = false) →
      (ss.getLast?.map fun s => s.ending.name) ≠ some "setup_failed" := by
    intro hgoes hlast
    obtain ⟨s, hs, hname⟩ := Option.map_eq_some_iff.mp hlast
    have hending := hgoes s (List.mem_of_getLast? hs)
    cases hs : s.ending <;> simp [hs, PhaseEnd.name, PhaseEnd.isLast] at hname hending
  cases h with
  | finished goesOn _ => exact ⟨nofun, fun hlast => absurd hlast (hgoes goesOn)⟩
  | canceled goesOn => exact ⟨nofun, fun hlast => absurd hlast (hgoes goesOn)⟩
  | cut _ canceled =>
    refine ⟨nofun, fun hlast => ?_⟩
    simp [canceled, PhaseEnd.name] at hlast
  | setupFailed _ failed =>
    refine ⟨fun _ => ?_, fun _ => rfl⟩
    simp [failed, PhaseEnd.name]

theorem reports_of_concludes {report : RunReport} (hreport : ending.report? = some report) :
    c.Reports ss report := by
  cases h with
  | finished _ reports =>
    cases hreport
    exact reports
  | _ => cases hreport

theorem last_of_concludes {earlier later : List PhaseSummary} {s : PhaseSummary}
    (hsplit : ss = earlier ++ s :: later) (hs : s.ending.isLast = true) :
    later = [] ∧ ending.report? = none := by
  have hgoes : ¬ ∀ s ∈ ss, s.ending.isLast = false := fun hgoes =>
    absurd (hgoes s (by simp [hsplit])) (by simp [hs])
  have hlast : ∀ (before : List PhaseSummary) (z : PhaseSummary),
      (∀ s ∈ before, s.ending.isLast = false) → before ++ [z] = earlier ++ s :: later →
      later = [] := by
    intro before z hbefore heq
    rcases List.eq_nil_or_concat later with hnil | ⟨rest, y, rfl⟩
    · exact hnil
    · rw [List.concat_eq_append, ← List.cons_append, ← List.append_assoc] at heq
      obtain ⟨rfl, -⟩ := List.append_inj' heq rfl
      exact absurd (hbefore s (by simp)) (by simp [hs])
  cases h with
  | finished goesOn _ => exact absurd goesOn hgoes
  | canceled goesOn => exact absurd goesOn hgoes
  | cut goesOn _ => exact ⟨hlast _ _ goesOn hsplit, rfl⟩
  | setupFailed goesOn _ => exact ⟨hlast _ _ goesOn hsplit, rfl⟩

end

theorem last_record (h : c.Concludes o.summaries o.ending) {earlier later : List Json} {r : Json}
    (hsplit : records c o = earlier ++ r :: later) (hr : isPhase r = true)
    (hend : ending? r = some "canceled" ∨ ending? r = some "setup_failed") : later = [] := by
  have hmem : r ∈ (records c o).filter isPhase :=
    List.mem_filter.mpr ⟨by rw [hsplit]; simp, hr⟩
  rw [filter_isPhase_records] at hmem
  obtain ⟨s, hs, rfl⟩ := List.mem_map.mp hmem
  have hlast : ∀ s : PhaseSummary,
      ending? (summaryRecord s) = some "canceled" ∨ ending? (summaryRecord s) = some "setup_failed" →
      s.ending.isLast = true := by
    intro s hs
    cases hending : s.ending <;> simp [hending, PhaseEnd.name, PhaseEnd.isLast] at hs ⊢
  have hreport : o.ending.report? = none := by
    obtain ⟨before, after, hsummaries⟩ := List.append_of_mem hs
    exact (last_of_concludes h hsummaries (hlast s hend)).2
  rw [records, hreport, Option.toList_none, List.map_nil, List.append_nil] at hsplit
  cases earlier with
  | nil =>
    have hplan := (List.cons.inj hsplit).1
    rw [← hplan] at hr
    cases hr
  | cons first earlier =>
    obtain ⟨before, rest, hsummaries, -, hrest⟩ :=
      List.map_eq_append_iff.mp (List.cons.inj hsplit).2
    obtain ⟨z, after, rfl, hz, rfl⟩ := List.map_eq_cons_iff.mp hrest
    rw [← hz] at hend
    rw [(last_of_concludes h hsummaries (hlast z hend)).1, List.map_nil]

theorem countP_records (i : Nat) :
    (records c o).countP (fun r => (started? r).any (·.1 = i + 1)) =
      o.summaries.countP (·.phase = i) := by
  simp [records, List.countP_map, Function.comp_def]

theorem exists_report (h : c.Concludes o.summaries o.ending) {r : Json} (hr : r ∈ records c o)
    (hkind : kind? r = some "run") :
    ∃ report, c.Reports o.summaries report ∧ r = reportRecord report := by
  obtain rfl | ⟨s, -, rfl⟩ | ⟨report, hreport, rfl⟩ := mem_records.mp hr
  · simp at hkind
  · simp at hkind
  · exact ⟨report, reports_of_concludes h hreport, rfl⟩

theorem executed_record (h : c.Concludes o.summaries o.ending) {r : Json} (hr : r ∈ records c o)
    (hkind : kind? r = some "run") :
    executed r = (List.range c.phaseCount).map fun i =>
      some ((records c o).countP fun r => (started? r).any (·.1 = i + 1)) := by
  obtain ⟨report, hreports, rfl⟩ := exists_report h hr hkind
  rw [executed_reportRecord]
  refine List.ext_getElem (by simp [hreports.length]) fun i hi _ => ?_
  rw [List.length_map] at hi
  have hcount := hreports.counts i
  rw [List.getD_eq_getElem?_getD, List.getElem?_eq_getElem hi, Option.getD_some] at hcount
  simp [countP_records, hcount]

theorem total_record (h : c.Concludes o.summaries o.ending) {r : Json} (hr : r ∈ records c o)
    (hkind : kind? r = some "run") : total? r = some ((records c o).countP isPhase) := by
  obtain ⟨report, hreports, rfl⟩ := exists_report h hr hkind
  rw [total?_reportRecord, List.countP_eq_length_filter, filter_isPhase_records, List.length_map,
    hreports.total]

theorem completed_record (h : c.Concludes o.summaries o.ending) {r p : Json} (hr : r ∈ records c o)
    (hkind : kind? r = some "run") (hend : ending? r = some "completed") (hp : p ∈ records c o)
    (hplan : kind? p = some "plan") : executed r = repeated p ∧ total? r = planned? p := by
  obtain ⟨report, hreports, rfl⟩ := exists_report h hr hkind
  have hcompleted : report.ending = .completed := by
    cases hending : report.ending with
    | completed => rfl
    | runTimeout => simp [hending, RunEnd.name] at hend
  obtain ⟨hall, htotal⟩ := hreports.completed hcompleted
  obtain rfl | ⟨s, -, rfl⟩ | ⟨report, -, rfl⟩ := mem_records.mp hp
  · rw [executed_reportRecord, repeated_planRecord, total?_reportRecord, planned?_planRecord, hall,
      htotal, List.map_map]
    exact ⟨rfl, rfl⟩
  · simp at hplan
  · simp at hplan

/-- What a run shows to a program, and its exit code, agree with each other and with the log. -/
structure Streams (c : Campaign) (o : RunOutcome σ) (t : Transcript) : Prop where
  /-- Every record is a line, and nothing else is shown. -/
  lines : Text.splitAll '\n' t.stdout.toList = (records c o).map Json.chars ++ [[]]
  objects : ∀ r ∈ records c o, r.IsRecord
  /-- The plan, the executions that were started, and the run if it succeeds. -/
  kinds : (records c o).map kind? =
    some "plan" :: List.replicate (LogEvent.starts t.log).length (some "phase") ++
      if t.exitCode = 0 then [some "run"] else []
  starts : (records c o).filterMap started? = LogEvent.starts t.log
  /-- The code for what is rejected is not the code of a run. -/
  accepted : t.exitCode ≠ 30
  setupFailed : t.exitCode = 40 ↔
    ((records c o).filter isPhase).getLast?.bind ending? = some "setup_failed"
  canceled : t.exitCode = 50 ↔ o.ending = .failed .canceled
  /-- Nothing follows a phase that was cancelled or whose setup failed. -/
  last : ∀ earlier r later, records c o = earlier ++ r :: later → isPhase r = true →
    ending? r = some "canceled" ∨ ending? r = some "setup_failed" → later = []
  executed : ∀ r ∈ records c o, kind? r = some "run" →
    executed r = (List.range c.phaseCount).map fun i =>
      some ((records c o).countP fun r => (started? r).any (·.1 = i + 1))
  total : ∀ r ∈ records c o, kind? r = some "run" → total? r = some ((records c o).countP isPhase)
  /-- A run that is complete has done what its plan says. -/
  completed : ∀ r ∈ records c o, kind? r = some "run" → ending? r = some "completed" →
    ∀ p ∈ records c o, kind? p = some "plan" →
      Output.executed r = repeated p ∧ total? r = planned? p

theorem streams_of_run {env : Environment σ} {turns : Nat} {selector : Selector}
    {outer : Option Instant} {w : World σ} {t : Transcript} (hc : c.Ready)
    (hcalm : env.target.Calm) (hrun : c.run env turns selector outer w = some o)
    (hshown : t.stdout = String.join ((records c o).map line))
    (hlog : LogEvent.starts t.log = LogEvent.starts o.history.logs)
    (hfailure : t.failure = endingFailure o.ending) : Streams c o t := by
  have hconcludes := hc.concludes hcalm hrun
  have hcode := exitCode_eq hfailure
  rw [hc.starts_logs hrun (Campaign.run_calm hc hcalm hrun)] at hlog
  constructor
  case lines =>
    rw [hshown]
    exact splitAll_lines fun r hr => isRecord_of_mem_records hr
  case objects => exact fun r hr => isRecord_of_mem_records hr
  case kinds =>
    rw [map_kind?_records, hlog, List.length_map, hcode]
    simp only [endingCode_eq_zero_iff hconcludes]
    cases o.ending.report? <;> rfl
  case starts => rw [hlog, filterMap_started?_records]
  case accepted =>
    rw [hcode]
    exact endingCode_ne_thirty hconcludes
  case setupFailed =>
    rw [ending?_getLast?_records, hcode]
    exact endingCode_eq_forty_iff hconcludes
  case canceled =>
    rw [hcode]
    exact endingCode_eq_fifty_iff hconcludes
  case last => exact fun _ _ _ => last_record hconcludes
  case executed => exact fun _ => executed_record hconcludes
  case total => exact fun _ => total_record hconcludes
  case completed => exact fun _ hr hkind hend _ => completed_record hconcludes hr hkind hend

/-- A run that is rejected fails with code 30, whatever it was to run against: it shows nothing and
leaves its target as it was. Any other run has the result of its plan's run, and has one if the
rounds of its workers take time: what it shows is one line for each record, and the records, the log
and the exit code agree. -/
theorem run_streams (connect : Destination → Environment σ) (state : σ) (around : Circumstances)
    (p : PlanChoice) (choice : RunChoice) (source : Except FileFault String)
    (hcalm : (connect choice.destination).target.Calm) :
    (∃ f log, accepted p choice source = .error f ∧ f.exitCode = 30 ∧
      ∀ {τ : Type} (connect : Destination → Environment τ) (state : τ) (around : Circumstances),
        runAgainst connect state around p .json choice source = some (⟨"", log, some f⟩, state)) ∨
    ∃ c, accepted p choice source = .ok c ∧
      (around.run (connect choice.destination) state c = none ∧
          runAgainst connect state around p .json choice source = none ∨
        ∃ o t, around.run (connect choice.destination) state c = some o ∧
          runAgainst connect state around p .json choice source = some (t, o.world.target) ∧
          Streams c o t) ∧
      ((connect choice.destination).target.Honours →
        (∀ i, ∀ run ∈ c.groups i, run.TakesTime (connect choice.destination)) →
        c.longest < Instant.limit → c.enoughTurns ≤ around.turns →
        ∃ o, around.run (connect choice.destination) state c = some o) := by
  obtain ⟨f, log, hrejected, hcode, hlaunch⟩ | ⟨c, log, haccepted, hc, hlog, hlaunch⟩ :=
    launch_cases p .json choice source
  · exact .inl ⟨f, log, hrejected, hcode, fun _ _ _ => by rw [runAgainst, hlaunch]⟩
  refine .inr ⟨c, haccepted, ?_, fun hhonours htime hrange hturns =>
    Circumstances.exists_run hc hhonours htime hrange hturns state⟩
  simp only [runAgainst, hlaunch, Launch.run]
  cases hrun : around.run (connect choice.destination) state c with
  | none => exact .inl ⟨rfl, rfl⟩
  | some o =>
    refine .inr ⟨o, _, rfl, rfl, streams_of_run hc hcalm hrun (shown_json c o) ?_ rfl⟩
    rw [LogEvent.starts, List.filterMap_append, ← LogEvent.starts, hlog, List.nil_append]
    cases around.interruptAt with
    | none => rfl
    | some t => exact starts_withInterrupt t _ _

/-- The second phase has a setup; the name of the first is in two lines. -/
def warmup : String :=
  "\x7b\"phases\":[" ++
    "\x7b\"name\":\"warm\\n\\\"up\\\"\",\"client\":\x7b\"workers\":[" ++
    "\x7b\"instances\":1,\"duration\":\"9s\",\"delay\":\"4s\"\x7d]\x7d\x7d," ++
    "\x7b\"name\":\"load\",\"setup\":\x7b\x7d\x7d]\x7d"

def warmupPlan : PlanChoice := ⟨"warmup.json", none, -1, none, .ofSecs 1⟩

def warmupRun : RunChoice := ⟨"localhost", 8080, [], none, .ofSecs 5, none⟩

theorem warmup_streams : ∃ c o t, accepted warmupPlan warmupRun (.ok warmup) = .ok c ∧
    runAgainst (fun d => .orderly (Target.http .plain d)) none ⟨none, .seeded 0, 100⟩ warmupPlan .json
      warmupRun (.ok warmup) = some (t, o.world.target) ∧
    Streams c o t ∧ t.exitCode = 40 ∧
    LogEvent.starts t.log = [(1, "warm\n\"up\"", 1), (2, "load", 1)] := by
  have hresult : (runAgainst (fun d => .orderly (Target.http .plain d)) none ⟨none, .seeded 0, 100⟩
      warmupPlan .json warmupRun (.ok warmup)).map
        (fun r => (r.1.exitCode, LogEvent.starts r.1.log)) =
      some (40, [(1, "warm\n\"up\"", 1), (2, "load", 1)]) := by
    decide +kernel
  obtain ⟨f, log, -, hcode, hagainst⟩ |
      ⟨c, haccepted, ⟨-, hagainst⟩ | ⟨o, t, -, hagainst, hstreams⟩, -⟩ :=
    run_streams (fun d => .orderly (Target.http .plain d)) none ⟨none, .seeded 0, 100⟩ warmupPlan warmupRun
      (.ok warmup) (Target.calm_http _ _)
  · simp [hagainst, Transcript.exitCode, hcode] at hresult
  · simp [hagainst] at hresult
  · simp only [hagainst, Option.map_some, Option.some.injEq, Prod.mk.injEq] at hresult
    exact ⟨c, o, t, haccepted, hagainst, hstreams, hresult⟩

end CommandLine

end PhasedLoad
