import PhasedLoad.Proofs.Cancellation
import PhasedLoad.Proofs.Execution.Deadline

/-! A run whose deadline comes while an execution sets up or works: what the summary of that
execution tells of it, and the report of the run. -/

namespace PhasedLoad

section

variable {σ : Type} {env : Environment σ} {deadline : Option Instant} {w : World σ} {d : Instant}
  {body : Option String} {setup : Part SetupResult σ}

theorem World.stopReason_eq_deadlineExceeded (hd : d ∈ deadline) (hle : d ≤ w.now) :
    w.stopReason deadline = some .deadlineExceeded := by
  rw [Option.mem_def.mp hd, stopReason, StopReason.observe, if_pos]
  simpa using hle

theorem SetsUp.now_lt_deadline (hs : SetsUp env deadline w body setup) (hd : d ∈ deadline)
    (hlive : w.now < d) (h : ∀ reason, setup.result ≠ .stopped reason) : setup.world.now < d := by
  cases hs with
  | absent => exact hlive
  | stopped _ _ _ => exact absurd rfl (h _)
  | answered body hearly harrives =>
    obtain ⟨rfl, -⟩ := Part.arrived_cases harrives
    rw [World.receive_now]
    exact Nat.max_lt.mpr ⟨hlive, (earliest?_forall_lt.mp hearly).1 d hd⟩

end

theorem Execution.mem_history_summarized (x : Execution) :
    (⟨x.ended, .summarized x.summary⟩ : Entry) ∈ x.history := by
  simp [history, account]

namespace Campaign

variable {σ : Type} {env : Environment σ} {turns : Nat} {c : Campaign} {i number : Nat}
  {outer deadline : Option Instant} {w after : World σ} {result : ExecutionResult} {x : Execution}
  {selector : Selector} {plan : Plan} {settings : RunSettings} {events : List LogEvent} {d : Instant}

open RunState

/-- Setup and groups that last until the deadline of their execution end with it. -/
theorem Executes.cut (h : Executes env turns c i number outer w result after)
    (hd : d ∈ c.phaseDeadline i outer w) (hlive : w.now < d) (hx : result.execution? = some x)
    (hended : d ≤ x.ended) :
    x.ended = d ∧ x.summary.ending = .deadlineExceeded ∧ x.setupFault = none := by
  cases h with
  | setupPanicked _ _ => cases hx
  | @summarized setup work _ hsets hpursues hexecution =>
    rw [hx] at hexecution
    cases hexecution
    have hat : work.world.now = d := Nat.le_antisymm
      (hpursues.keeps hd (hsets.keeps hd hlive).now).now hended
    have hexceeded := World.stopReason_eq_deadlineExceeded hd (Nat.le_of_eq hat.symm)
    obtain ⟨reason, hending, hstop, hfailed⟩ | ⟨hresult, hworld | hnone⟩ := hpursues.ending hsets
    · rw [hexceeded] at hstop
      cases hstop
      exact ⟨hat, hending, by simp only [assemble]⟩
    · have hearly := hsets.now_lt_deadline hd hlive hresult
      rw [← hworld, hat] at hearly
      exact absurd hearly (Nat.lt_irrefl _)
    · rw [hexceeded] at hnone
      cases hnone

theorem phaseDeadline_of_lt (hlt : d < w.now + (c.budget.phase i).nanos) :
    c.phaseDeadline i (some d) w = some d := by
  unfold phaseDeadline World.within Instant.after?
  split
  · simp [Nat.min_eq_left (Nat.le_of_lt hlt)]
  · rfl

theorem started_of_execute (h : c.execute env turns i number outer w = some (result, after))
    (hx : result.execution? = some x) : x.started = w.now := by
  unfold execute at h
  dsimp only at h
  split at h
  · cases h
    cases hx
  · obtain ⟨work, -, h⟩ := Option.bind_eq_some_iff.mp h
    split at h
    all_goals
      cases h
      cases hx
      rfl

theorem Ready.ended_le_now (hc : c.Ready) {s : RunState σ}
    (hs : Reaches env turns c deadline (start c selector w) s) :
    ∀ y ∈ s.past, y.ended ≤ s.world.now := fun y hy =>
  (hc.passage hs).until_ ⟨y.ended, .summarized y.summary⟩
    (List.mem_flatMap.mpr ⟨y, List.mem_reverse.mpr hy, y.mem_history_summarized⟩)

theorem Ready.ended_lt_of_starts (hc : c.Ready) {s : RunState σ}
    (hs : Reaches env turns c (some d) (start c selector w) s) (hi : s.Starts c (some d) i) :
    ∀ y ∈ s.past, y.ended < d := fun y hy =>
  Nat.lt_of_le_of_lt (hc.ended_le_now hs y hy) ((World.stopReason_eq_none_iff.mp hi.1).1 d rfl)

/-- An execution that lasts until the deadline of the run is its last. -/
theorem Ready.last_of_ended (hc : c.Ready) {o : RunOutcome σ}
    (h : c.run env turns selector outer w = some o) (hd : c.deadline outer w = some d)
    (hx : x ∈ o.executions) (hended : d ≤ x.ended) : ∃ earlier, o.executions = earlier ++ [x] := by
  obtain ⟨earlier, later, hsplit⟩ := List.append_of_mem hx
  rcases List.eq_nil_or_concat later with rfl | ⟨later, y, rfl⟩
  · exact ⟨earlier, hsplit⟩
  · have hbefore : ∀ z ∈ (earlier ++ x :: later).reverse, z.ended < d := by
      refine hc.forall_executions (P := fun before _ => ∀ z ∈ before, z.ended < d) ?_ h
        (earlier ++ x :: later) y [] (by simp [hsplit])
      intro s result z after hs _ hstarts _ _
      rw [hd] at hs hstarts
      exact hc.ended_lt_of_starts hs hstarts
    exact absurd hended (Nat.not_le.mpr (hbefore x (by simp)))

theorem Ready.cut_of_ended (hc : c.Ready) {o : RunOutcome σ}
    (h : c.run env turns selector outer w = some o) (hd : c.deadline outer w = some d)
    (hx : x ∈ o.executions) (hended : d ≤ x.ended)
    (hbudget : d < x.started + (c.budget.phase x.phase).nanos) :
    x.ended = d ∧ x.summary.ending = .deadlineExceeded ∧ x.setupFault = none := by
  obtain ⟨earlier, later, hsplit⟩ := List.append_of_mem hx
  refine hc.forall_executions (P := fun _ x => d ≤ x.ended →
    d < x.started + (c.budget.phase x.phase).nanos →
    x.ended = d ∧ x.summary.ending = .deadlineExceeded ∧ x.setupFault = none) ?_ h earlier x later
    hsplit hended hbudget
  intro s result y after _ _ hstarts hexecute hy hended hbudget
  have hlive := (World.stopReason_eq_none_iff.mp hstarts.1).1 d hd
  rw [started_of_execute hexecute hy, (place_of_execute hexecute y hy).1] at hbudget
  exact (execute_cases (hc.live_of_starts hstarts) hexecute).cut
    (by rw [hd]; exact phaseDeadline_of_lt hbudget) hlive hy hended

/-- What the report of a run tells after an execution that its deadline has cut short. -/
structure ReportsCut (c : Campaign) (report : RunReport) : Prop where
  runTimeout_iff : report.ending = .runTimeout ↔
    ∃ i < c.phaseCount, report.executions.getD i 0 < c.repeats.count i
  completed_iff : report.ending = .completed ↔
    ∀ i < c.phaseCount, report.executions.getD i 0 = c.repeats.count i

theorem reportsCut_of_due {s : RunState σ} (hs : Due c s) {report : RunReport}
    (hexecutions : report.executions = s.executions) (hending : report.ending = .runTimeout) :
    c.ReportsCut report := by
  have hlength := Repeats.lt_length_of_hasBudget hs.due
  have hlt := Repeats.lt_count_of_hasBudget hs.due
  rw [hs.length] at hlength
  rw [← hexecutions] at hlt
  refine ⟨iff_of_true hending ⟨_, hlength, hlt⟩, ?_⟩
  rw [hending]
  exact ⟨nofun, fun hall => absurd (hall _ hlength) (Nat.ne_of_lt hlt)⟩

theorem reportsCut_of_completed {report : RunReport}
    (hexecutions : report.executions = (List.range c.phaseCount).map c.repeats.count)
    (hending : report.ending = .completed) : c.ReportsCut report := by
  have hall : ∀ i < c.phaseCount, report.executions.getD i 0 = c.repeats.count i := by
    intro i hi
    simp [hexecutions, List.getD_eq_getElem?_getD, hi]
  refine ⟨?_, iff_of_true hending hall⟩
  rw [hending]
  exact ⟨nofun, fun ⟨i, hi, hlt⟩ => absurd (hall i hi) (Nat.ne_of_lt hlt)⟩

/-- Suppose an execution lasts until the deadline of its run, which comes before the time of the
execution is over. Its setup and its groups then end with the deadline, its summary tells of a
deadline, and it is the last of its run. The run returns a report, which tells of a timeout exactly
if some phase has repeats left, and otherwise that it is complete. -/
theorem run_reports_cut (hprepare : prepare plan settings = (events, .ok c)) {o : RunOutcome σ}
    (h : c.run env turns selector outer w = some o) (hd : c.deadline outer w = some d)
    (hx : x ∈ o.executions) (hended : d ≤ x.ended)
    (hbudget : d < x.started + (c.budget.phase x.phase).nanos) :
    (x.ended = d ∧ x.summary.ending = .deadlineExceeded) ∧
    (∃ earlier, o.executions = earlier ++ [x]) ∧
    ∃ report, o.ending = .finished report ∧ c.ReportsCut report := by
  have hc := ready_of_prepare hprepare
  have hcut := hc.cut_of_ended h hd hx hended hbudget
  refine ⟨⟨hcut.1, hcut.2.1⟩, hc.last_of_ended h hd hx hended, ?_⟩
  obtain ⟨s, conclusion, t, hs, hlast, rfl⟩ := run_eq_some h
  rw [hd] at hs hlast
  have hdue := (due_start hc selector w).reaches hs
  -- When another execution starts, none in the past has lasted until the deadline.
  have hpast : s.Starts c (some d) s.current → x ∉ s.past := fun hstarts hmem =>
    absurd hended (Nat.not_le.mpr (hc.ended_lt_of_starts hs hstarts x hmem))
  rw [List.mem_reverse] at hx
  generalize hr : Round.last conclusion t = r at hlast
  cases hdue.proceeds hlast with
  | canceled hstop =>
    cases hr
    rw [World.stopReason_eq_deadlineExceeded rfl
      (Nat.le_trans hended (hc.ended_le_now hs x hx))] at hstop
    cases hstop
  | timedOut _ =>
    cases hr
    exact ⟨_, rfl, reportsCut_of_due hdue rfl rfl⟩
  | panicked hstarts _ _ =>
    cases hr
    exact absurd hx (hpast hstarts)
  | @concluded y world conclusion hstarts _ hconcludes =>
    cases hr
    obtain rfl := (List.mem_cons.mp hx).resolve_right (hpast hstarts)
    rcases concludedBy_cases hconcludes with ⟨f, hfault, -⟩ | ⟨-, hcanceled, -⟩
    · rw [hcut.2.2] at hfault
      cases hfault
    · rw [hcut.2.1] at hcanceled
      cases hcanceled
  | @turned y world hstarts hexecute _ =>
    have hrecord := hdue.record (place_of_execute hexecute y rfl).1 world
    obtain ⟨u, hturn, -⟩ | ⟨u, hturn, hexecutions, -, hall⟩ := hrecord.turn
    · rw [hturn] at hr
      cases hr
    · rw [hturn] at hr
      cases hr
      refine ⟨_, rfl, reportsCut_of_completed ?_ rfl⟩
      exact hexecutions.trans (hrecord.length ▸ hrecord.within.eq_map_count hall)

/-- A run of the lone worker that may take until between two of its calls. -/
def cutShort : RunSettings := { brief with runTimeout := some (.ofNanos midway) }

def cutLone : Campaign :=
  match prepare lone cutShort with
  | (_, .ok c) => c
  | (_, .error _) => ⟨lone, cutShort, .uniform 1, .ofPlan none lone (.uniform 1) cutShort.limits⟩

theorem prepare_cutLone : ∃ events, prepare lone cutShort = (events, .ok cutLone) := ⟨_, rfl⟩

theorem lone_reports_cut :
    (∃ events, prepare lone cutShort = (events, .ok cutLone)) ∧
    ∃ o x report,
      cutLone.run (.orderly Target.scripted) 100 .sequence none (.start [] none) = some o ∧
      x ∈ o.executions ∧ x.ended = midway ∧ x.summary.ending = .deadlineExceeded ∧
      o.ending = .finished report ∧ cutLone.ReportsCut report := by
  obtain ⟨events, hprepare⟩ := prepare_cutLone
  have hcheck : (cutLone.run (.orderly Target.scripted) 100 .sequence none (.start [] none)).any
      (fun o => o.executions.any fun x => midway ≤ x.ended &&
        midway < x.started + (cutLone.budget.phase x.phase).nanos) = true := by
    decide +kernel
  obtain ⟨o, hrun, ho⟩ := (Option.any_eq_true _ _).mp hcheck
  obtain ⟨x, hx, hbounds⟩ := List.any_eq_true.mp ho
  rw [Bool.and_eq_true, decide_eq_true_eq, decide_eq_true_eq] at hbounds
  obtain ⟨⟨hended, hending⟩, -, report, hreport, hcut⟩ :=
    run_reports_cut hprepare hrun (d := midway) (by decide +kernel) hx hbounds.1 hbounds.2
  exact ⟨⟨events, hprepare⟩, o, x, report, hrun, hx, hended, hending, hreport, hcut⟩

/-- A run may have its deadline while its last execution works, before that execution has had its
time, and yet report that it is complete. -/
theorem cut_run_reports_complete :
    (∃ events, prepare lone cutShort = (events, .ok cutLone)) ∧
    cutLone.settings.runTimeout = some (.ofNanos midway) ∧
    cutLone.deadline none (.start ([] : Target.Script) none) = some midway ∧
    ∃ o x report,
      cutLone.run (.orderly Target.scripted) 100 .sequence none (.start [] none) = some o ∧
      x ∈ o.executions ∧ x.started < midway ∧ midway ≤ x.ended ∧
      midway < x.started + (cutLone.budget.phase x.phase).nanos ∧
      o.ending = .finished report ∧ report.ending ≠ .runTimeout := by
  have hends : (cutLone.run (.orderly Target.scripted) 100 .sequence none (.start [] none)).map
      (·.ending) = some (.finished ⟨[1], 1, .ofNanos midway, .completed⟩) := by
    decide +kernel
  have hcheck : (cutLone.run (.orderly Target.scripted) 100 .sequence none (.start [] none)).any
      (fun o => o.executions.any fun x => decide (x.started < midway) && (midway ≤ x.ended &&
        midway < x.started + (cutLone.budget.phase x.phase).nanos)) = true := by
    decide +kernel
  obtain ⟨o, hrun, hending⟩ := Option.map_eq_some_iff.mp hends
  obtain ⟨o', hrun', ho⟩ := (Option.any_eq_true _ _).mp hcheck
  obtain rfl : o = o' := Option.some.inj (hrun.symm.trans hrun')
  obtain ⟨x, hx, hbounds⟩ := List.any_eq_true.mp ho
  simp only [Bool.and_eq_true, decide_eq_true_eq] at hbounds
  exact ⟨prepare_cutLone, by decide +kernel, by decide +kernel, o, x, _, hrun, hx, hbounds.1,
    hbounds.2.1, hbounds.2.2, hending, by decide⟩

end Campaign

end PhasedLoad
