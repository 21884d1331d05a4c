import PhasedLoad.Proofs.Rounds
import PhasedLoad.Proofs.Share
import PhasedLoad.Target.Script

/-! A run keeps to its repeats: every execution that starts is one that its phase has left, and a
run without failure reports that it is complete exactly if no phase has any left. -/

namespace PhasedLoad

namespace Campaign

variable {σ : Type} {c : Campaign}

open RunState

theorem Ready.executions_eq (h : c.Ready) : c.budget.executions = c.executions :=
  Budget.executions_eq_total h.budget_eq h.phases_ne_nil

theorem run_eq_some {env : Environment σ} {turns : Nat} {selector : Selector}
    {outer : Option Instant} {world : World σ} {o : RunOutcome σ}
    (h : c.run env turns selector outer world = some o) :
    ∃ s conclusion t, Reaches env turns c (c.deadline outer world) (start c selector world) s ∧
      s.round env turns c (c.deadline outer world) = some (.last conclusion t) ∧
      o =
        { ending := (c.conclude world.now t conclusion).1
          opening := c.overview.map (Part.logged world)
          executions := t.past.reverse
          closing := (c.conclude world.now t conclusion).2
          selector := t.selector
          world := t.world } := by
  simp only [run, Option.bind_eq_bind, Option.bind_eq_some_iff, Option.some.injEq] at h
  obtain ⟨⟨conclusion, t⟩, hplay, ho⟩ := h
  obtain ⟨s, hs, hlast⟩ := play_eq_some_iff.mp hplay
  exact ⟨s, conclusion, t, hs, hlast, ho.symm⟩

theorem run_of_round {env : Environment σ} {turns : Nat} {selector : Selector}
    {outer : Option Instant} {world : World σ} {s t : RunState σ} {conclusion : Conclusion}
    (hs : Reaches env turns c (c.deadline outer world) (start c selector world) s)
    (hlast : s.round env turns c (c.deadline outer world) = some (.last conclusion t)) :
    ∃ o, c.run env turns selector outer world = some o ∧
      o.ending = (c.conclude world.now t conclusion).1 ∧ o.executions = t.past.reverse := by
  have hplay := play_eq_some_iff.mpr ⟨s, hs, hlast⟩
  cases hrun : c.run env turns selector outer world with
  | none => simp [run, hplay] at hrun
  | some o =>
    simp only [run, hplay, Option.bind_eq_bind, Option.bind_some, Option.some.injEq] at hrun
    exact ⟨o, rfl, by rw [← hrun], by rw [← hrun]⟩

theorem conclude_eq_finished {started : Instant} {s : RunState σ} {conclusion : Conclusion}
    {report : RunReport} (h : (c.conclude started s conclusion).1 = .finished report) :
    report.executions = s.executions ∧ report.total = s.executions.sum ∧
      (conclusion = .completed ∧ report.ending = .completed ∨
        conclusion = .timedOut ∧ report.ending = .runTimeout) := by
  cases conclusion with
  | completed => cases h; exact ⟨rfl, rfl, .inl ⟨rfl, rfl⟩⟩
  | timedOut => cases h; exact ⟨rfl, rfl, .inr ⟨rfl, rfl⟩⟩
  | canceled => cases h
  | setupFailed i f => cases h
  | panicked text history => cases h

/-- Only executions that the phase has left are started. -/
theorem Ready.starts_within {env : Environment σ} {turns : Nat} {deadline : Option Instant}
    (h : c.Ready) {selector : Selector} {world : World σ} {s : RunState σ}
    (hs : Reaches env turns c deadline (start c selector world) s) {i : Nat}
    (hi : s.Starts c deadline i) :
    i < c.phaseCount ∧ s.executions.getD i 0 < c.repeats.count i ∧
      c.repeats.Within (s.executions.record i) ∧
      s.past.length + 1 ≤ c.repeats.total c.phaseCount := by
  have hdue := (due_start h selector world).reaches hs
  have hpick := hi.2
  rw [hdue.pick_eq] at hpick
  cases hpick
  have hlength := Repeats.lt_length_of_hasBudget hdue.due
  have hremaining := Repeats.remaining_pos hdue.due
  have hcounted := hdue.counted
  rw [hdue.length] at hlength
  refine ⟨hlength, Repeats.lt_count_of_hasBudget hdue.due, hdue.within.record hdue.due, ?_⟩
  simp only [executions] at hcounted
  omega

structure Accounts (c : Campaign) (report : RunReport) : Prop where
  length : report.executions.length = c.phaseCount
  completed_iff : report.ending = .completed ↔
    ∀ i < c.phaseCount, report.executions[i]? = some (c.repeats.count i)
  total_eq : report.ending = .completed →
    report.total = c.repeats.total c.phaseCount ∧ report.total = c.budget.executions
  left : report.ending = .runTimeout →
    ∃ i < c.phaseCount, report.executions.getD i 0 < c.repeats.count i

theorem Ready.accounts_completed (h : c.Ready) {report : RunReport}
    (hexecutions : report.executions = (List.range c.phaseCount).map c.repeats.count)
    (htotal : report.total = report.executions.sum) (hending : report.ending = .completed) :
    c.Accounts report where
  length := by simp [hexecutions]
  completed_iff := by simp +contextual [hexecutions, hending]
  total_eq := by
    have hsum : report.total = c.repeats.total c.phaseCount := by
      rw [htotal, hexecutions, Repeats.total_eq_sum]
    exact fun _ => ⟨hsum, by rw [hsum, h.executions_eq, executions]⟩
  left := by simp [hending]

theorem accounts_runTimeout {s : RunState σ} (h : Due c s) {report : RunReport}
    (hexecutions : report.executions = s.executions) (hending : report.ending = .runTimeout) :
    c.Accounts report := by
  have hlength := Repeats.lt_length_of_hasBudget h.due
  have hlt := Repeats.lt_count_of_hasBudget h.due
  rw [h.length] at hlength
  refine ⟨by rw [hexecutions, h.length], ?_, by simp [hending],
    fun _ => ⟨s.current, hlength, by rwa [hexecutions]⟩⟩
  simp only [hending, reduceCtorEq, false_iff, hexecutions]
  intro hall
  have hcurrent := hall s.current hlength
  rw [List.getD_eq_getElem?_getD, hcurrent] at hlt
  simp at hlt

theorem deadline_le_of_stopReason {deadline : Option Instant} {world : World σ}
    (h : world.stopReason deadline = some .deadlineExceeded) :
    ∃ t, deadline = some t ∧ t ≤ world.now := by
  unfold World.stopReason StopReason.observe at h
  split at h
  · next hd =>
    cases deadline with
    | none => simp at hd
    | some t => exact ⟨t, rfl, by simpa using hd⟩
  · split at h <;> cases h

/-- Between rounds the current phase exists and no phase was executed too often; an execution that
starts is one that its phase has left, so no more start than there are repeats. A run has no end
only because an execution has none. A report says that the run is complete exactly if every phase
was executed as often as it may be, and that it timed out only after the deadline and with repeats
left. -/
theorem run_keeps_repeats {plan : Plan} {settings : RunSettings} {events : List LogEvent}
    (h : prepare plan settings = (events, .ok c)) (env : Environment σ) (turns : Nat)
    (selector : Selector) (outer : Option Instant) (world : World σ) :
    (∀ s, Reaches env turns c (c.deadline outer world) (start c selector world) s →
      s.current < c.phaseCount ∧ c.repeats.Within s.executions ∧
      ∀ i, s.Starts c (c.deadline outer world) i →
        i < c.phaseCount ∧ s.executions.getD i 0 < c.repeats.count i ∧
        c.repeats.Within (s.executions.record i) ∧
        s.past.length + 1 ≤ c.repeats.total c.phaseCount) ∧
    (c.run env turns selector outer world = none →
      ∃ s i, Reaches env turns c (c.deadline outer world) (start c selector world) s ∧
        s.Starts c (c.deadline outer world) i ∧
        c.execute env turns i (s.executions.getD i 0 + 1) (c.deadline outer world) s.world =
          none) ∧
    ∀ o report, c.run env turns selector outer world = some o → o.ending = .finished report →
      c.Accounts report ∧
      (report.ending = .runTimeout → ∃ t, c.deadline outer world = some t ∧ t ≤ o.world.now) := by
  have hready := ready_of_prepare h
  refine ⟨?_, ?_, ?_⟩
  · intro s hs
    have hdue := (due_start hready selector world).reaches hs
    have hlength := Repeats.lt_length_of_hasBudget hdue.due
    rw [hdue.length] at hlength
    exact ⟨hlength, hdue.within, fun i hi => hready.starts_within hs hi⟩
  · intro hrun
    simp only [run, Option.bind_eq_bind, Option.bind_eq_none_iff] at hrun
    cases hplay : (start c selector world).play env turns c (c.deadline outer world) with
    | none =>
      obtain ⟨s, hs, hround⟩ := exists_round_eq_none hplay
      obtain ⟨i, hi, hexecute⟩ := starts_of_round_eq_none hround
      exact ⟨s, i, hs, hi, hexecute⟩
    | some p => cases hrun p hplay
  · intro o report hrun hreport
    obtain ⟨s, conclusion, t, hs, hlast, rfl⟩ := run_eq_some hrun
    have hdue := (due_start hready selector world).reaches hs
    obtain ⟨hexecutions, htotal, ⟨rfl, hending⟩ | ⟨rfl, hending⟩⟩ := conclude_eq_finished hreport
    · rw [hdue.completed hlast] at hexecutions htotal
      refine ⟨hready.accounts_completed hexecutions (by rw [htotal, hexecutions]) hending, ?_⟩
      simp [hending]
    · obtain ⟨rfl, hstop⟩ := hdue.timedOut hlast
      exact ⟨accounts_runTimeout hdue hexecutions hending,
        fun _ => deadline_le_of_stopReason hstop⟩

/-- Two phases that take turns: one with a setup, two workers and a teardown, to be executed twice,
and an empty one. -/
def pair : Plan :=
  { pattern := .cycle
    phases :=
      [{ name := "load", workers := [⟨2, .ofSecs 60, .ofSecs 25, .ofSecs 1⟩], setup := some .null,
         workload := none, teardown := some .null, repeats := 2 },
        { name := "rest", workers := [], setup := none, workload := none, teardown := none,
          repeats := 1 }] }

def pairReady : Campaign :=
  match prepare pair .standard with
  | (_, .ok c) => c
  | (_, .error _) => ⟨pair, .standard, .uniform 1, .ofPlan none pair (.uniform 1) .standard⟩

theorem prepare_pair : ∃ events, prepare pair .standard = (events, .ok pairReady) := ⟨_, rfl⟩

theorem pair_finishes : ∃ o : RunOutcome Target.Script,
    pairReady.run (.orderly Target.scripted) 100 .cycle none (.start [] none) = some o ∧
      o.ending = .finished ⟨[2, 1], 3, .ofSecs 120, .completed⟩ := by
  have h : (pairReady.run (.orderly Target.scripted) 100 .cycle none (.start [] none)).map
      (·.ending) = some (.finished ⟨[2, 1], 3, .ofSecs 120, .completed⟩) := by
    decide +kernel
  obtain ⟨o, hrun, hending⟩ := Option.map_eq_some_iff.mp h
  exact ⟨o, hrun, hending⟩

theorem pair_keeps_repeats :
    (∃ events, prepare pair .standard = (events, .ok pairReady)) ∧
    ∃ o report, pairReady.run (.orderly Target.scripted) 100 .cycle none (.start [] none) = some o ∧
      o.ending = .finished report ∧ report.executions = [2, 1] ∧ pairReady.Accounts report := by
  obtain ⟨events, hprepare⟩ := prepare_pair
  obtain ⟨o, hrun, hending⟩ := pair_finishes
  have hkeeps := run_keeps_repeats hprepare (.orderly Target.scripted) 100 .cycle none (.start [] none)
  exact ⟨⟨events, hprepare⟩, o, _, hrun, hending, rfl, (hkeeps.2.2 o _ hrun hending).1⟩

end Campaign

end PhasedLoad
