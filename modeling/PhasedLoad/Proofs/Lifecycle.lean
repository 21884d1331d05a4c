import PhasedLoad.Proofs.Completion
import PhasedLoad.Proofs.Execution.Block

/-! The life of a run: its history is that of its executions, one after the other, and each of them
sets up, works, sums up and tears down as its phase asks for. -/

namespace PhasedLoad

def Phase.setupCalls (p : Phase) : List Event :=
  p.setup.toList.map fun j => .called .setup ⟨Json.compact j, some (.ofSecs 10)⟩

def Phase.teardownCalls (p : Phase) : List Event :=
  p.teardown.toList.map fun j => .called .teardown ⟨Json.compact j, some (.ofSecs 10)⟩

def Phase.workBody (p : Phase) : String := (p.workload.map Json.compact).getD "\x7b\x7d"

def Phase.Calls (p : Phase) (event : Event) : Prop :=
  ∃ k g number, p.workers[k]? = some g ∧ 1 ≤ number ∧ number ≤ g.instances ∧
    event = .called (.worker (k + 1) number) ⟨p.workBody, some g.effectiveTimeout⟩

/-- An execution of a phase as the phase asks for it, with the calls of its workers. -/
structure Phase.Block (c : Campaign) (p : Phase) (x : Execution) (calls : List Event) : Prop where
  marks : x.history.marks = .logged (c.startEvent x.phase x.number) ::
    (p.setupCalls ++ calls ++ .summarized x.summary :: p.teardownCalls)
  work : ∀ event ∈ calls, p.Calls event
  answered : calls ≠ [] → p.setup = none ∨ x.opening.Answered
  phase : x.summary.phase = x.phase
  execution : x.summary.execution = x.number

namespace Campaign

variable {σ : Type} {env : Environment σ} {turns : Nat} {c : Campaign} {i number : Nat}
  {outer deadline : Option Instant} {w after : World σ} {result : ExecutionResult} {x : Execution}
  {selector : Selector} {plan : Plan} {settings : RunSettings} {events : List LogEvent}

open RunState

theorem phase_of_prepare (h : prepare plan settings = (events, .ok c)) (hi : i < c.phaseCount) :
    ∃ p, plan.phases[i]? = some p ∧ c.requests i = .ofPhase p ∧
      ∀ run ∈ c.groups i, ∃ k g, p.workers[k]? = some g ∧ run.name.group = k + 1 ∧
        run.instances = g.instances ∧ run.call = ⟨p.workBody, some g.effectiveTimeout⟩ := by
  obtain ⟨n, hn⟩ : ∃ n, c.plan.phases[i]? = some n := ⟨_, List.getElem?_eq_getElem hi⟩
  have hphases := Plan.normalizeAll_of_normalize (normalize_of_prepare h)
  obtain ⟨p, hp, hnormal⟩ := Phase.normalizeAll_getElem? hphases hn
  obtain ⟨hworkers, hsetup, hworkload, hteardown⟩ := Phase.normalize_eq_ok hnormal
  have hrequests : c.requests i = .ofPhase p := by
    simp [requests, Requests.ofPhase, List.getD_eq_getElem?_getD, hn, hsetup, hworkload, hteardown]
  refine ⟨p, hp, hrequests, ?_⟩
  intro run hrun
  obtain ⟨k, hk, rfl⟩ := List.mem_mapIdx.mp hrun
  rw [hrequests]
  simp only [List.getD_eq_getElem?_getD, hn, Option.getD_some] at hk ⊢
  obtain ⟨g, hg, hgroup⟩ :=
    WorkerGroup.normalizeAll_getElem? hworkers (List.getElem?_eq_getElem hk)
  rw [WorkerGroup.normalize_eq_ok hgroup]
  exact ⟨k, g, hg, rfl, rfl, rfl⟩

theorem Ready.live_of_starts (hc : c.Ready) {s : RunState σ} (hi : s.Starts c deadline i) :
    s.world.stopReason (c.phaseDeadline i deadline s.world) = none := by
  obtain ⟨hdeadline, hcanceled⟩ := World.stopReason_eq_none_iff.mp hi.1
  refine World.stopReason_eq_none_iff.mpr ⟨earliest?_forall_lt.mpr ⟨hdeadline, ?_⟩, hcanceled⟩
  intro t ht
  unfold Instant.after? at ht
  split at ht
  · cases ht
    exact Nat.lt_add_of_pos_right (hc.phase_pos i)
  · cases ht

theorem account_marks (x : Execution) : x.account.marks = [.summarized x.summary] := by
  rw [Execution.account, History.marks_append, History.marks_of_lines]
  · rfl
  · intro e he
    obtain ⟨line, hline, rfl⟩ := List.mem_map.mp he
    exact LogEvent.isLine_of_mem_ofSummary line hline

theorem block_of_execute (hprepare : prepare plan settings = (events, .ok c))
    (hi : i < c.phaseCount) (hlive : w.stopReason (c.phaseDeadline i outer w) = none)
    (h : c.execute env turns i number outer w = some (result, after))
    (hx : result.execution? = some x) :
    ∃ p calls, plan.phases[x.phase]? = some p ∧ p.Block c x calls := by
  obtain ⟨p, hp, hrequests, hgroups⟩ := phase_of_prepare hprepare hi
  cases execute_cases hlive h with
  | setupPanicked _ _ => cases hx
  | @summarized setup work _ hsets hpursues hexecution =>
    rw [hx] at hexecution
    cases hexecution
    refine ⟨p, work.history.marks, hp, ?_, ?_, ?_, rfl, rfl⟩
    · simp only [Execution.history, History.marks_append, account_marks]
      simp only [assemble, History.marks_cons, hsets.marks, tearDown_marks, hrequests,
        Requests.ofPhase, Option.toList_map, List.map_map]
      simp [Part.logged, startEvent, Event.isMark, Phase.setupCalls, Phase.teardownCalls, setupCall,
        standardTimeout, Function.comp_def]
    · intro event hevent
      obtain ⟨-, run, hrun, number, hhas, rfl⟩ := hpursues.marks event hevent
      obtain ⟨k, g, hg, hgroup, hinstances, hcall⟩ := hgroups run hrun
      exact ⟨k, g, number, hg, hhas.1, hinstances ▸ hhas.2, by rw [hgroup, hcall]⟩
    · intro hne
      obtain ⟨event, hevent⟩ := List.exists_mem_of_ne_nil _ hne
      have hready := (hpursues.marks event hevent).1
      rcases hsets.answered_of_ready hready with hnone | ⟨e, he, hanswered⟩
      · left
        simpa [hrequests, Requests.ofPhase] using hnone
      · exact .inr ⟨e, List.mem_cons_of_mem _ he, hanswered⟩

/-- What is true of each execution and those before it is true of the past of every state that a run
comes to. -/
theorem Ready.forall_past (hc : c.Ready) {P : List Execution → Execution → Prop}
    (hP : ∀ s x after, Reaches env turns c deadline (start c selector w) s → Due c s →
      s.Starts c deadline s.current →
      c.execute env turns s.current (s.executions.getD s.current 0 + 1) deadline s.world =
        some (.done x, after) → P s.past x)
    {s : RunState σ} (hs : Reaches env turns c deadline (start c selector w) s) :
    ∀ later x earlier, s.past = later ++ x :: earlier → P earlier x := by
  induction hs with
  | refl =>
    intro later x earlier hpast
    simp [start] at hpast
  | @next t u hs hround ih =>
    have hdue := (due_start hc selector w).reaches hs
    obtain ⟨hstarts, x, hexecute, hpast⟩ := (hdue.proceeds hround).next_cases
    intro later y earlier hu
    rw [hpast] at hu
    cases later with
    | nil =>
      cases hu
      exact hP t x u.world hs hdue hstarts hexecute
    | cons z later => exact ih later y earlier (List.cons.inj hu).2

theorem Ready.passage (hc : c.Ready) {s : RunState σ}
    (hs : Reaches env turns c deadline (start c selector w) s) :
    Passage w (s.past.reverse.flatMap Execution.history) s.world := by
  induction hs with
  | refl => exact .refl w
  | @next t u hs hround ih =>
    have hdue := (due_start hc selector w).reaches hs
    obtain ⟨hstarts, x, hexecute, hpast⟩ := (hdue.proceeds hround).next_cases
    have hpassage := execute_passage (hc.live_of_starts hstarts) hexecute
    rw [hpast]
    simpa [ExecutionResult.history] using ih.trans hpassage

theorem isLine_of_mem_overview (c : Campaign) :
    ∀ line ∈ c.overview, (Event.logged line).isLine = true := by
  intro line hline
  simp only [overview, List.cons_append, List.mem_cons, List.mem_append, Option.mem_toList,
    Option.map_eq_some_iff, List.mem_mapIdx] at hline
  rcases hline with rfl | ⟨p, -, rfl⟩ | ⟨i, hi, rfl⟩ <;> rfl

theorem conclude_cases (c : Campaign) (started : Instant) (s : RunState σ)
    (conclusion : Conclusion) :
    (∃ text h, conclusion = .panicked text h ∧ c.conclude started s conclusion = (.panicked text, h)) ∨
      (∀ text, (c.conclude started s conclusion).1 ≠ .panicked text) ∧
      ∀ e ∈ (c.conclude started s conclusion).2, e.event.isLine = true ∧
        e.instant = s.world.now := by
  cases conclusion with
  | panicked text h => exact .inl ⟨text, h, rfl, rfl⟩
  | _ =>
    right
    simp [conclude, conclude.finish, Part.logged, Event.isLine]

/-- A run ends in a state that it comes to, or with one more execution; it tells no more after that
unless the execution broke it down. -/
theorem Ready.run_cases (hc : c.Ready) {o : RunOutcome σ}
    (h : c.run env turns selector outer w = some o) :
    ∃ s, Reaches env turns c (c.deadline outer w) (start c selector w) s ∧
      o.opening = c.overview.map (Part.logged w) ∧
      ((o.executions = s.past.reverse ∧ o.world = s.world ∧
          (∀ text, o.ending ≠ .panicked text) ∧
          ∀ e ∈ o.closing, e.event.isLine = true ∧ e.instant = o.world.now) ∨
        s.Starts c (c.deadline outer w) s.current ∧ ∃ result,
          c.execute env turns s.current (s.executions.getD s.current 0 + 1) (c.deadline outer w)
            s.world = some (result, o.world) ∧
          ((∃ text, result.panic? = some text ∧ o.ending = .panicked text ∧
              o.executions = s.past.reverse ∧ o.closing = result.history) ∨
            ∃ x, result = .done x ∧ o.executions = s.past.reverse ++ [x] ∧
              (∀ text, o.ending ≠ .panicked text) ∧
              ∀ e ∈ o.closing, e.event.isLine = true ∧ e.instant = o.world.now)) := by
  obtain ⟨s, conclusion, t, hs, hlast, rfl⟩ := run_eq_some h
  refine ⟨s, hs, rfl, ?_⟩
  have hdue := (due_start hc selector w).reaches hs
  have hconclude := conclude_cases c w.now t conclusion
  obtain ⟨rfl, hconclusion⟩ | ⟨hstarts, result, hexecute, hresult⟩ :=
    (hdue.proceeds hlast).last_cases
  · obtain ⟨text, h, rfl, -⟩ | ⟨hne, hlines⟩ := hconclude
    · rcases hconclusion with hconclusion | hconclusion <;> cases hconclusion
    · exact .inl ⟨rfl, rfl, hne, hlines⟩
  · refine .inr ⟨hstarts, result, hexecute, ?_⟩
    obtain ⟨text, hpanic, rfl, hpast⟩ | ⟨x, rfl, hpast, hconclusion⟩ := hresult
    · exact .inl ⟨text, hpanic, rfl, by rw [hpast], rfl⟩
    · obtain ⟨text, h, rfl, -⟩ | ⟨hne, hlines⟩ := hconclude
      · rcases hconclusion with hconclusion | hconclusion
        · cases hconclusion
        · rcases concludedBy_cases hconclusion with ⟨f, -, hf⟩ | ⟨-, -, hf⟩ <;> cases hf
      · exact .inr ⟨x, rfl, by rw [hpast, List.reverse_cons], hne, hlines⟩

theorem Ready.run_passage (hc : c.Ready) {o : RunOutcome σ}
    (h : c.run env turns selector outer w = some o) : Passage w o.history o.world := by
  obtain ⟨s, hs, hopening, hcases⟩ := hc.run_cases h
  have hpast :=
    (Part.passage_logged (w := w) (isLine_of_mem_overview c)).trans (hc.passage hs)
  have hlines : (∀ e ∈ o.closing, e.event.isLine = true ∧ e.instant = o.world.now) →
      Passage o.world o.closing o.world := fun h =>
    .linesNow _ (fun e he => (h e he).1) fun e he => (h e he).2
  rw [RunOutcome.history, hopening]
  obtain ⟨hexecutions, hworld, -, hclosing⟩ | ⟨hstarts, result, hexecute, hresult⟩ := hcases
  · rw [hexecutions]
    rw [← hworld] at hpast
    exact hpast.trans (hlines hclosing)
  · have hlast := hpast.trans (execute_passage (hc.live_of_starts hstarts) hexecute)
    obtain ⟨text, -, -, hexecutions, hclosing⟩ | ⟨x, rfl, hexecutions, -, hclosing⟩ := hresult
    · rw [hexecutions, hclosing]
      exact hlast
    · rw [hexecutions]
      simpa [ExecutionResult.history] using hlast.trans (hlines hclosing)

theorem Ready.run_marks (hc : c.Ready) {o : RunOutcome σ}
    (h : c.run env turns selector outer w = some o) (hreturns : ∀ text, o.ending ≠ .panicked text) :
    o.history.marks = o.executions.flatMap fun x => x.history.marks := by
  obtain ⟨s, hs, hopening, hcases⟩ := hc.run_cases h
  have hclosing : o.closing.marks = [] := by
    obtain ⟨-, -, -, hclosing⟩ | ⟨-, result, -, ⟨text, -, hpanicked, -⟩ | ⟨x, -, -, -, hclosing⟩⟩ :=
      hcases
    · exact History.marks_of_lines fun e he => (hclosing e he).1
    · exact absurd hpanicked (hreturns text)
    · exact History.marks_of_lines fun e he => (hclosing e he).1
  rw [RunOutcome.history, History.marks_append, History.marks_append, History.marks_flatMap,
    hclosing, hopening,
    History.marks_of_lines (Part.isLine_of_mem_logged (isLine_of_mem_overview c))]
  simp

theorem Ready.forall_executions (hc : c.Ready) {P : List Execution → Execution → Prop}
    (hP : ∀ s result x after,
      Reaches env turns c (c.deadline outer w) (start c selector w) s → Due c s →
      s.Starts c (c.deadline outer w) s.current →
      c.execute env turns s.current (s.executions.getD s.current 0 + 1) (c.deadline outer w)
        s.world = some (result, after) → result.execution? = some x → P s.past x)
    {o : RunOutcome σ} (h : c.run env turns selector outer w = some o) :
    ∀ earlier x later, o.executions = earlier ++ x :: later → P earlier.reverse x := by
  obtain ⟨s, hs, -, hcases⟩ := hc.run_cases h
  have hpast : ∀ later x earlier, s.past = later ++ x :: earlier → P earlier x :=
    hc.forall_past (fun s x after hs hdue hstarts hexecute =>
      hP s _ x after hs hdue hstarts hexecute rfl) hs
  have hreverse : ∀ earlier x later, s.past.reverse = earlier ++ x :: later → P earlier.reverse x := by
    intro earlier x later hsplit
    exact hpast later.reverse x earlier.reverse (by rw [← List.reverse_reverse s.past, hsplit]; simp)
  intro earlier x later hsplit
  obtain ⟨hexecutions, -⟩ | ⟨hstarts, result, hexecute, ⟨text, -, -, hexecutions, -⟩ |
    ⟨y, rfl, hexecutions, -⟩⟩ := hcases
  · exact hreverse earlier x later (by rw [← hexecutions, hsplit])
  · exact hreverse earlier x later (by rw [← hexecutions, hsplit])
  · rw [hexecutions] at hsplit
    rcases List.eq_nil_or_concat later with rfl | ⟨later, z, rfl⟩
    · obtain ⟨rfl, hy⟩ := List.append_inj' hsplit rfl
      cases hy
      rw [List.reverse_reverse]
      exact hP s _ x o.world hs ((due_start hc selector w).reaches hs) hstarts hexecute rfl
    · rw [List.concat_eq_append, ← List.cons_append, ← List.append_assoc] at hsplit
      exact hreverse earlier x later (List.append_inj' hsplit rfl).1

/-- What lines have, what every execution has, and what is kept when histories are joined, the
history of a run has. -/
theorem Ready.history_induction (hc : c.Ready) {Q : History → Prop}
    (hlines : ∀ h : History, (∀ e ∈ h, e.event.isLine = true) → Q h)
    (happend : ∀ h h', Q h → Q h' → Q (h ++ h'))
    (hexecute : ∀ s result after,
      Reaches env turns c (c.deadline outer w) (start c selector w) s →
      s.Starts c (c.deadline outer w) s.current →
      c.execute env turns s.current (s.executions.getD s.current 0 + 1) (c.deadline outer w)
        s.world = some (result, after) → Q result.history)
    {o : RunOutcome σ} (h : c.run env turns selector outer w = some o) : Q o.history := by
  have hexecutions : ∀ x ∈ o.executions, Q x.history := by
    intro x hx
    obtain ⟨earlier, later, hsplit⟩ := List.append_of_mem hx
    refine hc.forall_executions (P := fun _ x => Q x.history) ?_ h earlier x later hsplit
    intro s result x after hs _ hstarts hresult hexecution
    rw [← ExecutionResult.history_of_execution? hexecution]
    exact hexecute s result after hs hstarts hresult
  have hflat : ∀ xs : List Execution, (∀ x ∈ xs, Q x.history) →
      Q (xs.flatMap Execution.history) := by
    intro xs hxs
    induction xs with
    | nil => exact hlines _ (by simp)
    | cons x xs ih =>
      simp only [List.forall_mem_cons] at hxs
      exact happend _ _ hxs.1 (ih hxs.2)
  obtain ⟨s, hs, hopening, hcases⟩ := hc.run_cases h
  have hclosing : Q o.closing := by
    obtain ⟨-, -, -, hclosing⟩ | ⟨hstarts, result, hresult, ⟨text, -, -, -, hclosing⟩ |
      ⟨x, -, -, -, hclosing⟩⟩ := hcases
    · exact hlines _ fun e he => (hclosing e he).1
    · rw [hclosing]
      exact hexecute s result o.world hs hstarts hresult
    · exact hlines _ fun e he => (hclosing e he).1
  rw [RunOutcome.history, hopening]
  exact happend _ _ (happend _ _
    (hlines _ (Part.isLine_of_mem_logged (isLine_of_mem_overview c))) (hflat _ hexecutions)) hclosing

/-- What a run that does not break down does, in the order of the clock, are its executions, one
after the other. Each is numbered among those of its phase and is a block: its start, the call for
its setup, the calls of its workers, which come only if no setup is asked for or it got a response,
its summary, and the call for its teardown. -/
theorem run_in_blocks (hprepare : prepare plan settings = (events, .ok c)) {o : RunOutcome σ}
    (h : c.run env turns selector outer w = some o) (hreturns : ∀ text, o.ending ≠ .panicked text) :
    o.history.Ordered ∧ (o.history.marks = o.executions.flatMap fun x => x.history.marks) ∧
    ∀ earlier x later, o.executions = earlier ++ x :: later →
      x.number = earlier.countP (·.phase = x.phase) + 1 ∧
      ∃ p calls, plan.phases[x.phase]? = some p ∧ p.Block c x calls := by
  have hc := ready_of_prepare hprepare
  refine ⟨(hc.run_passage h).ordered, hc.run_marks h hreturns, ?_⟩
  intro earlier x later hsplit
  rw [← List.countP_reverse]
  refine hc.forall_executions (P := fun earlier x =>
    x.number = earlier.countP (·.phase = x.phase) + 1 ∧
      ∃ p calls, plan.phases[x.phase]? = some p ∧ p.Block c x calls) ?_ h earlier x later hsplit
  intro s result x after hs hdue hstarts hexecute hx
  obtain ⟨hphase, hnumber⟩ := place_of_execute hexecute x hx
  have hcurrent := (hc.starts_within hs hstarts).1
  refine ⟨?_, block_of_execute hprepare hcurrent (hc.live_of_starts hstarts) hexecute hx⟩
  rw [hnumber, hdue.counts, hphase]

theorem pair_in_blocks :
    ∃ o, pairReady.run (.orderly Target.scripted) 100 .cycle none (.start [] none) = some o ∧
      (∀ text, o.ending ≠ .panicked text) ∧ o.history.Ordered ∧
      ∀ earlier x later, o.executions = earlier ++ x :: later →
        ∃ p calls, pair.phases[x.phase]? = some p ∧ p.Block pairReady x calls := by
  obtain ⟨events, hprepare⟩ := prepare_pair
  obtain ⟨o, hrun, hending⟩ := pair_finishes
  have hreturns : ∀ text, o.ending ≠ .panicked text := by simp [hending]
  obtain ⟨hordered, -, hblocks⟩ := run_in_blocks hprepare hrun hreturns
  exact ⟨o, hrun, hreturns, hordered, fun earlier x later hsplit =>
    (hblocks earlier x later hsplit).2⟩

end Campaign

end PhasedLoad
