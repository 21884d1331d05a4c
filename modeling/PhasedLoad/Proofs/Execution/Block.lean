import PhasedLoad.Proofs.Execution.Parts

/-! An execution from its start to its teardown: what became of it, its course, and its calls. -/

namespace PhasedLoad

theorem LogEvent.isLine_of_mem_ofSummary {s : PhaseSummary} :
    ∀ line ∈ LogEvent.ofSummary s, (Event.logged line).isLine = true := by
  intro line hline
  simp only [LogEvent.ofSummary, List.mem_cons, List.mem_map] at hline
  rcases hline with rfl | ⟨p, -, rfl⟩ <;> rfl

namespace ExecutionResult

theorem history_of_execution? {result : ExecutionResult} {x : Execution}
    (h : result.execution? = some x) : result.history = x.history := by
  cases result <;> cases h <;> rfl

end ExecutionResult

section

variable {σ : Type} {env : Environment σ} {turns : Nat} {name : String}
  {deadline : Option Instant} {runs : List GroupRun} {setup : Part SetupResult σ}
  {work : Part (PhaseEnd × Statistics) σ}

/-- What follows a setup that did not break down: groups work only if it succeeded. -/
inductive Pursues (env : Environment σ) (turns : Nat) (name : String) (deadline : Option Instant)
    (runs : List GroupRun) (setup : Part SetupResult σ) : Part (PhaseEnd × Statistics) σ → Prop
  | stopped {reason : StopReason} (result : setup.result = .stopped reason) :
      Pursues env turns name deadline runs setup ⟨(.ofReason reason, .empty), [], setup.world⟩
  | failed {fault : TargetFault} (place : Nat) (result : setup.result = .failed fault) :
      Pursues env turns name deadline runs setup
        ⟨(.setupFailed, .empty), [Part.logged setup.world (.setupFailed place name fault)],
          setup.world⟩
  | ready {work : Part (PhaseEnd × Statistics) σ} (result : setup.result = .ready)
      (works : Works env turns name deadline runs setup.world .empty work) :
      Pursues env turns name deadline runs setup work

theorem Pursues.passage (h : Pursues env turns name deadline runs setup work) :
    Passage setup.world work.history work.world ∧
      ∀ t, setup.world.Before t → work.world.Before t := by
  cases h with
  | stopped _ => exact ⟨.refl _, fun _ h => h⟩
  | failed _ _ => exact ⟨.note _ _ rfl (by simp [Event.opens]), fun _ h => h⟩
  | ready _ hworks => exact hworks.passage

theorem Pursues.marks (h : Pursues env turns name deadline runs setup work) :
    ∀ event ∈ work.history.marks, setup.result = .ready ∧ ∃ run ∈ runs, ∃ number,
      run.Has number ∧ event = .called (.worker run.name.group number) run.call := by
  cases h with
  | stopped _ => simp
  | failed _ _ => simp [History.marks_cons, Part.logged, Event.isMark]
  | ready hready hworks => exact fun event hevent => ⟨hready, hworks.marks event hevent⟩

theorem Pursues.ending {w : World σ} {body : Option String}
    (hsets : SetsUp env deadline w body setup)
    (h : Pursues env turns name deadline runs setup work) :
    (∃ reason, work.result.1 = .ofReason reason ∧
        work.world.stopReason deadline = some reason ∧ ∀ f, setup.result ≠ .failed f) ∨
      (∀ reason, setup.result ≠ .stopped reason) ∧
        (work.world = setup.world ∨ work.world.stopReason deadline = none) := by
  cases h with
  | stopped hresult => exact .inl ⟨_, rfl, hsets.stopReason_eq hresult, by simp [hresult]⟩
  | failed _ hresult => exact .inr ⟨by simp [hresult], .inl rfl⟩
  | ready hresult hworks =>
    obtain ⟨reason, hending, hstop⟩ | ⟨-, hworld⟩ := hworks.ending
    · exact .inl ⟨reason, hending, hstop, by simp [hresult]⟩
    · exact .inr ⟨by simp [hresult], hworld⟩

end

namespace Campaign

variable {σ : Type} {env : Environment σ} {turns : Nat} {c : Campaign} {i number : Nat}
  {outer : Option Instant} {w after : World σ} {result : ExecutionResult} {x : Execution}

def groups (c : Campaign) (i : Nat) : List GroupRun :=
  (c.plan.phases.getD i default).workers.mapIdx
    (c.groupRun (c.plan.phases.getD i default) (c.requests i).workload)

abbrev Pursuit (env : Environment σ) (turns : Nat) (c : Campaign) (i : Nat)
    (outer : Option Instant) (w : World σ) :=
  Pursues env turns (c.plan.phases.getD i default).name (c.phaseDeadline i outer w) (c.groups i)

/-- The ways of an execution that starts before its phase has stopped. -/
inductive Executes (env : Environment σ) (turns : Nat) (c : Campaign) (i number : Nat)
    (outer : Option Instant) (w : World σ) : ExecutionResult → World σ → Prop
  | setupPanicked {setup : Part SetupResult σ} {text : String}
      (sets : SetsUp env (c.phaseDeadline i outer w) w (c.requests i).setup setup)
      (panicked : setup.result = .panicked text) :
      Executes env turns c i number outer w
        (.setupPanicked text (Part.logged w (c.startEvent i number) :: setup.history)) setup.world
  | summarized {setup : Part SetupResult σ} {work : Part (PhaseEnd × Statistics) σ}
      {result : ExecutionResult}
      (sets : SetsUp env (c.phaseDeadline i outer w) w (c.requests i).setup setup)
      (pursues : Pursuit env turns c i outer w setup work)
      (execution : result.execution? = some (c.assemble i number w setup work
        (tearDown env i (c.requests i).teardown work.world))) :
      Executes env turns c i number outer w result
        (tearDown env i (c.requests i).teardown work.world).world

theorem execute_cases (hlive : w.stopReason (c.phaseDeadline i outer w) = none)
    (h : c.execute env turns i number outer w = some (result, after)) :
    Executes env turns c i number outer w result after := by
  have hsets := setUp_cases env (c.requests i).setup hlive
  unfold execute at h
  dsimp only at h
  generalize setUp env (c.requests i).setup (c.phaseDeadline i outer w) w = setup at h hsets
  split at h
  · next text htext =>
    cases h
    exact .setupPanicked hsets htext
  · next hnot =>
    obtain ⟨work, hwork, h⟩ := Option.bind_eq_some_iff.mp h
    have hpursues : Pursuit env turns c i outer w setup work := by
      unfold afterSetUp at hwork
      split at hwork
      · next reason hreason => cases hwork; exact .stopped hreason
      · next fault hfault => cases hwork; exact .failed (i + 1) hfault
      · next text htext => exact absurd htext (hnot text)
      · next hready => exact .ready hready (workGroups_cases hwork)
    split at h
    all_goals
      cases h
      exact .summarized hsets hpursues rfl

theorem works_of_execute (hlive : w.stopReason (c.phaseDeadline i outer w) = none)
    (hsetup : (c.requests i).setup = none)
    (h : c.execute env turns i number outer w = some (result, after)) :
    ∃ work, Works env turns (c.plan.phases.getD i default).name (c.phaseDeadline i outer w)
        (c.groups i) w .empty work ∧
      result.execution? = some (c.assemble i number w ⟨.ready, [], w⟩ work
        (tearDown env i (c.requests i).teardown work.world)) ∧
      after = (tearDown env i (c.requests i).teardown work.world).world := by
  cases execute_cases hlive h with
  | setupPanicked hsets hpanicked =>
    rw [hsetup] at hsets
    cases hsets
    cases hpanicked
  | @summarized setup work _ hsets hpursues hexecution =>
    rw [hsetup] at hsets
    cases hsets
    cases hpursues with
    | stopped hresult => cases hresult
    | failed _ hresult => cases hresult
    | ready _ hworks => exact ⟨work, hworks, hexecution, rfl⟩

theorem opening_passage {setup : Part SetupResult σ} (hlive : ∀ t ∈ w.canceledAt, w.now < t)
    (hsets : SetsUp env (c.phaseDeadline i outer w) w (c.requests i).setup setup) :
    Passage w (Part.logged w (c.startEvent i number) :: setup.history) setup.world :=
  (Passage.note w (.logged (c.startEvent i number)) rfl fun _ => hlive).trans
    (hsets.passage hlive)

theorem account_passage (hended : x.ended = w.now) : Passage w x.account w := by
  rw [Execution.account, hended]
  exact (Part.passage_logged LogEvent.isLine_of_mem_ofSummary).trans
    (.note w (.summarized x.summary) rfl (by simp [Event.opens]))

theorem execute_passage (hlive : w.stopReason (c.phaseDeadline i outer w) = none)
    (h : c.execute env turns i number outer w = some (result, after)) :
    Passage w result.history after := by
  have hcanceled := (World.stopReason_eq_none_iff.mp hlive).2
  cases execute_cases hlive h with
  | setupPanicked hsets _ => exact opening_passage hcanceled hsets
  | summarized hsets hpursues hx =>
    rw [ExecutionResult.history_of_execution? hx, Execution.history]
    exact (((opening_passage hcanceled hsets).trans hpursues.passage.1).trans
      (account_passage rfl)).trans tearDown_passage

end Campaign

end PhasedLoad
