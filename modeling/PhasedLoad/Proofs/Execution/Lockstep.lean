import PhasedLoad.Proofs.Execution.Block
import PhasedLoad.Proofs.Group.Lockstep

/-! An execution for two targets that answer its calls alike: all is the same but the replies to its
setup and its teardown, and the lines about these. -/

namespace PhasedLoad

open Target (Lockstep)

/-- Neither a reply to a setup or a teardown nor a line about one. -/
def Event.isCommon : Event → Bool
  | answered .setup _ _ _ | answered .teardown _ _ _ => false
  | logged (.setupRejected _) | logged (.teardownRejected ..) | logged (.teardownFailed ..) => false
  | _ => true

namespace History

/-- All but the replies to setups and teardowns and the lines about them. -/
def common (h : History) : History := h.filter (·.event.isCommon)

variable (h h' : History)

@[simp] theorem common_append : common (h ++ h') = common h ++ common h' := List.filter_append _ _

@[simp] theorem common_common : h.common.common = h.common := by simp [common]

theorem common_reply {e : Entry} {h h' : History} (he : e.event.isCommon = false)
    (hh : h'.common = []) : common (h ++ e :: h') = h.common := by
  have hlast : common (e :: h') = h'.common := List.filter_cons_of_neg (by simp [he])
  rw [common_append, hlast, hh, List.append_nil]

theorem filterMap_common {α : Type} {f : Entry → Option α}
    (hanswered : ∀ t who took reply stopped, f ⟨t, .answered who took reply stopped⟩ = none)
    (hlogged : ∀ t line, f ⟨t, .logged line⟩ = none) : h.common.filterMap f = h.filterMap f := by
  rw [common, List.filterMap_filter]
  congr
  funext e
  obtain ⟨t, event⟩ := e
  cases event with
  | answered who took reply stopped => rw [hanswered, ite_self]
  | logged line => rw [hlogged, ite_self]
  | called who call => rfl
  | summarized summary => rfl

theorem calls_common : h.common.calls = h.calls :=
  h.filterMap_common (fun _ _ _ _ _ => rfl) fun _ _ => rfl

theorem posts_common : h.common.posts = h.posts :=
  h.filterMap_common (fun _ _ _ _ _ => rfl) fun _ _ => rfl

end History

variable {σ τ : Type}

theorem World.receive_congr {reply reply' : Reply} (h : reply'.cancels = reply.cancels)
    (w : World σ) : w.receive reply' = w.receive reply := by
  unfold receive
  rw [h]

namespace Part

variable {α : Type}

def retarget (p : Part α σ) (x : τ) : Part α τ := ⟨p.result, p.history, p.world.retarget x⟩

def common (p : Part α σ) : Part α σ := { p with history := p.history.common }

end Part

namespace Execution

def common (x : Execution) : Execution :=
  { x with opening := x.opening.common, closing := x.closing.common }

@[simp] theorem common_common (x : Execution) : x.common.common = x.common := by simp [common]

theorem history_common (x : Execution) : x.common.history.common = x.history.common := by
  have hhistory : x.common.history = x.opening.common ++ x.work ++ x.account ++ x.closing.common := rfl
  rw [hhistory, history]
  simp only [History.common_append, History.common_common]

end Execution

namespace ExecutionResult

def common : ExecutionResult → ExecutionResult
  | done x => done x.common
  | setupPanicked text history => setupPanicked text history.common
  | teardownPanicked text x => teardownPanicked text x.common

end ExecutionResult

namespace SetupResult

theorem ofOutcome_eq {o o' : Outcome} (h : Outcome.Alike .setup o o') :
    ofOutcome o' = ofOutcome o := by
  cases h <;> rfl

theorem common_answered (calling : History) (w : World σ) (t : Instant) (took : Duration)
    (reply : Reply) (stopped : Option StopReason) :
    History.common (calling ++ ⟨t, .answered .setup took reply stopped⟩ ::
      (events reply.outcome).map (Part.logged w)) = calling.common := by
  refine History.common_reply rfl ?_
  cases reply.outcome with
  | response r =>
    rw [events]
    split <;> rfl
  | _ => rfl

end SetupResult

theorem common_tornDown (calling : History) (w : World σ) (t : Instant) (took : Duration)
    (reply : Reply) (stopped : Option StopReason) (phase : Nat) :
    History.common (calling ++ ⟨t, .answered .teardown took reply stopped⟩ ::
      (teardownEvents phase reply.outcome).map (Part.logged w)) = calling.common := by
  refine History.common_reply rfl ?_
  cases reply.outcome with
  | response r =>
    rw [teardownEvents]
    split <;> rfl
  | _ => rfl

section

variable {env : Environment σ} {env' : Environment τ} {turns : Nat} {deadline : Option Instant}
  {w : World σ}

def awaitSetup (body : String) (deadline : Option Instant) (w : World σ) (reply : Reply) :
    Part SetupResult σ :=
  let calling := [Part.logged w .setupStarting, ⟨w.now, .called .setup (setupCall body)⟩]
  let due := Instant.wake w.now reply.latency
  match (w.stopAt deadline).filter (· ≤ due) with
  | some stop =>
    ⟨.stopped (((w.advance stop).stopReason deadline).getD .canceled), calling, w.advance stop⟩
  | none =>
    let (entry, after) := Part.arrived .setup w.now due reply (·.stopReason deadline) w
    ⟨.ofOutcome reply.outcome,
      calling ++ entry :: (SetupResult.events reply.outcome).map (Part.logged after), after⟩

theorem setUp_live (env : Environment σ) (body : String) (hlive : w.stopReason deadline = none) :
    setUp env (some body) deadline w = awaitSetup body deadline
      (w.post env (setupCall body)).2 (w.post env (setupCall body)).1 := by
  simp only [setUp, hlive]
  rfl

theorem awaitSetup_calls (body : String) (deadline : Option Instant) (w : World σ)
    (reply : Reply) :
    (awaitSetup body deadline w reply).history.posts = [(.setup, setupCall body)] ∧
      (awaitSetup body deadline w reply).world.target = w.target := by
  unfold awaitSetup
  dsimp only
  split
  · exact ⟨rfl, rfl⟩
  · have hlines : History.posts ((SetupResult.events reply.outcome).map
        (Part.logged ((w.advance (Instant.wake w.now reply.latency)).receive reply))) = [] :=
      History.posts_of_lines (Part.isLine_of_mem_logged SetupResult.isLine_of_mem_events)
    exact ⟨congrArg ((Caller.setup, setupCall body) :: ·) hlines, World.receive_target _ _⟩

theorem awaitSetup_alike {reply reply' : Reply} (h : Reply.Alike .setup reply reply')
    (body : String) (deadline : Option Instant) (w : World σ) (x : τ) :
    (awaitSetup body deadline (w.retarget x) reply').common =
      ((awaitSetup body deadline w reply).retarget x).common := by
  obtain ⟨hlatency, hcancels, houtcome⟩ := h
  unfold awaitSetup
  simp only [World.stopAt_retarget, World.retarget_now, hlatency]
  cases (w.stopAt deadline).filter (· ≤ Instant.wake w.now reply.latency) with
  | some stop => rfl
  | none =>
    simp only [Part.arrived, Part.common, Part.retarget, World.advance_retarget,
      World.receive_congr hcancels, World.receive_retarget, SetupResult.ofOutcome_eq houtcome,
      SetupResult.common_answered]
    rfl

theorem setUp_lockstep (env : Environment σ) (env' : Environment τ) (body : Option String)
    (deadline : Option Instant) (w : World σ) :
    Lockstep env.target env'.target w.target (setUp env body deadline w).history.posts
      (setUp env body deadline w).world.target fun x y =>
        (setUp env' body deadline (w.retarget x)).common =
          ((setUp env body deadline w).retarget y).common := by
  cases body with
  | none => exact .idle fun _ => rfl
  | some body =>
    cases hlive : w.stopReason deadline with
    | some reason =>
      simp only [setUp, World.stopReason_retarget, hlive]
      exact .idle fun _ => rfl
    | none =>
      obtain ⟨hposts, htarget⟩ := awaitSetup_calls body deadline
        (w.post env (setupCall body)).2 (w.post env (setupCall body)).1
      rw [setUp_live env body hlive, hposts, htarget]
      refine (Lockstep.call env.target env'.target w.target .setup (setupCall body)).mono ?_
      rintro x y ⟨hreply, rfl⟩
      rw [setUp_live env' body hlive]
      exact awaitSetup_alike hreply body deadline (w.post env (setupCall body)).2 _

theorem Outcome.Alike.panic?_eq {o o' : Outcome} (h : Outcome.Alike .teardown o o') :
    o'.panic? = o.panic? := by
  cases h with
  | same => rfl
  | results hmild hmild' => rw [hmild, hmild']

def awaitTeardown (phase : Nat) (body : String) (w : World σ) (reply : Reply) :
    Part (Option String) σ :=
  let calling :=
    [Part.logged w (.teardownStarting (phase + 1)), ⟨w.now, .called .teardown (setupCall body)⟩]
  let due := Instant.wake w.now reply.latency
  let (entry, after) := Part.arrived .teardown w.now due reply (fun _ => none) w
  ⟨reply.outcome.panic?,
    calling ++ entry :: (teardownEvents phase reply.outcome).map (Part.logged after), after⟩

theorem tearDown_eq (env : Environment σ) (phase : Nat) (body : String) (w : World σ) :
    tearDown env phase (some body) w = awaitTeardown phase body (w.post env (setupCall body)).2
      (w.post env (setupCall body)).1 :=
  rfl

theorem awaitTeardown_calls (phase : Nat) (body : String) (w : World σ) (reply : Reply) :
    (awaitTeardown phase body w reply).history.posts = [(.teardown, setupCall body)] ∧
      (awaitTeardown phase body w reply).world.target = w.target := by
  have hlines : History.posts ((teardownEvents phase reply.outcome).map
      (Part.logged ((w.advance (Instant.wake w.now reply.latency)).receive reply))) = [] :=
    History.posts_of_lines (Part.isLine_of_mem_logged isLine_of_mem_teardownEvents)
  exact ⟨congrArg ((Caller.teardown, setupCall body) :: ·) hlines, World.receive_target _ _⟩

theorem awaitTeardown_alike {reply reply' : Reply} (h : Reply.Alike .teardown reply reply')
    (phase : Nat) (body : String) (w : World σ) (x : τ) :
    (awaitTeardown phase body (w.retarget x) reply').common =
      ((awaitTeardown phase body w reply).retarget x).common := by
  obtain ⟨hlatency, hcancels, houtcome⟩ := h
  unfold awaitTeardown
  simp only [Part.arrived, Part.common, Part.retarget, World.retarget_now, World.advance_retarget,
    World.receive_congr hcancels, World.receive_retarget, hlatency, common_tornDown,
    houtcome.panic?_eq]
  rfl

theorem tearDown_lockstep (env : Environment σ) (env' : Environment τ) (phase : Nat)
    (body : Option String) (w : World σ) :
    Lockstep env.target env'.target w.target (tearDown env phase body w).history.posts
      (tearDown env phase body w).world.target fun x y =>
        (tearDown env' phase body (w.retarget x)).common =
          ((tearDown env phase body w).retarget y).common := by
  cases body with
  | none => exact .idle fun _ => rfl
  | some body =>
    obtain ⟨hposts, htarget⟩ := awaitTeardown_calls phase body (w.post env (setupCall body)).2
      (w.post env (setupCall body)).1
    rw [tearDown_eq, hposts, htarget]
    refine (Lockstep.call env.target env'.target w.target .teardown (setupCall body)).mono ?_
    rintro x y ⟨hreply, rfl⟩
    rw [tearDown_eq]
    exact awaitTeardown_alike hreply phase body (w.post env (setupCall body)).2 _

theorem workGroups_lockstep (hturns : env'.turns = env.turns) {name : String}
    {runs : List GroupRun} {stats : Statistics} {work : Part (PhaseEnd × Statistics) σ}
    (h : workGroups env turns name deadline runs w stats = some work) :
    Lockstep env.target env'.target w.target work.history.posts work.world.target fun x y =>
      workGroups env' turns name deadline runs (w.retarget x) stats = some (work.retarget y) := by
  induction runs generalizing w stats work with
  | nil =>
    cases h
    exact .idle fun _ => rfl
  | cons run runs ih =>
    rw [workGroups, Option.bind_eq_bind, Option.bind_eq_some_iff] at h
    obtain ⟨done, hdone, h⟩ := h
    have hfirst := GroupRun.perform_lockstep hturns hdone
    cases hstop : done.world.stopReason deadline with
    | some reason =>
      simp only [hstop, Option.some.injEq] at h
      subst h
      have hposts : History.posts (done.history ++
          [Part.logged done.world (.phaseStopped name reason)]) = done.history.posts := by
        rw [History.posts_append]
        exact List.append_nil _
      rw [hposts]
      refine hfirst.mono fun x y hperform => ?_
      simp only [workGroups, hperform, Option.bind_eq_bind, Option.bind_some,
        GroupOutcome.retarget, World.stopReason_retarget, hstop]
      rfl
    | none =>
      simp only [hstop, Option.bind_eq_bind, Option.bind_eq_some_iff, Option.some.injEq] at h
      obtain ⟨rest, hrest, rfl⟩ := h
      rw [History.posts_append]
      refine (hfirst.trans (ih hrest)).mono ?_
      rintro x z ⟨y, hperform, hwork⟩
      simp only [workGroups, hperform, Option.bind_eq_bind, Option.bind_some,
        GroupOutcome.retarget, World.stopReason_retarget, hstop, hwork]
      rfl

theorem Part.common_eq_iff {α : Type} {p q : Part α σ} : p.common = q.common ↔
    p.result = q.result ∧ p.history.common = q.history.common ∧ p.world = q.world := by
  simp [common]

theorem afterSetUp_lockstep (hturns : env'.turns = env.turns) {c : Campaign} {phase : Phase}
    {body : String} {place : Nat} {setup : Part SetupResult σ}
    {work : Part (PhaseEnd × Statistics) σ}
    (h : afterSetUp env turns c phase body deadline place setup = some work) :
    Lockstep env.target env'.target setup.world.target work.history.posts work.world.target
      fun x y => ∀ setup' : Part SetupResult τ, setup'.common = (setup.retarget x).common →
        afterSetUp env' turns c phase body deadline place setup' = some (work.retarget y) := by
  have hsame : ∀ (x : τ) (setup' : Part SetupResult τ), setup'.common = (setup.retarget x).common →
      setup'.result = setup.result ∧ setup'.world = setup.world.retarget x := by
    intro x setup' hcommon
    obtain ⟨hresult, -, hworld⟩ := Part.common_eq_iff.mp hcommon
    exact ⟨hresult, hworld⟩
  unfold afterSetUp at h
  cases hresult : setup.result with
  | ready =>
    simp only [hresult] at h
    refine (workGroups_lockstep hturns h).mono fun x y hwork setup' hcommon => ?_
    obtain ⟨hresult', hworld⟩ := hsame x setup' hcommon
    simp only [afterSetUp, hresult', hresult, hworld, hwork]
  | _ =>
    simp only [hresult, Option.some.injEq] at h
    subst h
    refine .idle fun x setup' hcommon => ?_
    obtain ⟨hresult', hworld⟩ := hsame x setup' hcommon
    simp only [afterSetUp, hresult', hresult, hworld]
    rfl

end

namespace Campaign

variable {env : Environment σ} {env' : Environment τ} {turns : Nat} {c : Campaign} {i number : Nat}
  {outer : Option Instant} {w after : World σ} {result : ExecutionResult}

theorem posts_assemble (setup : Part SetupResult σ) (work : Part (PhaseEnd × Statistics) σ)
    (teardown : Part (Option String) σ) :
    (c.assemble i number w setup work teardown).history.posts =
      setup.history.posts ++ (work.history.posts ++ teardown.history.posts) := by
  have haccount : (c.assemble i number w setup work teardown).account.posts = [] := by
    have hlines := History.posts_of_lines (Part.isLine_of_mem_logged (w := work.world)
      (LogEvent.isLine_of_mem_ofSummary (s := (c.assemble i number w setup work teardown).summary)))
    rw [Execution.account, History.posts_append]
    exact congrArg (· ++ []) hlines
  rw [Execution.history, History.posts_append, History.posts_append, History.posts_append, haccount,
    List.append_nil, List.append_assoc]
  rfl

theorem common_start (h : History) :
    History.common (Part.logged w (c.startEvent i number) :: h) =
      Part.logged w (c.startEvent i number) :: h.common :=
  rfl

theorem common_assemble {setup : Part SetupResult σ} {setup' : Part SetupResult τ}
    {work : Part (PhaseEnd × Statistics) σ} {teardown : Part (Option String) σ}
    {teardown' : Part (Option String) τ} {x y z u : τ}
    (hsetup : setup'.common = (setup.retarget y).common)
    (hteardown : teardown'.common = (teardown.retarget u).common) :
    (c.assemble i number (w.retarget x) setup' (work.retarget z) teardown').common =
      (c.assemble i number w setup work teardown).common := by
  obtain ⟨hresult, hopening, -⟩ := Part.common_eq_iff.mp hsetup
  obtain ⟨-, hclosing, -⟩ := Part.common_eq_iff.mp hteardown
  simp only [assemble, Execution.common, hresult, hclosing, common_start, hopening]
  rfl

def tornDown (x : Execution) : Option String → ExecutionResult
  | none => .done x
  | some text => .teardownPanicked text x

theorem history_tornDown (x : Execution) (panicked : Option String) :
    (tornDown x panicked).history = x.history := by
  cases panicked <;> rfl

theorem common_tornDown (x : Execution) (panicked : Option String) :
    (tornDown x panicked).common = tornDown x.common panicked := by
  cases panicked <;> rfl

theorem execute_of_panicked {text : String}
    (h : (setUp env (c.requests i).setup (c.phaseDeadline i outer w) w).result = .panicked text) :
    c.execute env turns i number outer w =
      some (.setupPanicked text (Part.logged w (c.startEvent i number) ::
          (setUp env (c.requests i).setup (c.phaseDeadline i outer w) w).history),
        (setUp env (c.requests i).setup (c.phaseDeadline i outer w) w).world) := by
  simp only [execute, h]

theorem execute_of_ne
    (h : ∀ text, (setUp env (c.requests i).setup (c.phaseDeadline i outer w) w).result ≠
      .panicked text) :
    c.execute env turns i number outer w =
      (afterSetUp env turns c (c.plan.phases.getD i default) (c.requests i).workload
        (c.phaseDeadline i outer w) (i + 1)
        (setUp env (c.requests i).setup (c.phaseDeadline i outer w) w)).map fun work =>
          (tornDown (c.assemble i number w
              (setUp env (c.requests i).setup (c.phaseDeadline i outer w) w) work
              (tearDown env i (c.requests i).teardown work.world))
            (tearDown env i (c.requests i).teardown work.world).result,
          (tearDown env i (c.requests i).teardown work.world).world) := by
  unfold execute
  dsimp only
  generalize setUp env (c.requests i).setup (c.phaseDeadline i outer w) w = setup at h ⊢
  split
  · next text hresult => exact absurd hresult (h text)
  · rw [Option.bind_eq_bind, Option.map_eq_bind]
    congr
    funext work
    simp only [Function.comp_apply]
    cases (tearDown env i (c.requests i).teardown work.world).result <;> rfl

/-- An execution is the same, replies to its setup and its teardown apart, for every target that
answers its calls alike. -/
theorem execute_lockstep (hturns : env'.turns = env.turns)
    (h : c.execute env turns i number outer w = some (result, after)) :
    Lockstep env.target env'.target w.target result.history.posts after.target fun x y =>
      (c.execute env' turns i number outer (w.retarget x)).map (fun p => (p.1.common, p.2)) =
        some (result.common, after.retarget y) := by
  have hsetup := setUp_lockstep env env' (c.requests i).setup (c.phaseDeadline i outer w) w
  have hdeadline : ∀ x : τ, c.phaseDeadline i outer (w.retarget x) = c.phaseDeadline i outer w :=
    fun _ => rfl
  -- A setup that breaks down is all of its execution.
  by_cases hpanicked : ∃ text,
    (setUp env (c.requests i).setup (c.phaseDeadline i outer w) w).result = .panicked text
  · obtain ⟨text, hresult⟩ := hpanicked
    rw [execute_of_panicked hresult] at h
    cases h
    refine hsetup.mono fun x y hcommon => ?_
    obtain ⟨hresult', hhistory, hworld⟩ := Part.common_eq_iff.mp hcommon
    rw [execute_of_panicked (hresult'.trans hresult)]
    simp only [Option.map_some, ExecutionResult.common, common_start, hdeadline, hhistory, hworld]
    rfl
  · have hne : ∀ text, (setUp env (c.requests i).setup (c.phaseDeadline i outer w) w).result ≠
        .panicked text := fun text hresult => hpanicked ⟨text, hresult⟩
    rw [execute_of_ne hne] at h
    obtain ⟨work, hwork, heq⟩ := Option.map_eq_some_iff.mp h
    cases heq
    rw [history_tornDown, posts_assemble]
    refine (hsetup.trans ((afterSetUp_lockstep hturns hwork).trans
      (tearDown_lockstep env env' i (c.requests i).teardown work.world))).mono ?_
    rintro x u ⟨y, hcommon, z, hafter, hteardown⟩
    have hwork' := hafter _ hcommon
    obtain ⟨hresult, -, -⟩ := Part.common_eq_iff.mp hcommon
    obtain ⟨hpanic, -, hworld⟩ := Part.common_eq_iff.mp hteardown
    have hne' : ∀ text, (setUp env' (c.requests i).setup (c.phaseDeadline i outer (w.retarget x))
        (w.retarget x)).result ≠ .panicked text := fun text hresult' =>
      hne text (hresult.symm.trans hresult')
    have hwhole : (c.assemble i number (w.retarget x)
          (setUp env' (c.requests i).setup (c.phaseDeadline i outer w) (w.retarget x))
          (work.retarget z) (tearDown env' i (c.requests i).teardown (work.retarget z).world)).common =
        (c.assemble i number w (setUp env (c.requests i).setup (c.phaseDeadline i outer w) w) work
          (tearDown env i (c.requests i).teardown work.world)).common :=
      common_assemble hcommon hteardown
    have hworld' : (work.retarget z).world = work.world.retarget z := rfl
    rw [execute_of_ne hne']
    simp only [hdeadline, hwork', Option.map_some, common_tornDown, hwhole]
    simp only [hworld', hpanic, hworld]
    rfl

end Campaign

end PhasedLoad
