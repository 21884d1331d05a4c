import PhasedLoad.Campaign
import PhasedLoad.Group.Play

/-!
One execution of a phase: its setup, its groups one after the other, a summary, and its teardown.
All but the teardown stop at the phase's deadline and when the run is cancelled.
-/

namespace PhasedLoad

structure Execution where
  phase : Nat
  /-- Which execution of the phase it is, from one. -/
  number : Nat
  started : Instant
  /-- The start and the setup. -/
  opening : History
  /-- The groups. -/
  work : History
  summary : PhaseSummary
  /-- When the groups had ended. -/
  ended : Instant
  /-- The teardown. -/
  closing : History
  /-- Why the setup failed, if it did. -/
  setupFault : Option TargetFault

namespace Execution

def account (x : Execution) : History :=
  (LogEvent.ofSummary x.summary).map (fun e => ⟨x.ended, .logged e⟩) ++
    [⟨x.ended, .summarized x.summary⟩]

def history (x : Execution) : History := x.opening ++ x.work ++ x.account ++ x.closing

end Execution

/-- What came of a part of an execution, its history, and the world after it. -/
structure Part (α σ : Type) where
  result : α
  history : History
  world : World σ

namespace Part

variable {σ : Type}

def logged (world : World σ) (event : LogEvent) : Entry := ⟨world.now, .logged event⟩

/-- A call of the setup or the teardown, when its reply is here. -/
def called (env : Environment σ) (who : Caller) (call : Call) (world : World σ) :
    Part (Reply × Instant) σ :=
  let (reply, after) := world.post env call
  ⟨(reply, Instant.wake world.now reply.latency), [⟨world.now, .called who call⟩], after⟩

/-- The world in which the reply to a call from `since` is here, and the event of that; `stopped`
tells whether the caller's scope has stopped. -/
def arrived (who : Caller) (since due : Instant) (reply : Reply)
    (stopped : World σ → Option StopReason) (world : World σ) : Entry × World σ :=
  let world := (world.advance due).receive reply
  (⟨world.now, .answered who (Instant.elapsed since world.now) reply (stopped world)⟩, world)

end Part

inductive SetupResult
  | ready
  | stopped (reason : StopReason)
  | failed (fault : TargetFault)
  | panicked (text : String)
deriving DecidableEq

def setupCall (body : String) : Call := ⟨body, some standardTimeout⟩

namespace SetupResult

def ofOutcome : Outcome → SetupResult
  | .response _ => ready
  | .failure f => failed f
  | .panic text => panicked text

def events : Outcome → List LogEvent
  | .response r => if r.isRejection then [.setupRejected r.text] else []
  | _ => []

end SetupResult

/-- The setup of a phase, if it has one, up to the phase's deadline. -/
def setUp {σ : Type} (env : Environment σ) (body : Option String) (deadline : Option Instant)
    (world : World σ) : Part SetupResult σ :=
  match body with
  | none => ⟨.ready, [], world⟩
  | some body =>
    let first := Part.logged world .setupStarting
    match world.stopReason deadline with
    | some reason => ⟨.stopped reason, [first], world⟩
    | none =>
      let call := Part.called env .setup (setupCall body) world
      let (reply, due) := call.result
      match call.world.stopAt deadline |>.filter (· ≤ due) with
      | some stop =>
        let world := call.world.advance stop
        ⟨.stopped ((world.stopReason deadline).getD .canceled), first :: call.history, world⟩
      | none =>
        let (entry, after) :=
          Part.arrived .setup world.now due reply (·.stopReason deadline) call.world
        ⟨.ofOutcome reply.outcome,
          first :: call.history ++ entry ::
            (SetupResult.events reply.outcome).map (Part.logged after), after⟩

def Campaign.groupRun (c : Campaign) (phase : Phase) (body : String) (i : Nat)
    (g : WorkerGroup) : GroupRun :=
  { name := ⟨phase.name, i + 1⟩
    instances := g.instances
    duration := g.duration
    delay := g.delay
    timeout := g.timeout
    body := body
    reportInterval := c.settings.reportInterval }

/-- Groups one after the other, until one ends when the phase has stopped. -/
def workGroups {σ : Type} (env : Environment σ) (turns : Nat) (name : String)
    (deadline : Option Instant) :
    List GroupRun → World σ → Statistics → Option (Part (PhaseEnd × Statistics) σ)
  | [], world, stats => some ⟨(.workersFinished, stats), [], world⟩
  | run :: runs, world, stats => do
    let done ← run.perform env turns deadline world stats
    match done.world.stopReason deadline with
    | some reason =>
      some ⟨(.ofReason reason, done.stats),
        done.history ++ [Part.logged done.world (.phaseStopped name reason)], done.world⟩
    | none =>
      let rest ← workGroups env turns name deadline runs done.world done.stats
      some ⟨rest.result, done.history ++ rest.history, rest.world⟩

def teardownEvents (phase : Nat) : Outcome → List LogEvent
  | .response r => if r.isRejection then [.teardownRejected (phase + 1) r.text] else []
  | .failure f => [.teardownFailed (phase + 1) f]
  | .panic _ => []

/-- The teardown of a phase, if it has one; nothing cuts it short. The result is the text of a
breakdown, if there was one. -/
def tearDown {σ : Type} (env : Environment σ) (phase : Nat) (body : Option String)
    (world : World σ) : Part (Option String) σ :=
  match body with
  | none => ⟨none, [], world⟩
  | some body =>
    let first := Part.logged world (.teardownStarting (phase + 1))
    let call := Part.called env .teardown (setupCall body) world
    let (reply, due) := call.result
    let (entry, after) :=
      Part.arrived .teardown world.now due reply (fun _ => none) call.world
    let panicked := match reply.outcome with
      | .panic text => some text
      | _ => none
    ⟨panicked,
      first :: call.history ++ entry ::
        (teardownEvents phase reply.outcome).map (Part.logged after), after⟩

inductive ExecutionResult
  | done (x : Execution)
  /-- The setup broke the run down, after this had happened. -/
  | setupPanicked (text : String) (history : History)
  /-- The teardown broke the run down. -/
  | teardownPanicked (text : String) (x : Execution)

namespace ExecutionResult

def history : ExecutionResult → History
  | done x | teardownPanicked _ x => x.history
  | setupPanicked _ history => history

def execution? : ExecutionResult → Option Execution
  | done x | teardownPanicked _ x => some x
  | setupPanicked .. => none

def panic? : ExecutionResult → Option String
  | done _ => none
  | setupPanicked text _ | teardownPanicked text _ => some text

end ExecutionResult

def summaryOf (phase : Nat) (name : String) (number : Nat) (elapsed : Duration)
    (stats : Statistics) (ending : PhaseEnd) : PhaseSummary :=
  { phase := phase
    name := name
    execution := number
    elapsed := elapsed
    requests := stats.counters.requests
    errors := stats.counters.errors
    meanLatency := stats.counters.meanLatency
    codes := stats.codes
    ending := ending }

/-- The groups after a setup, or the end that the setup brought; `place` is the phase's, from 1. -/
def afterSetUp {σ : Type} (env : Environment σ) (turns : Nat) (c : Campaign) (phase : Phase)
    (body : String) (deadline : Option Instant) (place : Nat) (setup : Part SetupResult σ) :
    Option (Part (PhaseEnd × Statistics) σ) :=
  match setup.result with
  | .stopped reason => some ⟨(.ofReason reason, .empty), [], setup.world⟩
  | .failed f =>
    some ⟨(.setupFailed, .empty),
      [Part.logged setup.world (.setupFailed place phase.name f)], setup.world⟩
  | .panicked _ => some ⟨(.setupFailed, .empty), [], setup.world⟩
  | .ready =>
    workGroups env turns phase.name deadline (phase.workers.mapIdx (c.groupRun phase body))
      setup.world .empty

namespace Campaign

variable {σ : Type}

/-- The deadline of an execution of phase `i` that starts now, inside a scope with deadline
`outer`. -/
def phaseDeadline (c : Campaign) (i : Nat) (outer : Option Instant) (world : World σ) :
    Option Instant :=
  world.within outer (c.budget.phase i)

def startEvent (c : Campaign) (i number : Nat) : LogEvent :=
  .phaseStarting (i + 1) (c.plan.phases.getD i default).name number (c.budget.phase i)

def assemble (c : Campaign) (i number : Nat) (world : World σ) (setup : Part SetupResult σ)
    (work : Part (PhaseEnd × Statistics) σ) (teardown : Part (Option String) σ) : Execution :=
  { phase := i
    number := number
    started := world.now
    opening := Part.logged world (c.startEvent i number) :: setup.history
    work := work.history
    summary := summaryOf i (c.plan.phases.getD i default).name number
      (Instant.elapsed world.now work.world.now) work.result.2 work.result.1
    ended := work.world.now
    closing := teardown.history
    setupFault := match setup.result with
      | .failed f => some f
      | _ => none }

/-- Execution `number` of phase `i` inside a scope with deadline `outer`, if each of its groups ends
within `turns` turns. -/
def execute (env : Environment σ) (turns : Nat) (c : Campaign) (i number : Nat)
    (outer : Option Instant) (world : World σ) : Option (ExecutionResult × World σ) := do
  let requests := c.requests i
  let deadline := c.phaseDeadline i outer world
  let setup := setUp env requests.setup deadline world
  match setup.result with
  | .panicked text =>
    some (.setupPanicked text (Part.logged world (c.startEvent i number) :: setup.history),
      setup.world)
  | _ =>
    let work ← afterSetUp env turns c (c.plan.phases.getD i default) requests.workload deadline
      (i + 1) setup
    let teardown := tearDown env i requests.teardown work.world
    let x := c.assemble i number world setup work teardown
    match teardown.result with
    | some text => some (.teardownPanicked text x, teardown.world)
    | none => some (.done x, teardown.world)

end Campaign

end PhasedLoad
