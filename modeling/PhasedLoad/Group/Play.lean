import PhasedLoad.Group.Basic

/-!
A group from its start to its end. Each step is the turn of one worker that is due; the group ends
when its last worker has ended, or stops with all its workers at its deadline or when the run is
cancelled. Whatever is due at that instant comes too late.
-/

namespace PhasedLoad

inductive GroupExit
  /-- Every worker ended on its own. -/
  | finished
  | stopped (reason : StopReason)
deriving DecidableEq

namespace GroupState

variable {σ : Type}

def call (env : Environment σ) (run : GroupRun) (s : GroupState σ) (w : Worker) : GroupState σ :=
  let (reply, world) := s.world.post env run.call
  let s := { s with world := world }.note (.called (run.caller w) run.call)
  s.put { w with
    due := Instant.wake world.now reply.latency
    activity := .awaiting world.now reply }

def pause (run : GroupRun) (s : GroupState σ) (w : Worker) : GroupState σ :=
  s.put { w with due := Instant.wake s.world.now run.delay, activity := .pausing }

def count (run : GroupRun) (s : GroupState σ) (took : Duration) (r : Response) : GroupState σ :=
  let s := { s with stats := s.stats.recordRequest took }
  if r.isRejection then s.log (.requestRejected run.name.phase r.text)
  else if r.isError then { s with stats := s.stats.recordError }
  else s

/-- A report that is due when an outcome comes in is made before it is counted. -/
def reportDue (run : GroupRun) (s : GroupState σ) : GroupState σ := s.report run (s.world.now + 1)

/-- The reply to a call that started at `since` is here. -/
def answer (run : GroupRun) (deadline : Option Instant) (s : GroupState σ) (w : Worker)
    (since : Instant) (reply : Reply) : GroupState σ :=
  let s := { s with world := s.world.receive reply }
  s.note (.answered (run.caller w) (Instant.elapsed since s.world.now) reply
    (s.world.stopReason deadline))

/-- A call is over: its outcome is counted, or it ends the worker. A failure of a group that has
stopped is not counted. -/
def receive (run : GroupRun) (deadline : Option Instant) (s : GroupState σ) (w : Worker)
    (since : Instant) (reply : Reply) : GroupState σ :=
  let s := s.answer run deadline w since reply
  match reply.outcome with
  | .response r =>
    ((s.reportDue run).count run (Instant.elapsed since s.world.now) r).pause run
      { w with codes := w.codes.add r.status 1 }
  | .failure f =>
    if f.isFatal then (s.log (.requestImpossible run.name f)).retire w
    else if (s.world.stopReason deadline).isSome then s.retire w
    else { s.reportDue run with stats := s.stats.recordError }.pause run w
  | .panic text => { s with broken := s.broken ++ [Breakdown.panic text] }.drop w

def act (env : Environment σ) (run : GroupRun) (deadline : Option Instant) (s : GroupState σ)
    (w : Worker) : GroupState σ :=
  match w.activity with
  | .pausing => s.call env run w
  | .awaiting since reply => s.receive run deadline w since reply

/-- The worker whose turn it is of those due at `t`. -/
def turn? (env : Environment σ) (s : GroupState σ) (t : Instant) : Option Worker :=
  let ready := s.workers.filter fun w => w.due == t
  ready[env.turns s.steps % ready.length]?

def step (env : Environment σ) (run : GroupRun) (deadline : Option Instant) (s : GroupState σ) :
    GroupState σ :=
  match s.nextDue? with
  | none => s
  | some t =>
    let s := s.advance run t
    match s.turn? env t with
    | none => s
    | some w => { s with steps := s.steps + 1 }.act env run deadline w

/-- The group at its end, if no worker has another turn. -/
def settled? (run : GroupRun) (deadline : Option Instant) (s : GroupState σ) :
    Option (GroupState σ) :=
  match s.nextDue? with
  | none => some s
  | some t => match s.world.stopAt deadline with
    | some stop => if stop ≤ t then some (s.advance run stop).retireAll else none
    | none => none

/-- The group at its end, if that comes within the given number of turns. -/
def play (env : Environment σ) (run : GroupRun) (deadline : Option Instant) :
    Nat → GroupState σ → Option (GroupState σ)
  | 0, s => s.settled? run deadline
  | n + 1, s => match s.settled? run deadline with
    | some s => some s
    | none => play env run deadline n (s.step env run deadline)

theorem play_of_settled {env : Environment σ} {run : GroupRun} {deadline : Option Instant}
    {s t : GroupState σ} (h : s.settled? run deadline = some t) (n : Nat) :
    s.play env run deadline n = some t := by
  cases n <;> simp [play, h]

def conclude (run : GroupRun) (deadline : Option Instant) (s : GroupState σ) :
    GroupExit × GroupState σ :=
  let s := s.notice run
  let s := if run.reportInterval.isZero then s.log (.reporterBroken run.name .zeroInterval) else s
  match s.world.stopReason deadline with
  | some reason => (.stopped reason, s.log (.groupStopped run.name reason))
  | none => (.finished, s.log (.groupFinished run.name))

end GroupState

structure GroupOutcome (σ : Type) where
  exit : GroupExit
  stats : Statistics
  history : History
  world : World σ

/-- A group's work inside a scope with deadline `outer`, if it ends within `turns` turns. -/
def GroupRun.perform {σ : Type} (env : Environment σ) (turns : Nat) (run : GroupRun)
    (outer : Option Instant) (world : World σ) (stats : Statistics) : Option (GroupOutcome σ) :=
  let deadline := world.within outer run.duration
  let start := (GroupState.start run world stats).log
    (.workersStarting run.name run.instances run.duration run.delay)
  match start.play env run deadline turns with
  | none => none
  | some s =>
    let (exit, s) := s.conclude run deadline
    some ⟨exit, s.stats, s.past.reverse, s.world⟩

end PhasedLoad
