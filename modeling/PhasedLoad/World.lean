import PhasedLoad.Log
import PhasedLoad.Target

/-!
The clock, the target and the run's cancellation as they stand at one moment, and the history of
what happened. Nothing takes time but waiting, so the clock moves from one awaited instant to the
next.
-/

namespace PhasedLoad

/-- Who calls the target: an execution's setup or teardown, or a worker of one of its groups. -/
inductive Caller
  | setup
  | worker (group number : Nat)
  | teardown
deriving DecidableEq

inductive Event
  | called (who : Caller) (call : Call)
  /-- The caller got the reply to its call, after `took`; by then its scope had stopped for a
  reason, or it had not. -/
  | answered (who : Caller) (took : Duration) (reply : Reply) (stopped : Option StopReason)
  | logged (event : LogEvent)
  | summarized (summary : PhaseSummary)

structure Entry where
  instant : Instant
  event : Event

/-- What happened, first to last. -/
abbrev History := List Entry

namespace History

def logs (h : History) : List LogEvent :=
  h.filterMap fun e => match e.event with
    | .logged l => some l
    | _ => none

def calls (h : History) : List (Instant × Call) :=
  h.filterMap fun e => match e.event with
    | .called _ c => some (e.instant, c)
    | _ => none

def summaries (h : History) : List PhaseSummary :=
  h.filterMap fun e => match e.event with
    | .summarized s => some s
    | _ => none

end History

/-- How the target behaves, and whose turn it is when several workers are due at once. -/
structure Environment (σ : Type) where
  target : Target σ
  /-- A number for each step; its remainder by the number of workers that are due is the place of
  the one whose turn it is. -/
  turns : Nat → Nat

/-- The environment in which workers due at once take their turns by their numbers. -/
def Environment.orderly {σ : Type} (target : Target σ) : Environment σ := ⟨target, fun _ => 0⟩

structure World (σ : Type) where
  now : Instant
  /-- When the run is cancelled, as far as that is settled. -/
  canceledAt : Option Instant
  target : σ

namespace World

variable {σ : Type}

def start (target : σ) (canceledAt : Option Instant) : World σ := ⟨0, canceledAt, target⟩

/-- With the clock at `t`, unless it is already later. -/
def advance (w : World σ) (t : Instant) : World σ := { w with now := max w.now t }

/-- With the run cancelled now, unless it was before. -/
def cancel (w : World σ) : World σ := { w with canceledAt := earliest? (some w.now) w.canceledAt }

/-- The reply to a call that starts now, and the world after its start. -/
def post (w : World σ) (env : Environment σ) (call : Call) : Reply × World σ :=
  let (reply, target) := env.target.post call w.target
  (reply, { w with target := target })

def receive (w : World σ) (reply : Reply) : World σ := if reply.cancels then w.cancel else w

def stopReason (w : World σ) (deadline : Option Instant) : Option StopReason :=
  StopReason.observe deadline w.canceledAt w.now

/-- When a scope with the given deadline stops, as far as that is settled. -/
def stopAt (w : World σ) (deadline : Option Instant) : Option Instant :=
  earliest? deadline w.canceledAt

/-- The deadline of a scope that is to last for `d` from now, inside one with another deadline. -/
def within (w : World σ) (deadline : Option Instant) (d : Duration) : Option Instant :=
  earliest? deadline (Instant.after? w.now d)

@[simp] theorem advance_now (w : World σ) (t : Instant) : (w.advance t).now = max w.now t := rfl
@[simp] theorem advance_canceledAt (w : World σ) (t : Instant) :
    (w.advance t).canceledAt = w.canceledAt := rfl
@[simp] theorem post_now (w : World σ) (env : Environment σ) (call : Call) :
    (w.post env call).2.now = w.now := rfl
@[simp] theorem receive_now (w : World σ) (reply : Reply) : (w.receive reply).now = w.now := by
  simp only [receive]; split <;> rfl
@[simp] theorem receive_target (w : World σ) (reply : Reply) :
    (w.receive reply).target = w.target := by
  simp only [receive]; split <;> rfl

end World

end PhasedLoad
