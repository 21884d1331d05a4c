import PhasedLoad.Run.Execution

/-!
A whole run: phases are picked and executed until none has repeats left, the run times out, it is
cancelled, or a setup fails.
-/

namespace PhasedLoad

/-- A run under way, between two executions. -/
structure RunState (σ : Type) where
  world : World σ
  selector : Selector
  /-- The phase whose turn it is. -/
  current : Nat
  executions : Executions
  /-- The executions so far, last to first. -/
  past : List Execution

inductive Conclusion
  | completed
  | timedOut
  | canceled
  | setupFailed (phase : Nat) (fault : TargetFault)
  /-- A setup or teardown broke the run down, in an execution of which this happened. -/
  | panicked (text : String) (history : History)

namespace RunState

variable {σ : Type}

def start (c : Campaign) (selector : Selector) (world : World σ) : RunState σ :=
  ⟨world, selector, 0, List.replicate c.phaseCount 0, []⟩

/-- The phase to execute: the one whose turn it is, or the next if it has no repeats left. -/
def pick (c : Campaign) (s : RunState σ) : Option Nat × Selector :=
  if c.repeats.hasBudget s.executions s.current then (some s.current, s.selector)
  else s.selector.nextPhase s.current c.repeats s.executions

/-- The phase after the one executed last; none if the run is complete. -/
def next (c : Campaign) (s : RunState σ) : Option Nat × Selector :=
  if s.selector.shouldAdvance s.current c.repeats s.executions then
    s.selector.nextPhase s.current c.repeats s.executions
  else (some s.current, s.selector)

def record (s : RunState σ) (i : Nat) (x : Execution) (selector : Selector) (world : World σ) :
    RunState σ :=
  { world := world
    selector := selector
    current := i
    executions := s.executions.record i
    past := x :: s.past }

def concludedBy (x : Execution) : Option Conclusion :=
  match x.setupFault with
  | some f => some (.setupFailed x.phase f)
  | none => if x.summary.ending = .canceled then some .canceled else none

end RunState

inductive Round (σ : Type)
  /-- The run goes no further. -/
  | last (conclusion : Conclusion) (s : RunState σ)
  | next (s : RunState σ)

namespace RunState

variable {σ : Type}

def turn (c : Campaign) (s : RunState σ) : Round σ :=
  match s.next c with
  | (none, selector) => .last .completed { s with selector := selector }
  | (some current, selector) => .next { s with selector := selector, current := current }

def follow (c : Campaign) (s : RunState σ) (i : Nat) (selector : Selector) (world : World σ) :
    ExecutionResult → Round σ
  | .done x =>
    let s := s.record i x selector world
    match concludedBy x with
    | some conclusion => .last conclusion s
    | none => s.turn c
  | .setupPanicked text history =>
    .last (.panicked text history) { s with world := world, selector := selector }
  | .teardownPanicked text x =>
    .last (.panicked text x.history) { s with world := world, selector := selector }

/-- One execution, unless the run goes no further; each group has `turns` turns. -/
def round (env : Environment σ) (turns : Nat) (c : Campaign) (deadline : Option Instant)
    (s : RunState σ) : Option (Round σ) :=
  match s.world.stopReason deadline with
  | some .canceled => some (.last .canceled s)
  | some .deadlineExceeded => some (.last .timedOut s)
  | none =>
    match s.pick c with
    | (none, selector) => some (.last .completed { s with selector := selector })
    | (some i, selector) => do
      let (result, world) ← c.execute env turns i (s.executions.getD i 0 + 1) deadline s.world
      some (s.follow c i selector world result)

theorem hasBudget_of_pick {c : Campaign} {s : RunState σ} {i : Nat} {selector : Selector}
    (h : s.pick c = (some i, selector)) : c.repeats.hasBudget s.executions i = true := by
  unfold pick at h
  split at h
  · next hb => cases h; exact hb
  · exact Selector.hasBudget_of_nextPhase h

theorem turn_eq_next {c : Campaign} {s t : RunState σ} (h : s.turn c = .next t) :
    t.executions = s.executions := by
  unfold turn at h
  split at h
  · cases h
  · cases h; rfl

theorem follow_eq_next {c : Campaign} {s t : RunState σ} {i : Nat} {selector : Selector}
    {world : World σ} {result : ExecutionResult}
    (h : s.follow c i selector world result = .next t) :
    t.executions = s.executions.record i := by
  cases result with
  | done x =>
    simp only [follow] at h
    split at h
    · cases h
    · exact turn_eq_next h
  | setupPanicked text history => cases h
  | teardownPanicked text x => cases h

/-- A round that is not the last uses up a repeat. -/
theorem remaining_lt_of_round {env : Environment σ} {turns : Nat} {c : Campaign}
    {deadline : Option Instant} {s t : RunState σ}
    (h : s.round env turns c deadline = some (.next t)) :
    c.repeats.remaining t.executions < c.repeats.remaining s.executions := by
  unfold round at h
  split at h
  · cases h
  · cases h
  · split at h
    · cases h
    · next i selector hpick =>
      simp only [Option.bind_eq_bind, Option.bind_eq_some_iff, Option.some.injEq] at h
      obtain ⟨⟨result, world⟩, -, hfollow⟩ := h
      rw [follow_eq_next hfollow]
      exact Repeats.remaining_record_lt (hasBudget_of_pick hpick)

def play (env : Environment σ) (turns : Nat) (c : Campaign) (deadline : Option Instant)
    (s : RunState σ) : Option (Conclusion × RunState σ) :=
  match _h : s.round env turns c deadline with
  | none => none
  | some (.last conclusion s) => some (conclusion, s)
  | some (.next t) => play env turns c deadline t
termination_by c.repeats.remaining s.executions
decreasing_by exact remaining_lt_of_round _h

end RunState

inductive RunEnding
  | finished (report : RunReport)
  | failed (fault : Fault)
  /-- A setup or teardown broke the run down. -/
  | panicked (text : String)
deriving DecidableEq

structure RunOutcome (σ : Type) where
  ending : RunEnding
  /-- The lines about the plan. -/
  opening : History
  executions : List Execution
  /-- What happened after the last execution. -/
  closing : History
  /-- What the next run goes on with. -/
  selector : Selector
  world : World σ

namespace RunOutcome

variable {σ : Type}

def history (o : RunOutcome σ) : History :=
  o.opening ++ o.executions.flatMap Execution.history ++ o.closing

def summaries (o : RunOutcome σ) : List PhaseSummary := o.executions.map (·.summary)

end RunOutcome

namespace Campaign

variable {σ : Type}

/-- The deadline of a run inside a scope with deadline `outer`. -/
def deadline (c : Campaign) (outer : Option Instant) (world : World σ) : Option Instant :=
  match c.settings.runTimeout with
  | some d => world.within outer d
  | none => outer

def setupFault (c : Campaign) (i : Nat) (f : TargetFault) : Fault :=
  .setup (i + 1) (c.plan.phases.getD i default).name f

/-- The end of a run that started at `started`, and what happened after its last execution. -/
def conclude (c : Campaign) (started : Instant) (s : RunState σ) :
    Conclusion → RunEnding × History
  | .completed => finish .completed
  | .timedOut =>
    let (ending, history) := finish .runTimeout
    (ending, Part.logged s.world .runTimedOut :: history)
  | .canceled => (.failed .canceled, [])
  | .setupFailed i f => (.failed (c.setupFault i f), [])
  | .panicked text history => (.panicked text, history)
where
  finish (ending : RunEnd) : RunEnding × History :=
    let report := RunReport.ofExecutions s.executions (Instant.elapsed started s.world.now) ending
    (.finished report,
      [Part.logged s.world (.runFinished report.total report.elapsed report.ending)])

/-- A run inside a scope with deadline `outer`, if each of its groups ends within `turns` turns. -/
def run (env : Environment σ) (turns : Nat) (c : Campaign) (selector : Selector)
    (outer : Option Instant) (world : World σ) : Option (RunOutcome σ) := do
  let (conclusion, s) ← (RunState.start c selector world).play env turns c (c.deadline outer world)
  let (ending, closing) := c.conclude world.now s conclusion
  some
    { ending := ending
      opening := c.overview.map (Part.logged world)
      executions := s.past.reverse
      closing := closing
      selector := s.selector
      world := s.world }

def runs (env : Environment σ) (turns : Nat) (c : Campaign) (outer : Option Instant) :
    Nat → Selector → World σ → Option (List (RunOutcome σ))
  | 0, _, _ => some []
  | n + 1, selector, world => do
    let o ← c.run env turns selector outer world
    let rest ← runs env turns c outer n o.selector o.world
    some (o :: rest)

end Campaign

end PhasedLoad
