import PhasedLoad.CommandLine.Arguments
import PhasedLoad.CommandLine.Failure
import PhasedLoad.Run.Basic
import PhasedLoad.Target.Http

/-!
What commands do: a check shows how a plan would run, a run runs it against a host. An interrupt
cancels a run that is still going.
-/

namespace PhasedLoad.CommandLine

namespace PlanChoice

def settings (c : PlanChoice) : Except PhasedLoad.Fault RunSettings := do
  let limits := { Limits.standard with minPhase := c.minPhase }
  let repeats ← RepeatsOverride.ofFlag c.repeats limits
  return { RunSettings.standard with
    limits := limits
    runtime := c.runtime
    repeats := repeats
    pattern := c.pattern }

/-- Whether the plan is JSON, by the path's extension. -/
def format (c : PlanChoice) : Reading.Format :=
  match Path.extension? c.path with
  | some ext => if ext.map Char.toLower = "json".toList then .json else .yaml
  | none => .yaml

/-- The plan, and the pattern that it asks for if that is not known, from what reading its file
gave. -/
def plan (c : PlanChoice) (source : Except FileFault String) :
    Except Failure (Plan × Option String) := do
  match source with
  | .error f => throw (.unreadable c.path f)
  | .ok text => (PlanFile.read c.format text).mapError (.noPlan c.path c.format)

end PlanChoice

/-- What a command shows, logs, and fails at. -/
structure Transcript where
  stdout : String
  log : List LogEvent
  failure : Option Failure

namespace Transcript

def exitCode (t : Transcript) : Nat :=
  match t.failure with
  | some f => f.exitCode
  | none => 0

end Transcript

structure Result extends Transcript where
  /-- The server, if there is one. -/
  listener : Option Listener

def unknownEvents (p : Option String) : List LogEvent := (p.map LogEvent.unknownPattern).toList

def check (c : PlanChoice) (form : OutputForm) (source : Except FileFault String) :
    List LogEvent × Except Failure String :=
  match (do let s ← c.settings; s.validate; return s) with
  | .error f => ([], .error (.run f))
  | .ok settings => match c.plan source with
    | .error f => ([], .error f)
    | .ok (plan, unknown) =>
      match (plan.withPattern settings.pattern).normalize settings.limits with
      | .error f => (unknownEvents unknown, .error (.run f))
      | .ok plan =>
        let (repeats, notices) := Repeats.ofPlan plan settings.repeats settings.limits
        let budget := Budget.ofPlan settings.runtime plan repeats settings.limits
        (unknownEvents unknown ++ notices.map .repeats, .ok (form.plan plan repeats budget))

/-- What a run goes on beside its target: when an interrupt comes, and how chance falls. -/
structure Circumstances where
  interruptAt : Option Instant
  chooser : Random.Chooser
  /-- How many turns each group of workers has. -/
  turns : Nat

/-- The run of a plan that is ready, against a target in the given state; none if the turns do not
suffice. -/
def Circumstances.run {σ : Type} (around : Circumstances) (env : Environment σ) (state : σ)
    (c : Campaign) : Option (RunOutcome σ) :=
  c.run env around.turns (.ofPattern around.chooser c.plan.pattern) none
    (.start state around.interruptAt)

def RunChoice.destination (choice : RunChoice) : Destination :=
  ⟨choice.host, choice.port, choice.headers⟩

/-- What a command goes on: there may be a server that listens. -/
structure Surroundings extends Circumstances where
  naming : Http.Naming
  listener : Option Listener

/-- What happened up to `now`, with the interrupt at `t` in its place. -/
def withInterrupt (t now : Instant) (h : History) : History :=
  if now < t then h
  else h.takeWhile (·.instant < t) ++ ⟨t, .logged .interrupted⟩ :: h.dropWhile (·.instant < t)

def endingFailure : RunEnding → Option Failure
  | .finished _ => none
  | .failed f => some (.run f)
  | .panicked text => some (.broken text)

def shown {σ : Type} (form : OutputForm) (o : RunOutcome σ) : String :=
  String.join (o.summaries.map form.summary) ++ match o.ending with
    | .finished report => form.report report
    | _ => ""

/-- A run that is about to start, with what it has shown and logged by then. -/
structure Launch where
  campaign : Campaign
  /-- The plan as it is shown. -/
  overview : String
  log : List LogEvent

/-- What a run does before it starts: unless it rejects what it was given, it shows its plan. -/
def launch (p : PlanChoice) (form : OutputForm) (choice : RunChoice)
    (source : Except FileFault String) : Except Transcript Launch :=
  match p.settings with
  | .error f => .error ⟨"", [], some (.run f)⟩
  | .ok settings => match p.plan source with
    | .error f => .error ⟨"", [], some f⟩
    | .ok (plan, unknown) =>
      let settings := { settings with
        reportInterval := choice.reportInterval
        runTimeout := choice.runTimeout }
      let (events, prepared) := Campaign.prepare plan settings
      let log := unknownEvents unknown ++ .runStarting choice.destination.url :: events
      match prepared with
      | .error f => .error ⟨"", log, some (.run f)⟩
      | .ok c => .ok ⟨c, form.plan c.plan c.repeats c.budget, log⟩

/-- What comes of a run that was launched, and the state of the target after it; none if the turns
do not suffice. -/
def Launch.run {σ : Type} (l : Launch) (env : Environment σ) (state : σ) (around : Circumstances)
    (form : OutputForm) : Option (Transcript × σ) := do
  let o ← around.run env state l.campaign
  let history := match around.interruptAt with
    | some t => withInterrupt t o.world.now o.history
    | none => o.history
  let transcript : Transcript :=
    { stdout := l.overview ++ shown form o
      log := l.log ++ history.logs
      failure := endingFailure o.ending }
  some (transcript, o.world.target)

/-- A run from its beginning, against what its destination is; none if the turns do not suffice. -/
def runAgainst {σ : Type} (connect : Destination → Environment σ) (state : σ)
    (around : Circumstances) (p : PlanChoice) (form : OutputForm) (choice : RunChoice)
    (source : Except FileFault String) : Option (Transcript × σ) :=
  match launch p form choice source with
  | .error t => some (t, state)
  | .ok l => l.run (connect choice.destination) state around form

def run (around : Surroundings) (p : PlanChoice) (form : OutputForm) (choice : RunChoice)
    (source : Except FileFault String) : Option Result :=
  (runAgainst (fun d => .orderly (Target.http around.naming d)) around.listener
    around.toCircumstances p form choice source).map fun (transcript, listener) => { transcript with listener := listener }

namespace Command

def path : Command → String
  | check p _ => p.path
  | run p _ _ => p.path

def perform (around : Surroundings) (source : Except FileFault String) : Command → Option Result
  | check p form =>
    let (log, shown) := CommandLine.check p form source
    some (match shown with
      | .ok stdout => ⟨⟨stdout, log, none⟩, around.listener⟩
      | .error f => ⟨⟨"", log, some f⟩, around.listener⟩)
  | run p form choice => CommandLine.run around p form choice source

end Command

end PhasedLoad.CommandLine
