import PhasedLoad.CommandLine.Value
import PhasedLoad.Output
import PhasedLoad.Settings

/-!
The words of a command line: a command, a plan, and options with values. A value stands in the same
word as its option, after an equals sign, or in the next word. Words are looked at from left to
right, and a value is looked into only when the next option or plan has been found.
-/

namespace PhasedLoad.CommandLine

structure PlanChoice where
  path : String
  runtime : Option Duration
  /-- One number for all repeats. -/
  repeats : Int
  pattern : Option Pattern
  minPhase : Duration
deriving DecidableEq

structure RunChoice where
  host : String
  port : Nat
  headers : List (String × String)
  runTimeout : Option Duration
  reportInterval : Duration
  logLevel : Option String
deriving DecidableEq

inductive Command
  | check (plan : PlanChoice) (form : OutputForm)
  | run (plan : PlanChoice) (form : OutputForm) (choice : RunChoice)
deriving DecidableEq

inductive Rejection
  /-- Help was asked for. -/
  | help
  | version
  /-- There was nothing at all. -/
  | nothing
  | unknownCommand
  | noPlan
  | unknownWord
  /-- A value is left out, empty, or none of those there are. -/
  | noValue
  /-- A value does not read as it should. -/
  | unfitValue (message : String)
  /-- An option is given twice. -/
  | repeated
  /-- A value is given where there is none. -/
  | surplusValue
deriving DecidableEq

namespace Rejection

/-- Asking for help or for the version is no mistake. -/
def exitCode : Rejection → Nat
  | help | version => 0
  | _ => 30

end Rejection

inductive Flag
  | totalDuration | repeatsPerPhase | phasePattern | minPhaseDuration | output
  | host | port | header | runTimeout | reportInterval | logLevel
deriving DecidableEq

namespace Flag

def name : Flag → String
  | totalDuration => "total-duration"
  | repeatsPerPhase => "repeats-per-phase"
  | phasePattern => "phase-pattern"
  | minPhaseDuration => "min-phase-duration"
  | output => "output"
  | host => "host"
  | port => "port"
  | header => "header"
  | runTimeout => "run-timeout"
  | reportInterval => "report-interval"
  | logLevel => "log-level"

def common : List Flag :=
  [totalDuration, repeatsPerPhase, phasePattern, minPhaseDuration, output]

def all : List Flag := common ++ [host, port, header, runTimeout, reportInterval, logLevel]

/-- The next word is the value, whatever it looks like. -/
def takesAnyWord (f : Flag) : Bool := f = repeatsPerPhase

def repeatable (f : Flag) : Bool := f = header

end Flag

/-- What the words so far have settled. -/
structure Draft where
  path : Option String
  plan : PlanChoice
  form : OutputForm
  run : RunChoice
  given : List Flag

namespace Draft

def start : Draft :=
  { path := none
    plan := ⟨"", none, -1, none, .ofSecs 60⟩
    form := .prose
    run := ⟨"localhost", 8080, [], none, .ofSecs 10, none⟩
    given := [] }

def fit {α : Type} (value : Except String α) : Except Rejection α := value.mapError .unfitValue

def set (d : Draft) (f : Flag) (s : String) : Except Rejection Draft := do
  match f with
  | .totalDuration => return { d with plan.runtime := some (← fit (Value.length s)) }
  | .repeatsPerPhase => return { d with plan.repeats := ← fit (Value.integer s) }
  | .phasePattern => return { d with plan.pattern := some (← fit (Value.pattern s)) }
  | .minPhaseDuration => return { d with plan.minPhase := ← fit (Value.length s) }
  | .output => match OutputForm.ofName? s with
    | some form => return { d with form := form }
    | none => throw .noValue
  | .host => return { d with run.host := s }
  | .port => return { d with run.port := ← fit (Value.upTo (2 ^ 16 - 1) s) }
  | .header => return { d with run.headers := d.run.headers ++ [← fit (Value.header s)] }
  | .runTimeout => return { d with run.runTimeout := some (← fit (Value.length s)) }
  | .reportInterval => return { d with run.reportInterval := ← fit (Value.length s) }
  | .logLevel => return { d with run.logLevel := some s }

/-- An option with its value, unless it has been given before. -/
def give (d : Draft) (f : Flag) (s : String) : Except Rejection Draft :=
  if d.given.contains f ∧ ¬ f.repeatable then .error .repeated
  else set { d with given := f :: d.given } f s

end Draft

/-- A word that has been found but not looked into. -/
inductive Pending
  | path (s : String)
  | flag (f : Flag) (value : Option String)

structure Reader where
  flags : List Flag
  draft : Draft
  pending : Option Pending
  /-- No further word is an option. -/
  plainOnly : Bool

/-- The two ways in which a word is no plain word. -/
inductive Dashed
  | long (name : String) (value : Option String)
  | short (letters : List Char)

/-- An option by its shape: two dashes and a name, or one and letters. -/
def Dashed.ofWord? (word : String) : Option Dashed :=
  match word.toList with
  | '-' :: '-' :: c :: cs => match Text.cut? '=' (c :: cs) with
    | some (name, value) => some (.long (String.ofList name) (some (String.ofList value)))
    | none => some (.long (String.ofList (c :: cs)) none)
  | '-' :: c :: cs => if c = '-' then none else some (.short (c :: cs))
  | _ => none

namespace Reader

def start (flags : List Flag) : Reader := ⟨flags, .start, none, false⟩

def settle (r : Reader) : Except Rejection Reader := do
  match r.pending with
  | none => return r
  | some (.path s) =>
    if s = "" then throw .noValue
    else return { r with draft.path := some s, pending := none }
  | some (.flag _ none) => throw .noValue
  | some (.flag f (some s)) => return { r with draft := ← r.draft.give f s, pending := none }

def awaits (r : Reader) : Option Flag :=
  match r.pending with
  | some (.flag f none) => some f
  | _ => none

def hasPath (r : Reader) : Bool :=
  r.draft.path.isSome || match r.pending with
    | some (.path _) => true
    | _ => false

def plain (r : Reader) (word : String) : Except Rejection Reader := do
  if r.hasPath then throw .unknownWord
  else return { ← r.settle with pending := some (.path word) }

def dashed (r : Reader) : Dashed → Except Rejection Reader
  | .long name value => do
    match r.flags.find? (·.name = name), value with
    | some f, some s =>
      let r ← r.settle
      return { r with draft := ← r.draft.give f s }
    | some f, none => return { ← r.settle with pending := some (.flag f none) }
    | none, none =>
      if name = "help" then
        let _ ← r.settle
        throw .help
      else throw .unknownWord
    | none, some _ => throw (if name = "help" then .surplusValue else .unknownWord)
  | .short letters => do
    if letters.head? = some 'h' then
      let _ ← r.settle
      throw .help
    else throw .unknownWord

def step (r : Reader) (word : String) : Except Rejection Reader :=
  if r.plainOnly then r.plain word
  else match r.awaits with
    | some f =>
      if f.takesAnyWord then .ok { r with pending := some (.flag f (some word)) }
      else if word = "--" then .ok { r with plainOnly := true }
      else match Dashed.ofWord? word with
        | some d => r.dashed d
        | none => .ok { r with pending := some (.flag f (some word)) }
    | none =>
      if word = "--" then .ok { r with plainOnly := true }
      else match Dashed.ofWord? word with
        | some d => r.dashed d
        | none => r.plain word

def read (flags : List Flag) (words : List String) : Except Rejection Draft := do
  let r ← (← words.foldlM step (start flags)).settle
  match r.draft.path with
  | some path => return { r.draft with plan.path := path }
  | none => throw .noPlan

end Reader

namespace Command

/-- The command of a name with the words after it; `help` is about commands. -/
def ofName? (name : String) (words : List String) : Option (Except Rejection Command) :=
  match name with
  | "check" => some ((Reader.read Flag.common words).map fun d => check d.plan d.form)
  | "run" => some ((Reader.read Flag.all words).map fun d => run d.plan d.form d.run)
  | "help" => some (.error (match words with
    | [] => .help
    | [word] => if word ∈ ["check", "run", "help"] then .help else .unknownCommand
    | _ => .unknownCommand))
  | _ => none

def ofDashed : Dashed → Rejection
  | .long "help" none => .help
  | .long "version" none => .version
  | .long "help" (some _) | .long "version" (some _) => .surplusValue
  | .short ('h' :: _) => .help
  | .short ('V' :: _) => .version
  | _ => .unknownWord

def ofWords : List String → Except Rejection Command
  | [] => .error .nothing
  | "--" :: [] => .error .nothing
  | "--" :: word :: _ =>
    .error (if (ofName? word []).isSome then .unknownWord else .unknownCommand)
  | word :: words => match Dashed.ofWord? word with
    | some d => .error (ofDashed d)
    | none => (ofName? word words).getD (.error .unknownCommand)

end Command

end PhasedLoad.CommandLine
