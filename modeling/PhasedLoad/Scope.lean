import PhasedLoad.Report

/-!
Scopes: nested spans of work that stop at a deadline or when they, or a scope around them, are
cancelled. A scope remembers the first reason to stop that anyone saw.
-/

namespace PhasedLoad

structure Scope where
  /-- The number of the scope and of each scope around it. -/
  path : List Nat
  deadline : Option Instant
  /-- Why the scope stopped, once that was seen. -/
  reason : Option StopReason

/-- Scopes and the clock that they share. -/
structure ScopeTree where
  now : Instant
  /-- The scopes by their numbers. -/
  scopes : List Scope
  /-- The scope that each name stands for; several names may share one. -/
  names : List Nat
  /-- The scopes that were cancelled. -/
  canceled : List Nat
  /-- Cancellations whose delay has not begun, first to last. -/
  delayed : List (Duration × Nat)
  /-- Cancellations under way and when they are due. -/
  pending : List (Instant × Nat)

namespace ScopeTree

def root : ScopeTree := ⟨0, [⟨[0], none, none⟩], [0], [], [], []⟩

def find? (t : ScopeTree) (name : Nat) : Option (Nat × Scope) := do
  let id ← t.names[name]?
  let s ← t.scopes[id]?
  some (id, s)

def add (t : ScopeTree) (path : List Nat) (deadline : Option Instant) : Nat × ScopeTree :=
  let id := t.scopes.length
  (t.names.length,
    { t with scopes := t.scopes ++ [⟨id :: path, deadline, none⟩], names := t.names ++ [id] })

def addRoot (t : ScopeTree) : Nat × ScopeTree := t.add [] none

/-- A scope inside `s` with the same deadline. -/
def addChild (t : ScopeTree) (s : Scope) : Nat × ScopeTree := t.add s.path s.deadline

/-- A scope inside `s` that lasts for `d` at most. -/
def addTimed (t : ScopeTree) (s : Scope) (d : Duration) : Nat × ScopeTree :=
  t.add s.path (earliest? s.deadline (Instant.after? t.now d))

def addName (t : ScopeTree) (id : Nat) : Nat × ScopeTree :=
  (t.names.length, { t with names := t.names ++ [id] })

/-- A scope is cancelled with any of the scopes around it. -/
def isCanceled (t : ScopeTree) (s : Scope) : Bool := s.path.any fun id => t.canceled.contains id

/-- The reason to stop that can be seen now. -/
def observed (t : ScopeTree) (s : Scope) : Option StopReason :=
  match s.reason with
  | some r => some r
  | none => StopReason.observe s.deadline (if t.isCanceled s then some t.now else none) t.now

def remember (t : ScopeTree) (id : Nat) (reason : Option StopReason) : ScopeTree :=
  { t with scopes := t.scopes.modify id fun s => { s with reason := reason } }

/-- Why scope `id` has stopped, if it has. -/
def err (t : ScopeTree) (id : Nat) : Option StopReason × ScopeTree :=
  let reason := t.scopes[id]?.bind t.observed
  (reason, t.remember id reason)

def cancel (t : ScopeTree) (id : Nat) : ScopeTree :=
  ({ t with canceled := id :: t.canceled }.err id).2

/-- Lets cancellations act, in the order of their instants, as far as they are due at `limit`; the
clock moves on to them. -/
def act (limit : Instant) : List (Instant × Nat) → ScopeTree → ScopeTree
  | [], t => t
  | (due, id) :: rest, t =>
    if due ≤ limit then act limit rest ({ t with now := max t.now due }.cancel id) else t

def schedule (p : Instant × Nat) : List (Instant × Nat) → List (Instant × Nat)
  | [] => [p]
  | q :: rest => if p.1 < q.1 then p :: q :: rest else q :: schedule p rest

def beginDelays (t : ScopeTree) : ScopeTree :=
  { t with
    pending := t.delayed.foldl (fun ps p => schedule (Instant.wake t.now p.1, p.2) ps) t.pending
    delayed := [] }

def wait (t' : Instant) (t : ScopeTree) : ScopeTree :=
  let u := act t' t.pending { t with pending := t.pending.filter fun p => t' < p.1 }
  { u with now := max u.now t' }

/-- Moves the clock. Nobody waits meanwhile: what falls due on the way acts at the next move or
wait, what was due before acts now. -/
def advance (d : Duration) (t : ScopeTree) : ScopeTree :=
  let before := t.now
  (wait before { t with now := t.now + d.nanos }).beginDelays

/-- When scope `s` stops, as far as that is settled. -/
def stopAt (t : ScopeTree) (s : Scope) : Option Instant :=
  earliest? s.deadline ((t.pending.find? fun p => s.path.contains p.2).map fun p => max t.now p.1)

/-- Why scope `id` stopped that was waited for: a cancellation where no reason can be seen. -/
def stopped (t : ScopeTree) (id : Nat) : Option StopReason × ScopeTree :=
  let (reason, t) := t.err id
  (some (reason.getD .canceled), t)

/-- Waits for scope `id` to stop, for at most `patience`. -/
def done (t : ScopeTree) (id : Nat) (s : Scope) (patience : Duration) :
    Option StopReason × ScopeTree :=
  if (t.observed s).isSome then t.stopped id
  else
    let t := t.beginDelays
    let limit := t.now + patience.nanos
    match (t.stopAt s).filter (· ≤ limit) with
    | some stop => (t.wait stop).stopped id
    | none => (none, t.wait limit)

/-- Runs something that takes `d` inside scope `id`: the reason if the scope stops no later than it
ends. -/
def run (t : ScopeTree) (id : Nat) (s : Scope) (d : Duration) : Option StopReason × ScopeTree :=
  let (reason, t) := t.err id
  if reason.isSome then (reason, t)
  else if d.isZero then (none, t)
  else
    let t := t.beginDelays
    let finish := Instant.wake t.now d
    match (t.stopAt s).filter (· ≤ finish) with
    | some stop => (t.wait stop).stopped id
    | none => (none, t.wait finish)

def remaining (t : ScopeTree) (s : Scope) : Option Duration :=
  s.deadline.map fun d => Instant.elapsed t.now d

end ScopeTree

/-- What can be done with scopes; they are given by their names. -/
inductive ScopeStep
  | root
  | child (parent : Nat)
  | clone (other : Nat)
  | timeout (parent : Nat) (d : Duration)
  | cancel (name : Nat)
  | cancelAfter (name : Nat) (d : Duration)
  | advance (d : Duration)
  | err (name : Nat)
  | remaining (name : Nat)
  | deadline (name : Nat)
  | done (name : Nat) (patience : Duration)
  | run (name : Nat) (d : Duration)

inductive ScopeAnswer
  | nothing
  | name (n : Nat)
  | stopped (reason : StopReason)
  | length (d : Duration)
  | instant (t : Instant)
  /-- The scope did not stop while it was waited for. -/
  | pending
  /-- What ran inside the scope came to its end. -/
  | ran

namespace ScopeTree

def named (r : Nat × ScopeTree) : ScopeAnswer × ScopeTree := (.name r.1, r.2)

def answered (otherwise : ScopeAnswer) (r : Option StopReason × ScopeTree) :
    ScopeAnswer × ScopeTree :=
  match r.1 with
  | some reason => (.stopped reason, r.2)
  | none => (otherwise, r.2)

def stepWith (t : ScopeTree) (id : Nat) (s : Scope) : ScopeStep → ScopeAnswer × ScopeTree
  | .root => named t.addRoot
  | .child _ => named (t.addChild s)
  | .clone _ => named (t.addName id)
  | .timeout _ d => named (t.addTimed s d)
  | .cancel _ => (.nothing, t.cancel id)
  | .cancelAfter _ d => (.nothing, { t with delayed := t.delayed ++ [(d, id)] })
  | .advance d => (.nothing, t.advance d)
  | .err _ => answered .nothing (t.err id)
  | .remaining _ => (match t.remaining s with
      | some d => .length d
      | none => .nothing, t)
  | .deadline _ => (match s.deadline with
      | some d => .instant d
      | none => .nothing, t)
  | .done _ patience => answered .pending (t.done id s patience)
  | .run _ d => answered .ran (t.run id s d)

def subject : ScopeStep → Nat
  | .root | .advance _ => 0
  | .child n | .clone n | .timeout n _ | .cancel n | .cancelAfter n _ | .err n | .remaining n
  | .deadline n | .done n _ | .run n _ => n

/-- One step; nothing happens if its name stands for no scope. -/
def step (t : ScopeTree) (x : ScopeStep) : ScopeAnswer × ScopeTree :=
  match t.find? (subject x) with
  | none => (.nothing, t)
  | some (id, s) => t.stepWith id s x

def steps (t : ScopeTree) : List ScopeStep → List (Instant × ScopeAnswer) × ScopeTree
  | [] => ([], t)
  | x :: xs =>
    let (answer, t) := t.step x
    let (rest, u) := t.steps xs
    ((t.now, answer) :: rest, u)

end ScopeTree

end PhasedLoad
