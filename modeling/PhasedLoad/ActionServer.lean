import PhasedLoad.Http.Exchange
import PhasedLoad.Reading.Decode

/-!
A server to try loads on. A posted action says how it is to be answered; the server keeps tallies of
what it was sent, and notes everything about a request when it arrives.
-/

namespace PhasedLoad.ActionServer

open Http Reading

structure Action where
  name : Option String
  status : Option Nat
  /-- How many milliseconds pass before the answer. -/
  sleep : Option Nat
deriving DecidableEq

def actionRecord : Record Action :=
  { name := "ActionRequest"
    fields :=
      [ .of "name" (optional string) fun a s => { a with name := s },
        .of "status" (optional (unsigned .unsigned16 (2 ^ 16 - 1))) fun a n =>
          { a with status := n },
        .of "sleep_ms" (optional (unsigned .unsigned64 (2 ^ 64 - 1))) fun a n =>
          { a with sleep := n } ]
    start := ⟨none, none, none⟩
    strict := false }

/-- What stands for a byte that is no part of a character. Inside a string that is skipped it may
stand anywhere but in an escape, and a string with it is no text: the letter begins no value, is no
digit and no escape, and the half character after it has no other half before it. -/
def fault : List Char := "x\\udc00".toList

def withFaults (cs : List (Option Char)) : List Char := cs.flatMap fun c => c.elim fault ([·])

def Action.ofBody? (body : List UInt8) : Option Action :=
  let d := Json.Document.read (withFaults (Text.utf8From none body))
  match actionRecord.decode .json (.ofJson Json.depthLimit d.tree) with
  | .ok a => if d.ended then some a else none
  | .error _ => none

namespace Action

/-- The status of the answer: the one asked for if it can be one, or success. -/
def answerStatus (a : Action) : Nat :=
  match a.status with
  | some n => if 100 ≤ n ∧ n ≤ 999 then n else 200
  | none => 200

def answer (a : Action) : Response :=
  ⟨a.answerStatus,
    Text.utf8 (if a.answerStatus = 400 then "rejected by request" else "\x7b\x7d")⟩

def latency (a : Action) : Duration := .ofMillis (a.sleep.getD 0)

end Action

structure Arrival where
  method : String
  /-- With the query. -/
  path : String
  headers : Headers
  body : List UInt8
deriving DecidableEq

inductive Mark
  | request
  | json
  | host (name : String)
  | action (name : String)
deriving DecidableEq

abbrev Counts := List (String × Nat)

namespace Counts

def bump (name : String) : Counts → Counts
  | [] => [(name, 1)]
  | (k, n) :: rest => if k = name then (k, n + 1) :: rest else (k, n) :: bump name rest

def count (name : String) : Counts → Nat
  | [] => 0
  | (k, n) :: rest => if k = name then n else count name rest

theorem count_bump (name other : String) (cs : Counts) :
    count other (bump name cs) = count other cs + if name = other then 1 else 0 := by
  induction cs with
  | nil => by_cases h : name = other <;> simp [bump, count, h]
  | cons c rest ih =>
    obtain ⟨k, n⟩ := c
    grind [bump, count]

end Counts

structure Tally where
  requests : Nat
  json : Nat
  hosts : Counts
  actions : Counts
deriving DecidableEq

namespace Tally

def empty : Tally := ⟨0, 0, [], []⟩

instance : Inhabited Tally := ⟨empty⟩

def note (t : Tally) : Mark → Tally
  | .request => { t with requests := t.requests + 1 }
  | .json => { t with json := t.json + 1 }
  | .host name => { t with hosts := t.hosts.bump name }
  | .action name => { t with actions := t.actions.bump name }

def noteAll (t : Tally) (ms : List Mark) : Tally := ms.foldl note t

def count (t : Tally) : Mark → Nat
  | .request => t.requests
  | .json => t.json
  | .host name => t.hosts.count name
  | .action name => t.actions.count name

theorem count_note (t : Tally) (m k : Mark) :
    (t.note m).count k = t.count k + if m = k then 1 else 0 := by
  cases m <;> cases k <;> simp [note, count, Counts.count_bump]

theorem count_noteAll (t : Tally) (ms : List Mark) (k : Mark) :
    (t.noteAll ms).count k = t.count k + ms.count k := by
  induction ms generalizing t with
  | nil => simp [noteAll]
  | cons m ms ih =>
    have h := ih (t.note m)
    simp only [noteAll, List.foldl_cons] at h ⊢
    rw [h, count_note, List.count_cons]
    by_cases hm : m = k <;> grind

end Tally

namespace Arrival

/-- Only posts to the root are handled. -/
def isAction (a : Arrival) : Bool :=
  a.method = "POST" && a.path.toList.takeWhile (· ≠ '?') = ['/']

/-- A header's first value, if all of it can be seen. -/
def visible? (a : Arrival) (name : String) : Option String :=
  (a.headers.value? name).filter fun v =>
    v.toList.all fun c => (0x20 ≤ c.toNat && c.toNat < 0x7F) || c = '\t'

def isJson (a : Arrival) : Bool :=
  (a.visible? "content-type").any fun v => "application/json".toList.isPrefixOf (Text.lower v)

def action? (a : Arrival) : Option Action := Action.ofBody? a.body

def marks (a : Arrival) : List Mark :=
  Mark.request :: (if a.isJson then [Mark.json] else []) ++
    ((a.visible? "host").map Mark.host).toList ++
    ((a.action?.bind (·.name)).map Mark.action).toList

def handled (a : Arrival) : Response × Duration :=
  match a.action? with
  | some action => (action.answer, action.latency)
  | none => (⟨400, Text.utf8 "bad json"⟩, .zero)

def refusal (a : Arrival) : Response :=
  ⟨if a.path.toList.takeWhile (· ≠ '?') = ['/'] then 405 else 404, []⟩

def answer (a : Arrival) : Response × Duration :=
  if a.isAction then a.handled else (a.refusal, .zero)

end Arrival

def Tally.receive (t : Tally) (a : Arrival) : Tally :=
  if a.isAction then t.noteAll a.marks else t

/-- A response as it goes out: one that only announces another is none. -/
def onWire (r : Response) : Response :=
  if r.status < 200 ∧ r.status ≠ 101 then ⟨500, []⟩ else r

end PhasedLoad.ActionServer
