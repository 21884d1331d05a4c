import PhasedLoad.ActionServer

/-!
A target that is reached over HTTP: every call is a post of JSON to the root of a host, with headers
of the caller's choice.
-/

namespace PhasedLoad

structure Destination where
  host : String
  port : Nat
  headers : Http.Headers
deriving DecidableEq

namespace Destination

def url (d : Destination) : String := "http://" ++ d.host ++ ":" ++ toString d.port ++ "/"

def request (d : Destination) (call : Call) : Http.Request :=
  ((Http.Request.postJson d.url call.body).withHeaders d.headers).withTimeout call.timeout

end Destination

/-- An action server that listens at a port of this machine. -/
structure Listener where
  port : Nat
  tally : ActionServer.Tally

def Http.Message.arrival (m : Http.Message) : ActionServer.Arrival :=
  { method := m.method
    path := String.ofList m.target
    headers := m.received
    body := Text.utf8 m.body }

namespace Target

def served (m : Http.Message) : Reply :=
  let (response, latency) := m.arrival.answer
  let response := ActionServer.onWire response
  let response := m.reads response.status response.body
  .ofResponse latency response.status response.body

def failing (f : TargetFault) : Reply := ⟨.zero, false, .failure f⟩

/-- The target that a destination is, if at most one action server listens on this machine. -/
def http (naming : Http.Naming) (d : Destination) : Target (Option Listener) :=
  Target.patient ⟨fun call listener =>
    match (d.request call).message naming, listener with
    | .error f, _ => (failing f.toTarget, listener)
    | .ok m, some l =>
      if m.isFor l.port then (served m, some { l with tally := l.tally.receive m.arrival })
      else (failing Http.Fault.unreachable.toTarget, listener)
    | .ok _, none => (failing Http.Fault.unreachable.toTarget, none)⟩

/-- Whatever its naming and its listener, no call over HTTP outlasts the patience of its caller. -/
theorem honours_http (naming : Http.Naming) (d : Destination) : (http naming d).Honours :=
  honours_patient _

end Target

end PhasedLoad
