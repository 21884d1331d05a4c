import PhasedLoad.Http.Request
import PhasedLoad.Target

/-!
What comes of a request: its message goes out if something listens where it goes, and the other end
answers it, or does not.
-/

namespace PhasedLoad.Http

def Message.takesBody (m : Message) (status : Nat) : Bool :=
  m.method ≠ "HEAD" && status ≠ 101 && status ≠ 204 && status ≠ 304

def Message.reads (m : Message) (status : Nat) (body : List UInt8) : Response :=
  ⟨status, if m.takesBody status then body else []⟩

/-- A status that ends an exchange: one of three digits that does not announce another. -/
def isFinal (status : Nat) : Bool := status = 101 || (200 ≤ status && status ≤ 999)

inductive Conduct
  | answers (status : Nat) (body : List UInt8)
  /-- The connection ends inside the body. -/
  | breaksOff (status : Nat)
  /-- The connection ends with no response on it. -/
  | hangsUp
  /-- Nothing comes. -/
  | stalls

namespace Conduct

/-- What the sender gets; if nothing comes, what it gets depends on how long it waits. -/
def result (c : Conduct) (m : Message) (timeout : Option Duration) :
    Option (Except Fault Response) :=
  match c with
  | answers status body =>
    some (if isFinal status then .ok (m.reads status body) else .error .noReply)
  | breaksOff status =>
    some (if isFinal status = false then .error .noReply
      else if m.takesBody status then .error .brokenBody
      else .ok (m.reads status []))
  | hangsUp => some (.error .noReply)
  | stalls => timeout.map fun d => .error (.timeout d)

end Conduct

/-- The message that went out, if one did, and what its sender got, if that ever came. -/
structure Exchange where
  sent : Option Message
  result : Option (Except Fault Response)

/-- The exchange over a request when something with the given conduct listens at one port of this
machine. -/
def Request.exchange (naming : Naming) (r : Request) (port : Nat) (conduct : Conduct) : Exchange :=
  match r.message naming with
  | .error f => ⟨none, some (.error f)⟩
  | .ok m =>
    if m.isFor port then ⟨some m, conduct.result m r.timeout⟩
    else ⟨none, some (.error .unreachable)⟩

end PhasedLoad.Http
