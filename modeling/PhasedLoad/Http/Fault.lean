import PhasedLoad.Fault

/-!
Why an HTTP request brings no response.
-/

namespace PhasedLoad.Http

inductive Fault
  | invalidUrl (text : String)
  | otherScheme (text : String)
  | headerName
  | headerValue
  /-- The address names no host in the form that requests need. -/
  | noHost
  /-- Nothing listens there. -/
  | unreachable
  /-- The other end hung up, or sent what is no response. -/
  | noReply
  | timeout (after : Duration)
  /-- The response broke off. -/
  | brokenBody
deriving DecidableEq

namespace Fault

def message : Fault → String
  | invalidUrl text => "invalid url: " ++ text
  | otherScheme text => "only http:// URLs are supported: " ++ text
  | headerName => "invalid http header name: invalid HTTP header name"
  | headerValue => "invalid http header value: failed to parse header value"
  | noHost => "http request failed: client error (UserAbsoluteUriRequired)"
  | unreachable => "http request failed: client error (Connect)"
  | noReply => "http request failed: client error (SendRequest)"
  | timeout d => "http request timed out after " ++ d.exact
  | brokenBody => "failed to read response body: error reading a body from connection"

def isConstruction : Fault → Bool
  | invalidUrl _ | otherScheme _ | headerName | headerValue => true
  | _ => false

def toTarget (f : Fault) : TargetFault :=
  if f.isConstruction then .invalidRequest f.message
  else match f with
    | timeout d => .timeout d
    | f => .transport f.message

theorem toTarget_isFatal (f : Fault) : f.toTarget.isFatal = f.isConstruction := by
  cases f <;> rfl

end Fault

end PhasedLoad.Http
