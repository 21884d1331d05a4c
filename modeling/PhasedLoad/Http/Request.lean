import PhasedLoad.Http.Fault
import PhasedLoad.Http.Uri
import PhasedLoad.Http.Url

/-!
HTTP requests, and the messages that they become. A request names a header at most once; the message
has a host and, unless it is empty, the length of its body, which the request may settle itself.
-/

namespace PhasedLoad.Http

open Text

/-- Names and values, in the order in which they were given. -/
abbrev Headers := List (String × String)

namespace Headers

/-- Whether a name is given, in letters of either case. -/
def has (hs : Headers) (name : String) : Bool := hs.any fun h => sameLetters h.1 name

/-- With a header at the end, and none other of its name. -/
def set (hs : Headers) (name value : String) : Headers :=
  hs.filter (fun h => !sameLetters h.1 name) ++ [(name, value)]

def setAll (hs : Headers) (more : Headers) : Headers :=
  more.foldl (fun hs h => hs.set h.1 h.2) hs

def value? (hs : Headers) (name : String) : Option String :=
  (hs.find? fun h => sameLetters h.1 name).map (·.2)

end Headers

structure Request where
  method : String
  url : String
  headers : Headers
  body : String
  /-- How long the response may take; without it, any time. -/
  timeout : Option Duration
deriving DecidableEq

namespace Request

def ofMethod (method url body : String) : Request := ⟨method, url, [], body, none⟩

def post (url body : String) : Request := ofMethod "POST" url body

def withHeader (r : Request) (name value : String) : Request :=
  { r with headers := r.headers.set name value }

def withHeaders (r : Request) (hs : Headers) : Request := { r with headers := r.headers.setAll hs }

def withTimeout (r : Request) (timeout : Option Duration) : Request := { r with timeout := timeout }

def postJson (url body : String) : Request :=
  (post url body).withHeader "Content-Type" "application/json"

end Request

def maxNameBytes : Nat := 65535

def isNameChar (c : Char) : Bool := c.isAlphanum || "!#$%&'*+-.^_`|~".toList.contains c

/-- The name of a header, in lower case. -/
def headerName? (name : String) : Option String :=
  if name.toList.all isNameChar ∧ name ≠ "" ∧ name.utf8ByteSize ≤ maxNameBytes then
    some (String.ofList (lower name))
  else none

/-- The value of a header has no controls but tabs. -/
def isHeaderValue (value : String) : Bool :=
  value.toList.all fun c => (0x20 ≤ c.toNat && c.toNat ≠ 0x7F) || c = '\t'

/-- Headers as they go out; of each one, the name is looked at before the value. -/
def checkHeaders : Headers → Except Fault Headers
  | [] => .ok []
  | (name, value) :: hs => do
    match headerName? name with
    | none => throw .headerName
    | some name =>
      if isHeaderValue value = false then throw .headerValue
      let hs ← checkHeaders hs
      return (name, value) :: hs

/-- A blank that does not count at the ends of a header's value. -/
def isPadding (c : Char) : Bool := c = ' ' || c = '\t'

def unpadded (value : String) : String :=
  String.ofList
    (((value.toList.dropWhile isPadding).reverse.dropWhile isPadding).reverse)

structure Message where
  host : Host
  port : Nat
  method : String
  /-- The path and the query. -/
  target : List Char
  headers : Headers
  body : String
deriving DecidableEq

namespace Message

def line (m : Message) : String := m.method ++ " " ++ String.ofList m.target ++ " HTTP/1.1"

def received (m : Message) : Headers := m.headers.map fun h => (h.1, unpadded h.2)

/-- The message is for this machine, at the given port. -/
def isFor (m : Message) (port : Nat) : Bool := m.host = Host.loopback && m.port = port

end Message

namespace Request

/-- The host and the length of the body, as far as the request does not settle them itself. -/
def impliedHeaders (r : Request) (host : Option String) : Headers :=
  (if r.headers.has "host" then [] else host.toList.map ("host", ·)) ++
    (if r.body = "" ∨ r.headers.has "content-length" then []
      else [("content-length", toString r.body.utf8ByteSize)])

def message (naming : Naming) (r : Request) : Except Fault Message := do
  match Url.ofText? naming r.url with
  | none => throw (.invalidUrl r.url)
  | some url =>
    if url.isHttp = false then throw (.otherScheme r.url)
    match Uri.ofText? r.url with
    | none => throw (.invalidUrl r.url)
    | some uri =>
      let headers ← checkHeaders r.headers
      match uri.isAbsolute, url.destination? with
      | true, some (host, port) =>
        return ⟨host, port, r.method, uri.target, r.impliedHeaders url.hostField ++ headers, r.body⟩
      | _, _ => throw .noHost

end Request

end PhasedLoad.Http
