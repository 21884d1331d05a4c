import PhasedLoad.Http.Host

/-!
The words that start an action server: where it is to listen, or a question for help. Words are
taken from left to right, and the first that is wrong or asks for help ends it.
-/

namespace PhasedLoad.ActionServer

open Http

structure Socket where
  host : Host
  port : Nat
deriving DecidableEq

namespace Socket

def any : Socket := ⟨Host.loopback, 0⟩

def port? (cs : List Char) : Option Nat :=
  if cs.all Text.isDigit then (Text.number? 10 cs).filter (· < 2 ^ 16) else none

/-- A version 6 address, which may name a zone by its number. -/
def zoned? (cs : List Char) : Option Host :=
  match Text.cut? '%' cs with
  | none => (Host.ipv6? cs).map .ipv6
  | some (address, zone) =>
    if zone.all Text.isDigit ∧ (Text.number? 10 zone).any (· < 2 ^ 32) then
      (Host.ipv6? address).map .ipv6
    else none

def ofText? (s : String) : Option Socket :=
  match s.toList with
  | '[' :: cs => do
    let (address, rest) ← Text.cut? ']' cs
    let host ← zoned? address
    match rest with
    | ':' :: port => some ⟨host, ← port? port⟩
    | _ => none
  | cs => do
    let (address, port) ← Text.cut? ':' cs
    match Host.dottedGroups? address with
    | some [a, b] => some ⟨.ipv4 (a * 2 ^ 16 + b), ← port? port⟩
    | _ => none

end Socket

inductive Start
  | listen (socket : Socket)
  | help
  | mistake
deriving DecidableEq

namespace Start

def ofWords (s : Socket) : List String → Start
  | [] => listen s
  | "--bind" :: words => match words with
    | [] => mistake
    | address :: words => match Socket.ofText? address with
      | some s => ofWords s words
      | none => mistake
  | word :: _ => if word = "-h" ∨ word = "--help" then help else mistake

def exitCode? : Start → Option Nat
  | listen _ => none
  | help => some 0
  | mistake => some 1

end Start

end PhasedLoad.ActionServer
