import PhasedLoad.Folder
import PhasedLoad.PlanFile

/-!
Why a command fails, and what its caller learns of that.
-/

namespace PhasedLoad.CommandLine

inductive FailureKind
  /-- It was asked for something that cannot be done. -/
  | invalidInput
  /-- The run began, but could not go on. -/
  | runtime
  | canceled
deriving DecidableEq

namespace FailureKind

def exitCode : FailureKind → Nat
  | invalidInput => 30
  | runtime => 40
  | canceled => 50

def all : List FailureKind := [invalidInput, runtime, canceled]

end FailureKind

inductive Failure
  | unreadable (path : String) (fault : FileFault)
  | noPlan (path : String) (format : Reading.Format) (fault : Reading.Fault)
  | run (fault : PhasedLoad.Fault)
  /-- The run broke down. -/
  | broken (text : String)

namespace Failure

def kind : Failure → FailureKind
  | run .canceled => .canceled
  | run f => if f.isConfiguration then .invalidInput else .runtime
  | broken _ => .runtime
  | _ => .invalidInput

def exitCode (f : Failure) : Nat := f.kind.exitCode

/-- What is said about it, from the outermost to the innermost. -/
def chain : Failure → List String
  | unreadable path fault => ["failed to read plan: " ++ path, fault.message]
  | noPlan path format fault => ("failed to load plan: " ++ path) :: PlanFile.chain format fault
  | run f => f.message :: (f.source?.map TargetFault.message).toList
  | broken text => [text]

def message (f : Failure) : String := ": ".intercalate f.chain

def headline : Failure → String
  | unreadable path _ => "failed to read plan: " ++ path
  | noPlan path _ _ => "failed to load plan: " ++ path
  | run f => f.message
  | broken text => text

end Failure

end PhasedLoad.CommandLine
