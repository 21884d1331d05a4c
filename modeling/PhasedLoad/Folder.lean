import PhasedLoad.Text.Split
import PhasedLoad.Text.Utf8

/-!
Files in a folder, and why one cannot be read as text.
-/

namespace PhasedLoad

inductive FileFault
  | missing
  /-- What stands there is a folder. -/
  | isFolder
  /-- The path goes on after a file. -/
  | noFolder
  | longName
  /-- The path has a character that no name has. -/
  | noName
  | notText
deriving DecidableEq

def FileFault.message : FileFault → String
  | .missing => "No such file or directory (os error 2)"
  | .isFolder => "Is a directory (os error 21)"
  | .noFolder => "Not a directory (os error 20)"
  | .longName => "File name too long (os error 36)"
  | .noName => "file name contained an unexpected NUL byte"
  | .notText => "stream did not contain valid UTF-8"

namespace Path

/-- The names along a path; empty ones and single points do not count. -/
def names (path : String) : List (List Char) :=
  (Text.splitAll '/' path.toList).filter fun n => n ≠ [] ∧ n ≠ ['.']

def wantsFolder (path : String) : Bool :=
  match (Text.splitAll '/' path.toList).getLast? with
  | some n => n = [] || n = ['.']
  | none => false

/-- What stands behind the last point of the last name, unless that is its first character. -/
def extension? (path : String) : Option (List Char) :=
  match (names path).getLast?.bind (Text.cutLast? '.') with
  | some (_ :: _, ext) => some ext
  | _ => none

end Path

abbrev Folder := List (String × List UInt8)

namespace Folder

def maxNameBytes : Nat := 255

def bytes (f : Folder) (path : String) : Except FileFault (List UInt8) :=
  let place := Path.names path
  if path.toList.any (·.toNat = 0) then .error .noName
  else if place.any fun n => (String.ofList n).utf8ByteSize > maxNameBytes then .error .longName
  else if path.toList.head? = some '/' then .error .missing
  else match f.find? fun file => Path.names file.1 = place with
    | some file => if Path.wantsFolder path then .error .noFolder else .ok file.2
    | none =>
      if f.any fun file => (Path.names file.1).isPrefixOf place then .error .noFolder
      else if place = [] ∨ f.any (fun file => place.isPrefixOf (Path.names file.1)) then
        .error .isFolder
      else .error .missing

def text (f : Folder) (path : String) : Except FileFault String := do
  match Text.utf8? (← f.bytes path) with
  | some cs => return String.ofList cs
  | none => throw .notText

end Folder

end PhasedLoad
