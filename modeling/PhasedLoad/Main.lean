import PhasedLoad.CommandLine.Perform

/-!
The command line. A run is played on a clock of its own, with nothing listening where it goes.
-/

open PhasedLoad CommandLine

def readPlan (path : String) : IO (Except FileFault String) := do
  try
    let bytes ← IO.FS.readBinFile path
    match Text.utf8? bytes.data.toList with
    | some cs => return .ok (String.ofList cs)
    | none => return .error .notText
  catch e =>
    match e with
    | .inappropriateType .. => return .error .isFolder
    | _ => return .error .missing

/-- Turns enough for every group that ends. -/
def turns : Nat := 1000000000

def around : Surroundings := ⟨⟨none, .seeded 0, turns⟩, .plain, none⟩

def finish (r : Result) : IO UInt32 := do
  for event in r.log do
    IO.eprintln event.line.text
  IO.print r.stdout
  match r.failure with
  | some f => IO.eprintln f.message
  | none => pure ()
  return r.exitCode.toUInt32

def main (words : List String) : IO UInt32 := do
  match Command.ofWords words with
  | .error r => return r.exitCode.toUInt32
  | .ok command =>
    let source ← readPlan command.path
    match command.perform around source with
    | some r => finish r
    | none => return 1
