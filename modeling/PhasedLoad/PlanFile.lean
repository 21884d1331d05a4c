import PhasedLoad.Plan
import PhasedLoad.Reading.Decode

/-!
Plans in files: a plan is a record of JSON or YAML. Whatever is left out has a default.
-/

namespace PhasedLoad.PlanFile

open Reading

def workerRecord : Record WorkerGroup :=
  { name := "WorkerFile"
    fields :=
      [ .of "instances" (unsigned .unsigned64 (2 ^ 64 - 1)) fun g n => { g with instances := n },
        .of "duration" duration fun g d => { g with duration := d },
        .of "delay" duration fun g d => { g with delay := d },
        .of "timeout" duration fun g d => { g with timeout := d } ]
    start := ⟨0, .zero, .zero, .zero⟩
    strict := false }

def clientRecord (format : Format) : Record (List WorkerGroup) :=
  { name := "ClientFile"
    fields := [.of "workers" (list (workerRecord.decode format)) fun _ gs => gs]
    start := []
    strict := false }

def phaseRecord (format : Format) : Record Phase :=
  { name := "PhaseFile"
    fields :=
      [ .of "name" string fun p s => { p with name := s },
        .of "client" ((clientRecord format).decode format) fun p gs => { p with workers := gs },
        .of "setup" presentPayload fun p v => { p with setup := v },
        .of "workload" presentPayload fun p v => { p with workload := v },
        .of "teardown" presentPayload fun p v => { p with teardown := v },
        .of "repeat" (unsigned .unsigned32 (2 ^ 32 - 1)) fun p n => { p with repeats := n } ]
    start := ⟨"", [], none, none, none, 0⟩
    strict := false }

structure Content where
  pattern : Option String
  phases : List Phase

def contentRecord (format : Format) : Record Content :=
  { name := "PlanFile"
    fields :=
      [ .of "pattern" (optional string) fun c s => { c with pattern := s },
        .of "phases" (list ((phaseRecord format).decode format)) fun c ps =>
          { c with phases := ps } ]
    start := ⟨none, []⟩
    strict := true }

def Content.plan (c : Content) : Plan × Option String :=
  let (pattern, unknown) := Pattern.ofRequest c.pattern
  (⟨pattern, c.phases⟩, unknown)

def contentOf (format : Format) (text : List Char) : Except Reading.Fault Content :=
  match format with
  | .json => do
    let d := Json.Document.read text
    let c ← (contentRecord .json).decode .json (.ofJson Json.depthLimit d.tree)
    if d.ended then return c else .error .malformed
  | .yaml => do
    let d := Yaml.Document.ofText text
    let c ← (contentRecord .yaml).decode .yaml (.ofDocument d)
    if d.complete ∧ d.alone then return c else .error .malformed

/-- The plan in a text of the given format, and the pattern that it asks for if that is not
known. -/
def read (format : Format) (text : String) : Except Reading.Fault (Plan × Option String) :=
  Content.plan <$> contentOf format text.toList

def chain (format : Format) (f : Reading.Fault) : List String :=
  ("invalid " ++ format.name ++ " plan") :: (f.detail format).toList

end PhasedLoad.PlanFile
