import PhasedLoad.Fault
import PhasedLoad.Text.Utf8

/-!
The service under load, as a machine that answers calls: when a call starts, what will come of it
and how long that takes is settled.
-/

namespace PhasedLoad

structure Response where
  status : Nat
  body : List UInt8
deriving DecidableEq

namespace Response

def text (r : Response) : String := Text.utf8Lossy r.body

/-- The target did not take the request. -/
def isRejection (r : Response) : Bool := r.status == 400

def isError (r : Response) : Bool := 400 < r.status

end Response

structure Call where
  body : String
  timeout : Option Duration
deriving DecidableEq

inductive Outcome
  | response (r : Response)
  | failure (f : TargetFault)
  /-- The caller breaks down. -/
  | panic (text : String)
deriving DecidableEq

structure Reply where
  latency : Duration
  /-- The whole run is cancelled just before the outcome. -/
  cancels : Bool
  outcome : Outcome
deriving DecidableEq

namespace Reply

def ofResponse (latency : Duration) (status : Nat) (body : List UInt8) : Reply :=
  ⟨latency, false, .response ⟨status, body⟩⟩

/-- The reply to a caller that waits no longer than `timeout`. -/
def within (r : Reply) (timeout : Option Duration) : Reply :=
  match timeout with
  | none => r
  | some d => if d < r.latency then ⟨d, false, .failure (.timeout d)⟩ else r

theorem within_latency_le (r : Reply) (d : Duration) : (r.within (some d)).latency ≤ d := by
  simp only [within]
  split
  · exact Nat.le_refl _
  · next h => exact Nat.le_of_not_lt h

end Reply

/-- A machine with states `σ` that settles the reply to each call when the call starts. -/
structure Target (σ : Type) where
  post : Call → σ → Reply × σ

namespace Target

def patient {σ : Type} (t : Target σ) : Target σ :=
  ⟨fun call s => ((t.post call s).1.within call.timeout, (t.post call s).2)⟩

/-- No reply takes longer than the caller waits. -/
def Honours {σ : Type} (t : Target σ) : Prop :=
  ∀ call s d, call.timeout = some d → (t.post call s).1.latency ≤ d

theorem honours_patient {σ : Type} (t : Target σ) : t.patient.Honours := by
  intro call s d h
  simp only [patient, h]
  exact Reply.within_latency_le _ _

end Target

end PhasedLoad
