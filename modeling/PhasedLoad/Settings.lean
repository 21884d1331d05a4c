import PhasedLoad.Fault
import PhasedLoad.Pattern

/-!
What a run is asked to keep to, beside its plan.
-/

namespace PhasedLoad

structure Limits where
  minPhase : Duration
  maxPhase : Duration
  maxRepeats : Nat
deriving DecidableEq

namespace Limits

/-- From a minute to 28 days, and up to 500 times. -/
def standard : Limits := ⟨.ofSecs 60, .ofSecs (28 * 86400), 500⟩

instance : Inhabited Limits := ⟨standard⟩

def clamp (l : Limits) (d : Duration) : Duration := (d.max l.minPhase).min l.maxPhase

theorem minPhase_le_clamp {l : Limits} (h : l.minPhase ≤ l.maxPhase) (d : Duration) :
    l.minPhase ≤ l.clamp d := by
  simp only [clamp, Duration.le_def, Duration.min_nanos, Duration.max_nanos] at h ⊢; omega

def validate (l : Limits) : Except Fault Unit :=
  if l.minPhase.isZero ∨ l.maxPhase < l.minPhase then .error (.invalidBounds l.minPhase l.maxPhase)
  else if l.maxRepeats = 0 then .error (.invalidRepeats 0)
  else .ok ()

end Limits

inductive RepeatsOverride
  | fromPlan
  | unlimited
  | fixed (n : Nat)
deriving DecidableEq

namespace RepeatsOverride

instance : Inhabited RepeatsOverride := ⟨fromPlan⟩

/-- One number for all three: `-1` keeps the plan's repeats, `0` sets no limit. -/
def ofFlag (value : Int) (limits : Limits) : Except Fault RepeatsOverride :=
  if value = -1 then .ok fromPlan
  else if value = 0 then .ok unlimited
  else if 0 < value ∧ value ≤ limits.maxRepeats then .ok (fixed value.toNat)
  else .error (.invalidRepeats value)

end RepeatsOverride

structure RunSettings where
  limits : Limits
  /-- How long the whole run should take. -/
  runtime : Option Duration
  repeats : RepeatsOverride
  pattern : Option Pattern
  /-- How often workers report. -/
  reportInterval : Duration
  /-- When the run is stopped at the latest. -/
  runTimeout : Option Duration

namespace RunSettings

def standardReportInterval : Duration := .ofSecs 10

def standard : RunSettings := ⟨.standard, none, .fromPlan, none, standardReportInterval, none⟩

def minRuntime : Duration := .ofSecs 1
def maxRuntime : Duration := .ofSecs (28 * 86400)

def validate (s : RunSettings) : Except Fault Unit := do
  s.limits.validate
  match s.runtime with
  | some d => if d < minRuntime ∨ maxRuntime < d then
      throw (.runtimeOutOfRange d minRuntime maxRuntime)
  | none => pure ()
  match s.repeats with
  | .fixed n => if n = 0 ∨ s.limits.maxRepeats < n then throw (.invalidRepeats n)
  | _ => pure ()
  if s.reportInterval.isZero then throw .invalidReportInterval

end RunSettings

end PhasedLoad
