import PhasedLoad.Campaign

/-! Why a plan is not run: whatever is wrong before a run, the plan or the settings are at fault. -/

namespace PhasedLoad

/-- Whatever is wrong, the plan or the settings are at fault. -/
def Fault.Configures {α : Type} (e : Except Fault α) : Prop :=
  ∀ f, e = .error f → f.isConfiguration = true

namespace Fault.Configures

variable {α β : Type} {e : Except Fault α} {k : α → Except Fault β}

theorem ok (a : α) : Configures (.ok a) := nofun

theorem error {f : Fault} (h : f.isConfiguration = true) : Configures (α := α) (.error f) := by
  intro g hg
  cases hg
  exact h

theorem bind (he : Configures e) (hk : ∀ a, Configures (k a)) : Configures (e >>= k) := by
  cases e with
  | ok a => exact hk a
  | error f => exact error (he f rfl)

end Fault.Configures

open Fault (Configures)

theorem RepeatsOverride.configures_ofFlag (value : Int) (limits : Limits) :
    Configures (ofFlag value limits) := by
  unfold ofFlag
  split
  · exact .ok _
  split
  · exact .ok _
  split
  · exact .ok _
  · exact .error rfl

theorem Limits.configures_validate (l : Limits) : Configures l.validate := by
  unfold validate
  split
  · exact .error rfl
  split
  · exact .error rfl
  · exact .ok _

theorem RunSettings.configures_validate (s : RunSettings) : Configures s.validate := by
  have hinterval : Configures
      (if s.reportInterval.isZero then throw .invalidReportInterval else pure ()) := by
    split
    · exact .error rfl
    · exact .ok _
  refine .bind s.limits.configures_validate fun _ => ?_
  dsimp only
  split
  · split
    · exact .error rfl
    · split
      · split
        · exact .error rfl
        · exact hinterval
      · exact hinterval
  · split
    · split
      · exact .error rfl
      · exact hinterval
    · exact hinterval

theorem WorkerGroup.configures_normalize (limits : Limits) (phase worker : Nat) (g : WorkerGroup) :
    Configures (g.normalize limits phase worker) := by
  unfold normalize
  split
  · exact .error rfl
  · dsimp only
    split
    · exact .error rfl
    · exact .ok _

theorem WorkerGroup.configures_normalizeAll (limits : Limits) (phase worker : Nat)
    (gs : List WorkerGroup) : Configures (normalizeAll limits phase worker gs) := by
  induction gs generalizing worker with
  | nil => exact .ok _
  | cons g gs ih =>
    exact .bind (configures_normalize limits phase worker g) fun _ => .bind (ih _) fun _ => .ok _

theorem Phase.configures_normalizeAll (limits : Limits) (place : Nat) (ps : List Phase) :
    Configures (normalizeAll limits place ps) := by
  induction ps generalizing place with
  | nil => exact .ok _
  | cons p ps ih =>
    refine .bind (.bind (WorkerGroup.configures_normalizeAll limits place 1 p.workers) fun _ => .ok _)
      fun _ => .bind (ih _) fun _ => .ok _

theorem Plan.configures_normalize (plan : Plan) (limits : Limits) :
    Configures (plan.normalize limits) := by
  unfold normalize
  dsimp only
  split
  · exact .error rfl
  · exact .bind (Phase.configures_normalizeAll limits 1 plan.phases) fun _ => .ok _

theorem Campaign.refusal_of_prepare {plan : Plan} {settings : RunSettings} {events : List LogEvent}
    {f : Fault} (h : prepare plan settings = (events, .error f)) : f.isConfiguration = true := by
  unfold prepare at h
  split at h
  · next hvalid =>
    cases h
    exact settings.configures_validate f hvalid
  · dsimp only at h
    split at h
    · next hnormal =>
      cases h
      exact Plan.configures_normalize _ _ f hnormal
    · cases h

end PhasedLoad
