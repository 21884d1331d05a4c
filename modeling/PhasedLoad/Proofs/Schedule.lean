import PhasedLoad.Proofs.Group.Stay
import PhasedLoad.Proofs.TimeBound

/-! The schedule of a phase that nothing cuts short: each group works from the end of the one before
for just as long as it is to, and the last one ends with the budget of the phase. -/

namespace PhasedLoad

def GroupRun.spans (runs : List GroupRun) : Nat := (runs.map (·.duration.nanos)).sum

/-- How long the first `k` groups of a phase work one after the other. -/
def Phase.spanOf (p : Phase) (k : Nat) : Nat :=
  ((p.workers.take k).map (·.duration.nanos)).sum

def Phase.span (p : Phase) : Nat := p.spanOf p.workers.length

namespace GroupRun

variable {run : GroupRun} {runs : List GroupRun}

@[simp] theorem spans_nil : spans [] = 0 := rfl

@[simp] theorem spans_cons : spans (run :: runs) = run.duration.nanos + spans runs := rfl

theorem spans_pos (hne : runs ≠ []) (hpos : ∀ run ∈ runs, 0 < run.duration.nanos) :
    0 < spans runs := by
  cases runs with
  | nil => exact absurd rfl hne
  | cons run runs => exact Nat.add_pos_left (hpos run List.mem_cons_self) _

end GroupRun

theorem History.Spares.mono {who : Caller} {h h' : History} (hs : h'.Spares who)
    (hle : ∀ e ∈ h, e ∈ h') : h.Spares who := by
  intro e he
  obtain ⟨hmem, hwho⟩ := List.mem_filter.mp he
  exact hs e (List.mem_filter.mpr ⟨hle e hmem, hwho⟩)

section

variable {σ : Type} {env : Environment σ} {turns : Nat} {name : String} {stop : Instant}
  {w : World σ} {run : GroupRun} {runs : List GroupRun} {stats : Statistics}
  {outs : List (GroupOutcome σ)} {out : GroupOutcome σ} {work : Part (PhaseEnd × Statistics) σ}

/-- Groups that each work for as long as they are to, up to their deadlines, the next one from the
end of the one before. -/
inductive OnSchedule (env : Environment σ) (turns : Nat) (stop : Instant) :
    List GroupRun → World σ → Statistics → List (GroupOutcome σ) → Prop
  | nil (w : World σ) (stats : Statistics) : OnSchedule env turns stop [] w stats []
  | next {run : GroupRun} {runs : List GroupRun} {w : World σ} {stats : Statistics}
      {out : GroupOutcome σ} {outs : List (GroupOutcome σ)}
      (performed : run.perform env turns (some stop) w stats = some out)
      (ended : out.world.now = w.now + run.duration.nanos)
      (stopped : out.exit = .stopped .deadlineExceeded)
      (rest : OnSchedule env turns stop runs out.world out.stats outs) :
      OnSchedule env turns stop (run :: runs) w stats (out :: outs)

theorem OnSchedule.length_eq (hs : OnSchedule env turns stop runs w stats outs) :
    outs.length = runs.length := by
  induction hs with
  | nil => rfl
  | next _ _ _ _ ih => rw [List.length_cons, List.length_cons, ih]

theorem OnSchedule.instants (hs : OnSchedule env turns stop runs w stats outs) {k : Nat}
    (hrun : runs[k]? = some run) (hout : outs[k]? = some out) :
    ∃ v earlier, run.perform env turns (some stop) v earlier = some out ∧
      v.now = w.now + GroupRun.spans (runs.take k) ∧
      out.world.now = w.now + GroupRun.spans (runs.take (k + 1)) ∧
      out.exit = .stopped .deadlineExceeded := by
  induction hs generalizing k with
  | nil => simp at hrun
  | @next first runs w stats done outs hperform hended hstopped _ ih =>
    cases k with
    | zero =>
      cases hrun
      cases hout
      exact ⟨w, stats, hperform, rfl, hended, hstopped⟩
    | succ k =>
      obtain ⟨v, earlier, hlater, hsince, huntil, hexit⟩ := ih hrun hout
      rw [hended, Nat.add_assoc] at hsince huntil
      exact ⟨v, earlier, hlater, hsince, huntil, hexit⟩

theorem GroupRun.perform_spans (hfits : w.now + run.duration.nanos ≤ stop)
    (hlimit : stop < Instant.limit) (hpos : 0 < run.duration.nanos)
    (h : run.perform env turns (some stop) w stats = some out)
    (hlive : ∀ c ∈ out.world.canceledAt, w.now + run.duration.nanos ≤ c)
    (hspared : ∃ number, run.Has number ∧ out.history.Spares (.worker run.name.group number)) :
    out.world.now = w.now + run.duration.nanos ∧ out.exit = .stopped .deadlineExceeded := by
  obtain ⟨number, hhas, hspared⟩ := hspared
  have hdeadline : w.within (some stop) run.duration = some (w.now + run.duration.nanos) := by
    rw [World.within, Instant.after?, if_pos (Nat.lt_of_le_of_lt hfits hlimit),
      earliest?_some_some, Nat.min_eq_right hfits]
  exact perform_stays hdeadline (Nat.lt_add_of_pos_right hpos) h hlive hhas hspared

/-- The groups of a phase that nothing cuts short keep to the schedule. The phase finds that it has
stopped when the last of them has ended, and only then. -/
theorem Works.onSchedule (hw : Works env turns name (some stop) runs w stats work)
    (hne : runs ≠ []) (hstop : stop = w.now + GroupRun.spans runs) (hlimit : stop < Instant.limit)
    (hpos : ∀ run ∈ runs, 0 < run.duration.nanos)
    (hlive : ∀ c ∈ work.world.canceledAt, stop ≤ c)
    (hspared : ∀ run ∈ runs, ∃ number, run.Has number ∧
      work.history.Spares (.worker run.name.group number)) :
    work.result.1 = .deadlineExceeded ∧ work.world.now = stop ∧
      ∃ outs, OnSchedule env turns stop runs w stats outs ∧ work.history =
        outs.flatMap (·.history) ++ [⟨stop, .logged (.phaseStopped name .deadlineExceeded)⟩] := by
  induction hw with
  | nil => exact absurd rfl hne
  | @stopped run w stats out reason runs hperform hbecause =>
    rw [List.forall_mem_cons] at hpos hspared
    rw [GroupRun.spans_cons, ← Nat.add_assoc] at hstop
    have hfits : w.now + run.duration.nanos ≤ stop := hstop ▸ Nat.le_add_right _ _
    obtain ⟨number, hhas, hspare⟩ := hspared.1
    obtain ⟨hnow, hexit⟩ := GroupRun.perform_spans hfits hlimit hpos.1 hperform
      (fun c hc => Nat.le_trans hfits (hlive c hc))
      ⟨number, hhas, hspare.mono fun e he => List.mem_append_left _ he⟩
    -- Were there another group, the phase would not have stopped.
    have hlast : runs = [] := by
      refine Classical.byContradiction fun hmore => ?_
      have hlater := GroupRun.spans_pos hmore hpos.2
      have hbefore : out.world.now < stop := by
        rw [hnow, hstop]
        exact Nat.lt_add_of_pos_right hlater
      have hnone : out.world.stopReason (some stop) = none :=
        World.stopReason_eq_none_iff.mpr ⟨by simpa using hbefore, fun c hc =>
          Nat.lt_of_lt_of_le hbefore (hlive c hc)⟩
      rw [hnone] at hbecause
      cases hbecause
    subst hlast
    rw [← hnow, GroupRun.spans_nil, Nat.add_zero] at hstop
    have hreason : reason = .deadlineExceeded := by
      simpa [World.stopReason, StopReason.observe, hstop] using hbecause.symm
    subst hreason hstop
    exact ⟨rfl, rfl, [out], .next hperform hnow hexit (.nil _ _), by simp [Part.logged]⟩
  | @next run runs w stats out rest hperform hlater hworks ih =>
    rw [List.forall_mem_cons] at hpos hspared
    rw [GroupRun.spans_cons, ← Nat.add_assoc] at hstop
    have hfits : w.now + run.duration.nanos ≤ stop := hstop ▸ Nat.le_add_right _ _
    have hlive' : ∀ c ∈ out.world.canceledAt, stop ≤ c := by
      intro c hc
      obtain ⟨c', hc', hle⟩ := History.cancellation_le rest.history hc
      rw [← hworks.passage.1.canceledAt] at hc'
      exact Nat.le_trans (hlive c' hc') hle
    obtain ⟨number, hhas, hspare⟩ := hspared.1
    obtain ⟨hnow, hexit⟩ := GroupRun.perform_spans hfits hlimit hpos.1 hperform
      (fun c hc => Nat.le_trans hfits (hlive' c hc))
      ⟨number, hhas, hspare.mono fun e he => List.mem_append_left _ he⟩
    rw [← hnow] at hstop
    have hmore : runs ≠ [] := by
      rintro rfl
      have hbefore := (World.stopReason_eq_none_iff.mp hlater).1 stop rfl
      exact absurd hstop (Nat.ne_of_gt hbefore)
    obtain ⟨hending, hended, outs, houts, hhistory⟩ := ih hmore hstop hpos.2 hlive
      fun run hrun => by
        obtain ⟨number, hhas, hspare⟩ := hspared.2 run hrun
        exact ⟨number, hhas, hspare.mono fun e he => List.mem_append_right _ he⟩
    refine ⟨hending, hended, out :: outs, .next hperform hnow hexit houts, ?_⟩
    rw [hhistory, List.flatMap_cons, List.append_assoc]

end

theorem Budget.phase_eq_span {b : Budget} {plan : Plan} {repeats : Repeats} {limits : Limits}
    (hb : b = ofPlan none plan repeats limits) {i : Nat} {p : Phase} (hp : plan.phases[i]? = some p)
    (hpos : 0 < limits.minPhase.nanos) (hleast : ∀ g ∈ p.workers, limits.minPhase ≤ g.duration)
    (hne : p.workers ≠ []) (hfits : p.span ≤ limits.maxPhase.nanos) :
    (b.phase i).nanos = p.span := by
  have heffective : p.workers.map (·.effectiveDuration limits) = p.workers.map (·.duration) := by
    refine List.map_congr_left fun g hg => ?_
    have hset := Nat.lt_of_lt_of_le hpos (hleast g hg)
    simp [WorkerGroup.effectiveDuration, Duration.isZero, Nat.ne_of_gt hset]
  have hspan : p.span = ((p.workers.map (·.duration)).map (·.nanos)).sum := by
    rw [Phase.span, Phase.spanOf, List.take_length, List.map_map]
    rfl
  have hwork : (workOf limits p).nanos = p.span := by
    have hlt := limits.maxPhase.lt
    rw [workOf, heffective, Duration.sum_nanos, ← hspan, Duration.limit]
    omega
  have hmin : limits.minPhase ≤ workOf limits p := by
    rw [Duration.le_def, hwork, hspan]
    obtain ⟨g, gs, hg⟩ := List.exists_cons_of_ne_nil hne
    rw [hg] at hleast ⊢
    exact Nat.le_trans (hleast g List.mem_cons_self) (Nat.le_add_right _ _)
  have hphase : b.phase i = limits.clamp (workOf limits p) := by
    rw [hb]
    simp [phase, ofPlan, hp]
  rw [hphase, Limits.clamp_eq_self hmin (Duration.le_def.mpr (hwork ▸ hfits)), hwork]

namespace Campaign

variable {σ : Type} {env : Environment σ} {turns : Nat} {c : Campaign} {i number : Nat}
  {outer : Option Instant} {w after : World σ} {result : ExecutionResult} {x : Execution} {p : Phase}
  {plan : Plan} {settings : RunSettings} {events : List LogEvent}

theorem groups_eq (hp : c.plan.phases[i]? = some p) :
    c.groups i = p.workers.mapIdx (c.groupRun p (c.requests i).workload) := by
  rw [groups, List.getD_eq_getElem?_getD, hp, Option.getD_some]

theorem mem_groups (hp : c.plan.phases[i]? = some p) {run : GroupRun} (hrun : run ∈ c.groups i) :
    ∃ g ∈ p.workers, run.instances = g.instances ∧ run.duration = g.duration ∧
      run.delay = g.delay := by
  rw [groups_eq hp] at hrun
  obtain ⟨k, hk, rfl⟩ := List.mem_mapIdx.mp hrun
  exact ⟨_, List.getElem_mem hk, rfl, rfl, rfl⟩

theorem length_groups (hp : c.plan.phases[i]? = some p) :
    (c.groups i).length = p.workers.length := by
  rw [groups_eq hp, List.length_mapIdx]

theorem map_groups {α : Type} (hp : c.plan.phases[i]? = some p) {f : GroupRun → α}
    (f' : WorkerGroup → α) (h : ∀ body k g, f (c.groupRun p body k g) = f' g) :
    (c.groups i).map f = p.workers.map f' := by
  rw [groups_eq hp]
  refine List.ext_getElem? fun j => ?_
  simp only [List.getElem?_map, List.getElem?_mapIdx, Option.map_map]
  congr 1
  funext g
  exact h _ j g

theorem spans_take_groups (hp : c.plan.phases[i]? = some p) (k : Nat) :
    GroupRun.spans ((c.groups i).take k) = p.spanOf k := by
  rw [GroupRun.spans, List.map_take, map_groups hp (·.duration.nanos) fun _ _ _ => rfl,
    ← List.map_take]
  rfl

theorem spans_groups (hp : c.plan.phases[i]? = some p) :
    GroupRun.spans (c.groups i) = p.span := by
  rw [Phase.span, ← spans_take_groups hp, ← length_groups hp, List.take_length]

theorem groups_pos (hprepare : prepare plan settings = (events, .ok c))
    (hp : c.plan.phases[i]? = some p) : ∀ run ∈ c.groups i, 0 < run.duration.nanos := by
  intro run hrun
  obtain ⟨g, hg, -, hduration, -⟩ := mem_groups hp hrun
  have hmin := (ready_of_prepare hprepare).minPhase_pos
  rw [settings_of_prepare hprepare] at hmin
  rw [hduration]
  exact Nat.lt_of_lt_of_le hmin (bounds_of_prepare hprepare hp g hg).1

theorem setup_eq_none (hp : c.plan.phases[i]? = some p) (hsetup : p.setup = none) :
    (c.requests i).setup = none := by
  simp [requests, Requests.ofPhase, List.getD_eq_getElem?_getD, hp, hsetup]

theorem phase_eq_span (hprepare : prepare plan settings = (events, .ok c))
    (hruntime : settings.runtime = none) (hp : c.plan.phases[i]? = some p) (hne : p.workers ≠ [])
    (hfits : p.span ≤ settings.limits.maxPhase.nanos) : (c.budget.phase i).nanos = p.span := by
  have hmin := (ready_of_prepare hprepare).minPhase_pos
  have hbudget := (ready_of_prepare hprepare).budget_eq
  rw [settings_of_prepare hprepare] at hmin hbudget
  rw [hruntime] at hbudget
  exact Budget.phase_eq_span hbudget hp hmin
    (fun g hg => (bounds_of_prepare hprepare hp g hg).1) hne hfits

theorem phaseDeadline_eq (hlimit : w.now + (c.budget.phase i).nanos < Instant.limit)
    (houter : ∀ d ∈ outer, w.now + (c.budget.phase i).nanos ≤ d) :
    c.phaseDeadline i outer w = some (w.now + (c.budget.phase i).nanos) := by
  rw [phaseDeadline, World.within, Instant.after?, if_pos hlimit]
  cases outer with
  | none => rfl
  | some d => rw [earliest?_some_some, Nat.min_eq_right (houter d rfl)]

theorem schedule_of_execute (hp : c.plan.phases[i]? = some p) (hne : p.workers ≠ [])
    (hpos : ∀ run ∈ c.groups i, 0 < run.duration.nanos) (hsetup : p.setup = none)
    (hdeadline : c.phaseDeadline i outer w = some (w.now + p.span))
    (hlimit : w.now + p.span < Instant.limit)
    (hlive : w.stopReason (c.phaseDeadline i outer w) = none)
    (h : c.execute env turns i number outer w = some (result, after))
    (hx : result.execution? = some x) (hcanceled : ∀ t ∈ after.canceledAt, w.now + p.span ≤ t)
    (hspared : ∀ run ∈ c.groups i, ∃ number, run.Has number ∧
      x.work.Spares (.worker run.name.group number)) :
    x.started = w.now ∧ x.summary.ending = .deadlineExceeded ∧
      x.summary.elapsed = .ofNanos p.span ∧
      ∃ outs, outs.length = p.workers.length ∧
        OnSchedule env turns (w.now + p.span) (c.groups i) w .empty outs ∧
        x.work = outs.flatMap (·.history) ++
          [⟨w.now + p.span, .logged (.phaseStopped p.name .deadlineExceeded)⟩] := by
  have hgroups : c.groups i ≠ [] := List.ne_nil_of_length_pos (by
    rw [length_groups hp]
    exact List.length_pos_iff.mpr hne)
  obtain ⟨work, hworks, hexecution, rfl⟩ := works_of_execute hlive (setup_eq_none hp hsetup) h
  rw [hx] at hexecution
  cases hexecution
  have hlater : ∀ t ∈ work.world.canceledAt, w.now + p.span ≤ t := by
    intro t ht
    obtain ⟨s, hs, hle⟩ := History.cancellation_le
      (tearDown env i (c.requests i).teardown work.world).history ht
    rw [← tearDown_passage.canceledAt] at hs
    exact Nat.le_trans (hcanceled s hs) hle
  have hname : (c.plan.phases.getD i default).name = p.name := by
    rw [List.getD_eq_getElem?_getD, hp, Option.getD_some]
  rw [hdeadline, hname] at hworks
  obtain ⟨hending, hnow, outs, houts, hhistory⟩ :=
    hworks.onSchedule hgroups (by rw [spans_groups hp]) hlimit hpos hlater hspared
  have helapsed : Instant.elapsed w.now work.world.now = .ofNanos p.span := by
    rw [hnow, Instant.elapsed, Nat.add_sub_cancel_left]
  exact ⟨rfl, hending, helapsed, outs, houts.length_eq.trans (length_groups hp), houts, hhistory⟩

/-- Without a runtime, an execution of a phase may take as long as its groups work, if that keeps to
the bounds of a phase. If nothing cuts it short, and each group has a worker that nothing ends, each
group works from the end of the one before for just as long as it is to; every group stops at its
deadline, and the last one with the phase. -/
theorem execute_keeps_schedule (hprepare : prepare plan settings = (events, .ok c))
    (hruntime : settings.runtime = none) (hp : c.plan.phases[i]? = some p) (hne : p.workers ≠ [])
    (hsetup : p.setup = none) (hfits : p.span ≤ settings.limits.maxPhase.nanos)
    (hlive : w.stopReason outer = none) (houter : ∀ d ∈ outer, w.now + p.span ≤ d)
    (hlimit : w.now + p.span < Instant.limit) (number : Nat) (env : Environment σ) :
    (c.budget.phase i).nanos = p.span ∧
    ((∀ run ∈ c.groups i, run.TakesTime env) →
      ∃ enough, ∀ turns, enough ≤ turns → ∃ result after x,
        c.execute env turns i number outer w = some (result, after) ∧
          result.execution? = some x) ∧
    ∀ turns result after x, c.execute env turns i number outer w = some (result, after) →
      result.execution? = some x → (∀ t ∈ after.canceledAt, w.now + p.span ≤ t) →
      (∀ run ∈ c.groups i, ∃ number, run.Has number ∧
        x.work.Spares (.worker run.name.group number)) →
      x.started = w.now ∧ x.summary.ending = .deadlineExceeded ∧
        x.summary.elapsed = c.budget.phase i ∧
        ∃ outs, outs.length = p.workers.length ∧
          OnSchedule env turns (w.now + p.span) (c.groups i) w .empty outs ∧
          x.work = outs.flatMap (·.history) ++
            [⟨w.now + p.span, .logged (.phaseStopped p.name .deadlineExceeded)⟩] ∧
          ∀ k run out, (c.groups i)[k]? = some run → outs[k]? = some out →
            ∃ v stats, run.perform env turns (some (w.now + p.span)) v stats = some out ∧
              v.now = w.now + p.spanOf k ∧ out.world.now = w.now + p.spanOf (k + 1) ∧
              out.exit = .stopped .deadlineExceeded := by
  have hphase := phase_eq_span hprepare hruntime hp hne hfits
  have hdeadline : c.phaseDeadline i outer w = some (w.now + p.span) := by
    rw [← hphase] at hlimit houter ⊢
    exact phaseDeadline_eq hlimit houter
  have hstarts : w.stopReason (c.phaseDeadline i outer w) = none := by
    rw [hdeadline]
    refine World.stopReason_eq_none_iff.mpr ⟨?_, (World.stopReason_eq_none_iff.mp hlive).2⟩
    intro d hd
    cases hd
    rw [← hphase]
    exact Nat.lt_add_of_pos_right ((ready_of_prepare hprepare).phase_pos i)
  refine ⟨hphase, fun htime => ?_, fun turns result after x h hx hcanceled hspared => ?_⟩
  · refine ⟨c.enoughTurns, fun turns hturns => ?_⟩
    have hi : i < c.phaseCount := (List.getElem?_eq_some_iff.mp hp).1
    obtain ⟨⟨result, after⟩, h⟩ : ∃ r, c.execute env turns i number outer w = some r :=
      exists_execute hstarts (by rwa [hphase]) htime fun run hrun =>
        Nat.le_trans (le_enoughTurns hi hrun) hturns
    obtain ⟨work, -, hx, -⟩ := works_of_execute hstarts (setup_eq_none hp hsetup) h
    exact ⟨result, after, _, h, hx⟩
  · obtain ⟨hstarted, hending, helapsed, outs, hlength, houts, hhistory⟩ :=
      schedule_of_execute hp hne (groups_pos hprepare hp) hsetup hdeadline hlimit hstarts h hx
        hcanceled hspared
    rw [← hphase, Duration.ofNanos_self] at helapsed
    refine ⟨hstarted, hending, helapsed, outs, hlength, houts, hhistory, ?_⟩
    intro k run out hrun hout
    rw [← spans_take_groups hp, ← spans_take_groups hp]
    exact houts.instants hrun hout

/-- Two groups one after the other, for 60 s and for 90 s. -/
def relayPhase : Phase :=
  { name := "relay"
    workers := [⟨1, .ofSecs 60, .ofSecs 25, .ofSecs 1⟩, ⟨2, .ofSecs 90, .ofSecs 40, .ofSecs 1⟩]
    setup := none, workload := none, teardown := none, repeats := 1 }

def relay : Campaign :=
  match prepare ⟨.sequence, [relayPhase]⟩ .standard with
  | (_, .ok c) => c
  | (_, .error _) =>
    ⟨⟨.sequence, [relayPhase]⟩, .standard, .uniform 1,
      .ofPlan none ⟨.sequence, [relayPhase]⟩ (.uniform 1) .standard⟩

theorem prepare_relay :
    ∃ events, prepare ⟨.sequence, [relayPhase]⟩ .standard = (events, .ok relay) := ⟨_, rfl⟩

def idle : World Target.Script := .start (.ofRules []) none

/-- The second group of the relay works from 60 s to 150 s, when its phase stops. -/
theorem relay_keeps_schedule :
    (∃ events, prepare ⟨.sequence, [relayPhase]⟩ .standard = (events, .ok relay)) ∧
    relay.plan.phases[0]? = some relayPhase ∧ relayPhase.span = 150000000000 ∧
    idle.stopReason none = none ∧ relay.budget.phase 0 = .ofSecs 150 ∧
    ∃ result after x outs,
      relay.execute (.orderly Target.scripted) 100 0 1 none idle = some (result, after) ∧
      result.execution? = some x ∧ x.summary.ending = .deadlineExceeded ∧
      x.summary.elapsed = .ofSecs 150 ∧
      OnSchedule (.orderly Target.scripted) 100 150000000000 (relay.groups 0) idle .empty outs ∧
      outs.map (·.world.now) = [60000000000, 150000000000] := by
  obtain ⟨events, hprepare⟩ := prepare_relay
  have hp : relay.plan.phases[0]? = some relayPhase := rfl
  have hlive : idle.stopReason none = none := rfl
  obtain ⟨-, -, hkeeps⟩ := execute_keeps_schedule hprepare rfl hp (by decide) rfl (by decide) hlive
    (by simp) (by decide) 1 (.orderly Target.scripted)
  have hcheck : (relay.execute (.orderly Target.scripted) 100 0 1 none idle).map
      (fun r => (r.1.execution?.map fun x => x.work.all fun e => !e.event.isFatal,
        r.2.canceledAt)) = some (some true, none) := by decide +kernel
  obtain ⟨⟨result, after⟩, hexecute, hr⟩ := Option.map_eq_some_iff.mp hcheck
  obtain ⟨hwork, hcanceled⟩ := Prod.mk.inj hr
  obtain ⟨x, hx, hmild⟩ := Option.map_eq_some_iff.mp hwork
  have hspares : ∀ who, x.work.Spares who := by
    intro who e he
    simpa using List.all_eq_true.mp hmild e (List.mem_filter.mp he).1
  have hhas : ∀ run ∈ relay.groups 0, 1 ≤ run.instances := by decide +kernel
  have hlater : ∀ t ∈ after.canceledAt, idle.now + relayPhase.span ≤ t := by
    have hnone : after.canceledAt = none := hcanceled
    simp [hnone]
  obtain ⟨-, hending, helapsed, outs, hlength, houts, -, hinstants⟩ :=
    hkeeps 100 result after x hexecute hx hlater fun run hrun =>
      ⟨1, ⟨Nat.le_refl 1, hhas run hrun⟩, hspares _⟩
  obtain ⟨first, second, rfl⟩ : ∃ first second, outs = [first, second] := by
    match outs, hlength with
    | [first, second], _ => exact ⟨first, second, rfl⟩
  obtain ⟨-, -, -, -, hfirst, -⟩ := hinstants 0 _ first rfl rfl
  obtain ⟨-, -, -, -, hsecond, -⟩ := hinstants 1 _ second rfl rfl
  have hends : [first, second].map (·.world.now) = [60000000000, 150000000000] := by
    rw [List.map_cons, List.map_cons, List.map_nil, hfirst, hsecond]
    rfl
  exact ⟨⟨events, hprepare⟩, hp, rfl, hlive, rfl, result, after, x, [first, second], hexecute, hx,
    hending, helapsed, houts, hends⟩

end Campaign

end PhasedLoad
