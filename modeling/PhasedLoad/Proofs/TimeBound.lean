import PhasedLoad.Proofs.Allowance
import PhasedLoad.Proofs.Execution.Deadline
import PhasedLoad.Proofs.Lifecycle

/-! How long a run takes: every execution keeps to its budget, so that a run whose workers take
their time comes to its end, within the budget of its plan and the time of its teardowns. -/

namespace PhasedLoad

namespace Campaign

variable {σ : Type} {env : Environment σ} {turns : Nat} {c : Campaign} {i : Nat}
  {outer deadline : Option Instant} {w after : World σ} {selector : Selector} {plan : Plan}
  {settings : RunSettings} {events : List LogEvent} {s t : RunState σ} {x : Execution}

open RunState

/-- What one execution of phase `i` may take, with its teardown. -/
def allowance (c : Campaign) (i : Nat) : Nat := (c.budget.phase i).nanos + standardTimeout.nanos

def enoughTurns (c : Campaign) : Nat :=
  ((List.range c.phaseCount).flatMap fun i => (c.groups i).map fun run =>
    run.instances * (2 * (c.budget.phase i).nanos)).foldr max 0

theorem le_enoughTurns (hi : i < c.phaseCount) {run : GroupRun} (hrun : run ∈ c.groups i) :
    run.instances * (2 * (c.budget.phase i).nanos) ≤ c.enoughTurns :=
  List.le_max_of_le' 0 (List.mem_flatMap.mpr
    ⟨i, List.mem_range.mpr hi, List.mem_map_of_mem (f := fun run : GroupRun =>
      run.instances * (2 * (c.budget.phase i).nanos)) hrun⟩) (Nat.le_refl _)

structure Kept (c : Campaign) (w : World σ) (s : RunState σ) : Prop where
  length : s.executions.length = c.phaseCount
  within : c.repeats.Within s.executions
  now : s.world.now ≤ w.now + s.executions.spent c.allowance

theorem kept_start (c : Campaign) (selector : Selector) (w : World σ) :
    c.Kept w (start c selector w) where
  length := List.length_replicate
  within := Repeats.within_replicate _ _
  now := Nat.le_add_right _ _

theorem Kept.record (hs : c.Kept w s) (hdue : Due c s) (hc : c.Ready)
    (hhonours : env.target.Honours) (hstarts : s.Starts c deadline s.current)
    (hrange : c.InRange s.current s.world.now)
    (h : c.execute env turns s.current (s.executions.getD s.current 0 + 1) deadline s.world =
      some (.done x, after)) : c.Kept w (s.record s.current x s.selector after) where
  length := by simpa [RunState.record, Executions.record] using hs.length
  within := hs.within.record hdue.due
  now := by
    have hnow := (execute_keeps (hc.live_of_starts hstarts) hrange hhonours h).2.1
    have hspent := Executions.spent_record (f := c.allowance)
      (Repeats.lt_length_of_hasBudget hdue.due)
    have hbefore := hs.now
    have hallowance : c.allowance s.current =
      (c.budget.phase s.current).nanos + standardTimeout.nanos := rfl
    simp only [RunState.record]
    rw [hspent, hallowance]
    exact Nat.le_trans hnow (by grind)

theorem Kept.turn (hs : c.Kept w s) :
    (∀ t, s.turn c = .next t → c.Kept w t) ∧ ∀ t, s.turn c = .last .completed t → c.Kept w t := by
  obtain ⟨current, selector, hturn⟩ | ⟨selector, hturn⟩ := turn_cases c s
  · rw [hturn]
    refine ⟨fun t ht => ?_, fun t ht => (by cases ht)⟩
    cases ht
    exact ⟨hs.length, hs.within, hs.now⟩
  · rw [hturn]
    refine ⟨fun t ht => (by cases ht), fun t ht => ?_⟩
    cases ht
    exact ⟨hs.length, hs.within, hs.now⟩

def StaysInRange (env : Environment σ) (turns : Nat) (c : Campaign) (selector : Selector)
    (outer : Option Instant) (w : World σ) : Prop :=
  ∀ s i, Reaches env turns c (c.deadline outer w) (start c selector w) s →
    s.Starts c (c.deadline outer w) i → c.InRange i s.world.now

theorem Ready.kept_next (hc : c.Ready) (hhonours : env.target.Honours) (hs : c.Kept w s)
    (hdue : Due c s) (hrange : s.Starts c deadline s.current → c.InRange s.current s.world.now)
    (hround : s.round env turns c deadline = some (.next t)) : c.Kept w t := by
  generalize hr : Round.next t = r at hround
  cases hdue.proceeds hround with
  | turned hstarts hexecute _ =>
    exact (hs.record hdue hc hhonours hstarts (hrange hstarts) hexecute).turn.1 t hr.symm
  | _ => cases hr

theorem Ready.kept_last (hc : c.Ready) (hhonours : env.target.Honours) (hs : c.Kept w s)
    (hdue : Due c s) (hrange : s.Starts c deadline s.current → c.InRange s.current s.world.now)
    {conclusion : Conclusion} (hround : s.round env turns c deadline = some (.last conclusion t))
    (hreturns : ∀ text h, conclusion ≠ .panicked text h) : c.Kept w t := by
  generalize hr : Round.last conclusion t = r at hround
  cases hdue.proceeds hround with
  | canceled => cases hr; exact hs
  | timedOut => cases hr; exact hs
  | panicked => cases hr; exact absurd rfl (hreturns _ _)
  | concluded hstarts hexecute _ =>
    cases hr
    exact hs.record hdue hc hhonours hstarts (hrange hstarts) hexecute
  | turned hstarts hexecute _ =>
    have hkept := hs.record hdue hc hhonours hstarts (hrange hstarts) hexecute
    obtain ⟨current, selector, hturn⟩ | ⟨selector, hturn⟩ := turn_cases c _
    · rw [hturn] at hr
      cases hr
    · rw [hturn] at hr
      cases hr
      exact hkept.turn.2 _ hturn

theorem Ready.kept (hc : c.Ready) (hhonours : env.target.Honours)
    (hrange : ∀ s, Reaches env turns c deadline (start c selector w) s → c.Kept w s →
      s.Starts c deadline s.current → c.InRange s.current s.world.now)
    (hs : Reaches env turns c deadline (start c selector w) s) : c.Kept w s := by
  induction hs with
  | refl => exact kept_start c selector w
  | next hs hround ih =>
    exact hc.kept_next hhonours ih ((due_start hc selector w).reaches hs) (hrange _ hs ih) hround

/-- What the executions of a run may take together, with their teardowns. -/
def longest (c : Campaign) : Nat :=
  ((List.range c.phaseCount).map fun i => c.repeats.count i * c.allowance i).sum

theorem Ready.staysInRange (hc : c.Ready) (hhonours : env.target.Honours)
    (h : w.now + c.longest < Instant.limit) (turns : Nat) (selector : Selector)
    (outer : Option Instant) : StaysInRange env turns c selector outer w := by
  have hrange : ∀ s, Reaches env turns c (c.deadline outer w) (start c selector w) s →
      c.Kept w s → c.InRange s.current s.world.now := by
    intro s hs hkept
    have hdue := (due_start hc selector w).reaches hs
    have hlength : (s.executions.record s.current).length = c.phaseCount := by
      simpa [Executions.record] using hkept.length
    have hrecord := Executions.spent_record (f := c.allowance)
      (Repeats.lt_length_of_hasBudget hdue.due)
    have hall := Executions.spent_le_of_within (f := c.allowance) (hkept.within.record hdue.due)
    have hnow := hkept.now
    have hallowance : c.allowance s.current =
      (c.budget.phase s.current).nanos + standardTimeout.nanos := rfl
    rw [hlength, hrecord, hallowance] at hall
    have hlimit : s.world.now + ((c.budget.phase s.current).nanos + standardTimeout.nanos) <
        Instant.limit := by
      rw [longest] at h
      grind
    constructor
    · grind
    · grind
  intro s i hs hi
  have hdue := (due_start hc selector w).reaches hs
  have hpick := hi.2
  rw [hdue.pick_eq] at hpick
  cases hpick
  exact hrange s hs (hc.kept hhonours (fun s hs hkept _ => hrange s hs hkept) hs)

theorem elapsed_of_conclude {started : Instant} {conclusion : Conclusion} {report : RunReport}
    (h : (c.conclude started s conclusion).1 = .finished report) :
    report.elapsed = Instant.elapsed started s.world.now := by
  cases conclusion with
  | completed => cases h; rfl
  | timedOut => cases h; rfl
  | canceled => cases h
  | setupFailed i f => cases h
  | panicked text history => cases h

theorem Ready.elapsed_le (hc : c.Ready) (hhonours : env.target.Honours)
    (hrange : StaysInRange env turns c selector outer w) {o : RunOutcome σ}
    (h : c.run env turns selector outer w = some o) {report : RunReport}
    (hreport : o.ending = .finished report)
    (hfits : c.budget.adjusted ≠ none →
      c.settings.limits.minPhase.nanos * c.budget.executions < 2 ^ 64) :
    report.elapsed.nanos ≤ c.budget.total.nanos + report.total * standardTimeout.nanos ∧
      report.total ≤ c.budget.executions := by
  obtain ⟨s, conclusion, t, hs, hlast, rfl⟩ := run_eq_some h
  obtain ⟨-, htotal, hconclusion⟩ := conclude_eq_finished hreport
  have hreturns : ∀ text h, conclusion ≠ .panicked text h := by
    obtain ⟨rfl, -⟩ | ⟨rfl, -⟩ := hconclusion <;> simp
  have hkept := hc.kept_last hhonours (hc.kept hhonours (fun s hs _ => hrange s _ hs) hs)
    ((due_start hc selector w).reaches hs) (hrange s _ hs) hlast hreturns
  have hspent := hc.spent_le_total hkept.within hkept.length hfits
  have hallowance : t.executions.spent c.allowance =
      (t.executions.spent fun i => (c.budget.phase i).nanos) +
        report.total * standardTimeout.nanos := by
    rw [htotal, ← Executions.spent_add]
    rfl
  have hnow := hkept.now
  rw [hallowance] at hnow
  refine ⟨?_, by rw [htotal]; exact hc.sum_le hkept.within hkept.length⟩
  rw [elapsed_of_conclude hreport, Instant.elapsed, Duration.ofNanos_nanos]
  have helapsed : t.world.now - w.now ≤ (t.executions.spent fun i => (c.budget.phase i).nanos) +
      report.total * standardTimeout.nanos := Nat.sub_le_iff_le_add'.mpr hnow
  have hcut : ∀ a b d total m : Nat, a ≤ b + d → min b m ≤ total → min a m ≤ total + d := by omega
  exact hcut _ _ _ _ _ helapsed hspent

/-- A run with a deadline starts nothing from then on, and is over within the time of a teardown. -/
theorem Ready.deadline_keeps (hc : c.Ready) (hhonours : env.target.Honours)
    (hrange : StaysInRange env turns c selector outer w) {o : RunOutcome σ}
    (h : c.run env turns selector outer w = some o) {d : Instant} (hd : d ∈ c.deadline outer w) :
    (∀ e ∈ o.history, e.event.opens = true → e.instant < d) ∧
      o.world.now ≤ max w.now (d + standardTimeout.nanos) := by
  have hexecute : ∀ s result after,
      Reaches env turns c (c.deadline outer w) (start c selector w) s →
      s.Starts c (c.deadline outer w) s.current →
      c.execute env turns s.current (s.executions.getD s.current 0 + 1) (c.deadline outer w)
        s.world = some (result, after) →
      after.now ≤ d + standardTimeout.nanos ∧
        ∀ e ∈ result.history, e.event.opens = true → e.instant < d :=
    fun s result after hs hstarts hexecute =>
      (execute_keeps (hc.live_of_starts hstarts) (hrange s _ hs hstarts) hhonours hexecute).2.2 d hd
  have hreached : ∀ s, Reaches env turns c (c.deadline outer w) (start c selector w) s →
      s.world.now ≤ max w.now (d + standardTimeout.nanos) := by
    intro s hs
    induction hs with
    | refl => exact Nat.le_max_left _ _
    | @next s t hs hround _ =>
      have hdue := (due_start hc selector w).reaches hs
      obtain ⟨hstarts, x, hdone, -⟩ := (hdue.proceeds hround).next_cases
      exact Nat.le_trans (hexecute s _ _ hs hstarts hdone).1 (Nat.le_max_right _ _)
  constructor
  · refine hc.history_induction
      (Q := fun h => ∀ e ∈ h, e.event.opens = true → e.instant < d) ?_ ?_ ?_ h
    · intro h hlines e he hopens
      simp [Event.opens_of_isLine (hlines e he)] at hopens
    · intro h h' hh hh' e he
      exact (List.mem_append.mp he).elim (hh e) (hh' e)
    · exact fun s result after hs hstarts hdone => (hexecute s result after hs hstarts hdone).2
  · obtain ⟨s, hs, -, ⟨-, hworld, -⟩ | ⟨hstarts, result, hdone, -⟩⟩ := hc.run_cases h
    · rw [hworld]
      exact hreached s hs
    · exact Nat.le_trans (hexecute s result _ hs hstarts hdone).1 (Nat.le_max_right _ _)

theorem exists_deadline_le {timeout : Duration} (htimeout : c.settings.runTimeout = some timeout)
    (hlimit : w.now + timeout.nanos < Instant.limit) (outer : Option Instant) :
    ∃ d ∈ c.deadline outer w, d ≤ w.now + timeout.nanos := by
  simp only [Campaign.deadline, htimeout]
  refine earliest?_le (a := outer) ?_
  rw [Instant.after?, if_pos hlimit]
  rfl

theorem Ready.timeout_keeps (hc : c.Ready) (hhonours : env.target.Honours)
    (hrange : StaysInRange env turns c selector outer w) {o : RunOutcome σ}
    (h : c.run env turns selector outer w = some o) {timeout : Duration}
    (htimeout : c.settings.runTimeout = some timeout)
    (hlimit : w.now + timeout.nanos < Instant.limit) :
    (∀ e ∈ o.history, e.event.opens = true → e.instant < w.now + timeout.nanos) ∧
      o.world.now ≤ w.now + timeout.nanos + standardTimeout.nanos := by
  obtain ⟨d, hd, hle⟩ := exists_deadline_le htimeout hlimit outer
  obtain ⟨hopens, hnow⟩ := hc.deadline_keeps hhonours hrange h hd
  refine ⟨fun e he heopens => Nat.lt_of_lt_of_le (hopens e he heopens) hle,
    Nat.le_trans hnow (Nat.max_le.mpr ⟨?_, Nat.add_le_add_right hle _⟩)⟩
  exact Nat.le_trans (Nat.le_add_right _ _) (Nat.le_add_right _ _)

theorem Ready.exists_execute_of_starts (hc : c.Ready)
    (htime : ∀ i, ∀ run ∈ c.groups i, run.TakesTime env)
    (hs : Reaches env turns c (c.deadline outer w) (start c selector w) s)
    (hi : s.Starts c (c.deadline outer w) i)
    (hrange : s.world.now + (c.budget.phase i).nanos < Instant.limit)
    (hturns : c.enoughTurns ≤ turns) :
    ∃ p, c.execute env turns i (s.executions.getD i 0 + 1) (c.deadline outer w) s.world = some p :=
  exists_execute (hc.live_of_starts hi) hrange (htime i) fun _ hrun =>
    Nat.le_trans (le_enoughTurns (hc.starts_within hs hi).1 hrun) hturns

/-- A run in the range of the clock, of which every worker's round takes time, comes to its end. -/
theorem Ready.exists_run (hc : c.Ready) (htime : ∀ i, ∀ run ∈ c.groups i, run.TakesTime env)
    (hrange : StaysInRange env turns c selector outer w) (hturns : c.enoughTurns ≤ turns) :
    ∃ o, c.run env turns selector outer w = some o := by
  cases hplay : (start c selector w).play env turns c (c.deadline outer w) with
  | some p => exact ⟨_, by simp only [run, hplay, Option.bind_eq_bind, Option.bind_some]; rfl⟩
  | none =>
    obtain ⟨s, hs, hround⟩ := exists_round_eq_none hplay
    obtain ⟨i, hi, hexecute⟩ := starts_of_round_eq_none hround
    obtain ⟨p, hp⟩ :=
      hc.exists_execute_of_starts htime hs hi (hrange s i hs hi).phase hturns
    rw [hexecute] at hp
    cases hp

/-- In the range of the clock, with a target that answers in time and workers whose rounds take
time, a run comes to its end. Every execution that starts in it keeps to the budget of its phase,
and a report tells of no more time than the budget of the plan and 10 s for the teardown of each
execution. With a timeout, nothing but a teardown starts from then on, and the run ends within the
time of one. -/
theorem run_keeps_time (hprepare : prepare plan settings = (events, .ok c))
    (hhonours : env.target.Honours) (htime : ∀ i, ∀ run ∈ c.groups i, run.TakesTime env)
    (selector : Selector) (outer : Option Instant) (w : World σ)
    (hrange : ∀ turns, StaysInRange env turns c selector outer w) :
    (∃ enough, ∀ turns, enough ≤ turns → ∃ o, c.run env turns selector outer w = some o) ∧
    ∀ turns,
      (∀ s i result after, Reaches env turns c (c.deadline outer w) (start c selector w) s →
        s.Starts c (c.deadline outer w) i →
        c.execute env turns i (s.executions.getD i 0 + 1) (c.deadline outer w) s.world =
          some (result, after) →
        ∀ x ∈ result.execution?, x.phase = i ∧ x.summary.elapsed ≤ c.budget.phase i) ∧
      ∀ o, c.run env turns selector outer w = some o →
        (∀ x ∈ o.executions, x.summary.elapsed ≤ c.budget.phase x.phase) ∧
        (∀ report, o.ending = .finished report →
          (c.budget.adjusted ≠ none →
            c.settings.limits.minPhase.nanos * c.budget.executions < 2 ^ 64) →
          report.elapsed.nanos ≤ c.budget.total.nanos + report.total * standardTimeout.nanos ∧
            report.total ≤ c.budget.executions) ∧
        ∀ timeout, c.settings.runTimeout = some timeout →
          w.now + timeout.nanos < Instant.limit →
          (∀ e ∈ o.history, e.event.opens = true → e.instant < w.now + timeout.nanos) ∧
            o.world.now ≤ w.now + timeout.nanos + standardTimeout.nanos := by
  have hc := ready_of_prepare hprepare
  have hstarted : ∀ turns s i result after,
      Reaches env turns c (c.deadline outer w) (start c selector w) s →
      s.Starts c (c.deadline outer w) i →
      c.execute env turns i (s.executions.getD i 0 + 1) (c.deadline outer w) s.world =
        some (result, after) →
      ∀ x ∈ result.execution?, x.phase = i ∧ x.summary.elapsed ≤ c.budget.phase i := by
    intro turns s i result after hs hi hexecute x hx
    exact ⟨(place_of_execute hexecute x hx).1, (execute_keeps (hc.live_of_starts hi)
      (hrange turns s i hs hi) hhonours hexecute).1 x hx⟩
  refine ⟨⟨c.enoughTurns, fun turns hturns => hc.exists_run htime (hrange turns) hturns⟩,
    fun turns => ⟨hstarted turns, fun o h => ⟨?_, ?_, ?_⟩⟩⟩
  · intro x hx
    obtain ⟨earlier, later, hsplit⟩ := List.append_of_mem hx
    refine hc.forall_executions
      (P := fun _ x => x.summary.elapsed ≤ c.budget.phase x.phase) ?_ h earlier x later hsplit
    intro s result x after hs _ hstarts hexecute hexecution
    obtain ⟨hphase, helapsed⟩ := hstarted turns s s.current result after hs hstarts hexecute x
      hexecution
    rwa [hphase]
  · exact fun report hreport hfits => hc.elapsed_le hhonours (hrange turns) h hreport hfits
  · exact fun timeout htimeout hlimit =>
      hc.timeout_keeps hhonours (hrange turns) h htimeout hlimit

def hurried : RunSettings := { RunSettings.standard with runTimeout := some (.ofSecs 50) }

def hurriedPair : Campaign :=
  match prepare pair hurried with
  | (_, .ok c) => c
  | (_, .error _) => ⟨pair, hurried, .uniform 1, .ofPlan none pair (.uniform 1) hurried.limits⟩

theorem prepare_hurriedPair : ∃ events, prepare pair hurried = (events, .ok hurriedPair) := ⟨_, rfl⟩

/-- Setups and teardowns take 5 s. -/
def sluggish : World Target.Script :=
  .start (.ofRules [⟨"null".toList, [.ofResponse (.ofSecs 5) 200 []]⟩]) none

theorem hurriedPair_takesTime :
    ∀ i, ∀ run ∈ hurriedPair.groups i, run.TakesTime (.orderly Target.scripted) := by
  intro i run hrun st
  have hdelay : 0 < run.delay.nanos := by
    cases i with
    | zero =>
      have hall : ∀ run ∈ hurriedPair.groups 0, 0 < run.delay.nanos := by decide +kernel
      exact hall run hrun
    | succ i =>
      cases i with
      | zero => cases hrun
      | succ i => cases hrun
  exact Nat.lt_of_lt_of_le hdelay (Nat.le_add_right _ _)

/-- The pair is stopped after 50 s, in its first execution, of which the teardown is over 5 s later.
-/
theorem pair_keeps_time :
    (∃ events, prepare pair hurried = (events, .ok hurriedPair)) ∧
    Target.scripted.Honours ∧
    (∀ i, ∀ run ∈ hurriedPair.groups i, run.TakesTime (.orderly Target.scripted)) ∧
    (∀ turns, StaysInRange (.orderly Target.scripted) turns hurriedPair .cycle none sluggish) ∧
    ∃ o report, hurriedPair.run (.orderly Target.scripted) 100 .cycle none sluggish = some o ∧
      o.ending = .finished report ∧ report.ending = .runTimeout ∧ report.elapsed = .ofSecs 55 ∧
      report.elapsed.nanos ≤
        hurriedPair.budget.total.nanos + report.total * standardTimeout.nanos ∧
      (∀ e ∈ o.history, e.event.opens = true → e.instant < (Duration.ofSecs 50).nanos) ∧
      o.world.now ≤ (Duration.ofSecs 60).nanos := by
  obtain ⟨events, hprepare⟩ := prepare_hurriedPair
  have hrange : ∀ turns,
      StaysInRange (.orderly Target.scripted) turns hurriedPair .cycle none sluggish := fun turns =>
    (ready_of_prepare hprepare).staysInRange Target.honours_scripted (by decide +kernel) turns .cycle
      none
  have hcheck : (hurriedPair.run (.orderly Target.scripted) 100 .cycle none sluggish).map
      (·.ending) = some (.finished ⟨[1, 0], 1, .ofSecs 55, .runTimeout⟩) := by decide +kernel
  obtain ⟨o, hrun, hending⟩ := Option.map_eq_some_iff.mp hcheck
  have hkeeps := run_keeps_time hprepare Target.honours_scripted hurriedPair_takesTime .cycle none
    sluggish hrange
  obtain ⟨-, hreport, htimeout⟩ := (hkeeps.2 100).2 o hrun
  obtain ⟨hopens, hnow⟩ := htimeout (.ofSecs 50) rfl (by decide)
  exact ⟨⟨events, hprepare⟩, Target.honours_scripted, hurriedPair_takesTime, hrange, o, _, hrun,
    hending, rfl, rfl, (hreport _ hending fun hsome => absurd rfl hsome).1, hopens, hnow⟩

end Campaign

end PhasedLoad
