import PhasedLoad.Proofs.Execution.Block
import PhasedLoad.Proofs.Group.Deadline

/-! An execution and its deadline: its setup and its groups are over by then, and only the teardown
takes place after it. -/

namespace PhasedLoad

section

variable {σ : Type} {env : Environment σ} {turns : Nat} {name : String} {deadline : Option Instant}
  {w : World σ} {d : Instant} {body : Option String} {runs : List GroupRun} {stats : Statistics}
  {setup : Part SetupResult σ} {work : Part (PhaseEnd × Statistics) σ}

/-- A part of an execution that keeps to deadline `d`: it is over by then, and it starts nothing
from then on. -/
structure Keeps (d : Instant) (h : History) (after : World σ) : Prop where
  now : after.now ≤ d
  opens : ∀ e ∈ h, e.event.opens = true → e.instant < d

theorem Keeps.trans {h h' : History} {v after : World σ} (hh : Keeps d h v)
    (hh' : Keeps d h' after) : Keeps d (h ++ h') after where
  now := hh'.now
  opens := by
    intro e he
    rcases List.mem_append.mp he with he | he
    · exact hh.opens e he
    · exact hh'.opens e he

theorem Keeps.of_not_opens {h : History} (hnow : w.now ≤ d)
    (hh : ∀ e ∈ h, e.event.opens = false) : Keeps d h w :=
  ⟨hnow, fun e he hopens => absurd hopens (by simp [hh e he])⟩

theorem SetsUp.keeps (hs : SetsUp env deadline w body setup) (hd : d ∈ deadline)
    (hlive : w.now < d) : Keeps d setup.history setup.world := by
  have hcall : ∀ body : String, Keeps d
      [Part.logged w .setupStarting, ⟨w.now, .called .setup (setupCall body)⟩] w := by
    refine fun body => ⟨Nat.le_of_lt hlive, fun e he _ => ?_⟩
    rcases List.mem_cons.mp he with rfl | he
    · exact hlive
    · obtain rfl := List.mem_singleton.mp he
      exact hlive
  cases hs with
  | absent => exact .of_not_opens (Nat.le_of_lt hlive) (by simp)
  | @stopped body stop reason hstops _ =>
    obtain ⟨stop', hstop', hle⟩ := earliest?_le_left (b := w.canceledAt) hd
    obtain rfl : stop' = stop := Option.mem_unique hstop' hstops
    exact ⟨Nat.max_le.mpr ⟨Nat.le_of_lt hlive, hle⟩, (hcall body).opens⟩
  | answered body hearly harrives =>
    obtain ⟨rfl, rfl⟩ := Part.arrived_cases harrives
    have hdue := (earliest?_forall_lt.mp hearly).1 d hd
    refine (hcall body).trans (.of_not_opens ?_ ?_)
    · rw [World.receive_now]
      exact Nat.max_le.mpr ⟨Nat.le_of_lt hlive, Nat.le_of_lt hdue⟩
    · intro e he
      rcases List.mem_cons.mp he with rfl | he
      · rfl
      · exact Event.opens_of_isLine
          (Part.isLine_of_mem_logged SetupResult.isLine_of_mem_events e he)

theorem GroupRun.perform_keeps {run : GroupRun} {out : GroupOutcome σ}
    (h : run.perform env turns deadline w stats = some out) (hd : d ∈ deadline) (hnow : w.now ≤ d) :
    Keeps d out.history out.world := by
  obtain ⟨x, hx, hle⟩ := earliest?_le_left (b := Instant.after? w.now run.duration) hd
  obtain ⟨hout, hopens⟩ := perform_timely h hx
  exact ⟨Nat.le_trans hout (Nat.max_le.mpr ⟨hnow, hle⟩), fun e he heopens =>
    Nat.lt_of_lt_of_le (hopens e he heopens) hle⟩

theorem Works.keeps (hw : Works env turns name deadline runs w stats work) (hd : d ∈ deadline)
    (hnow : w.now ≤ d) : Keeps d work.history work.world := by
  induction hw with
  | nil => exact .of_not_opens hnow (by simp)
  | stopped _ hperform _ =>
    have hout := GroupRun.perform_keeps hperform hd hnow
    exact hout.trans (.of_not_opens hout.now (by simp [Part.logged, Event.opens]))
  | next hperform _ _ ih =>
    have hout := GroupRun.perform_keeps hperform hd hnow
    exact hout.trans (ih hout.now)

theorem Pursues.keeps (h : Pursues env turns name deadline runs setup work) (hd : d ∈ deadline)
    (hnow : setup.world.now ≤ d) : Keeps d work.history work.world := by
  cases h with
  | stopped _ => exact .of_not_opens hnow (by simp)
  | failed _ _ => exact .of_not_opens hnow (by simp [Part.logged, Event.opens])
  | ready _ hworks => exact hworks.keeps hd hnow

theorem Execution.account_not_opens (x : Execution) : ∀ e ∈ x.account, e.event.opens = false := by
  intro e he
  rcases List.mem_append.mp he with he | he
  · obtain ⟨line, hline, rfl⟩ := List.mem_map.mp he
    exact Event.opens_of_isLine (LogEvent.isLine_of_mem_ofSummary line hline)
  · obtain rfl := List.mem_singleton.mp he
    rfl

theorem tearDown_not_opens {phase : Nat} :
    ∀ e ∈ (tearDown env phase body w).history, e.event.opens = false := by
  cases body with
  | none => simp [tearDown]
  | some body =>
    obtain ⟨due, reply, entry, after, harrives, -, hhistory⟩ := tearDown_some env phase body w
    obtain ⟨-, rfl⟩ := Part.arrived_cases harrives
    rw [hhistory]
    intro e he
    simp only [List.mem_cons] at he
    rcases he with rfl | rfl | rfl | he
    · rfl
    · rfl
    · rfl
    · exact Event.opens_of_isLine (Part.isLine_of_mem_logged isLine_of_mem_teardownEvents e he)

theorem tearDown_now_le {phase : Nat} (hhonours : env.target.Honours)
    (hrange : body ≠ none → w.now + standardTimeout.nanos < Instant.limit) :
    (tearDown env phase body w).world.now ≤ w.now + standardTimeout.nanos := by
  cases body with
  | none => exact Nat.le_add_right _ _
  | some body =>
    have hlatency : (env.target.post (setupCall body) w.target).1.latency.nanos ≤
        standardTimeout.nanos := hhonours (setupCall body) w.target standardTimeout rfl
    have hlt := Nat.lt_of_le_of_lt (Nat.add_le_add_left hlatency w.now) (hrange (by simp))
    have hnow : (tearDown env phase (some body) w).world.now =
        max w.now (Instant.wake w.now (env.target.post (setupCall body) w.target).1.latency) := by
      simp [tearDown, Part.called, Part.arrived, World.post]
    rw [hnow, Instant.wake_of_lt hlt]
    exact Nat.max_le.mpr ⟨Nat.le_add_right _ _, Nat.add_le_add_left hlatency w.now⟩

theorem exists_workGroups (hd : d ∈ deadline) (htime : ∀ run ∈ runs, run.TakesTime env)
    (hturns : ∀ run ∈ runs, run.instances * (2 * (d - w.now)) ≤ turns) :
    ∃ work, workGroups env turns name deadline runs w stats = some work := by
  induction runs generalizing w stats with
  | nil => exact ⟨_, rfl⟩
  | cons run runs ih =>
    rw [List.forall_mem_cons] at htime hturns
    obtain ⟨x, hx, hle⟩ := earliest?_le_left (b := Instant.after? w.now run.duration) hd
    obtain ⟨out, hout⟩ : ∃ out, run.perform env turns deadline w stats = some out :=
      GroupRun.exists_perform htime.1 hx (Nat.le_trans (Nat.mul_le_mul_left _
        (Nat.mul_le_mul_left 2 (Nat.sub_le_sub_right hle w.now))) hturns.1)
    simp only [workGroups, hout, Option.bind_eq_bind, Option.bind_some]
    split
    · exact ⟨_, rfl⟩
    · have hsince := (GroupRun.perform_passage hout).1.le
      obtain ⟨rest, hrest⟩ : ∃ rest,
          workGroups env turns name deadline runs out.world out.stats = some rest :=
        ih htime.2 fun run hrun => Nat.le_trans (Nat.mul_le_mul_left _ (Nat.mul_le_mul_left 2
          (Nat.sub_le_sub_left hsince d))) (hturns.2 run hrun)
      exact ⟨_, by rw [hrest]; rfl⟩

end

namespace Campaign

variable {σ : Type} {env : Environment σ} {turns : Nat} {c : Campaign} {i number : Nat}
  {outer : Option Instant} {w after : World σ} {result : ExecutionResult}

/-- The clock can show the deadline of an execution of phase `i` that starts at `now`, and that of
its teardown. -/
structure InRange (c : Campaign) (i : Nat) (now : Instant) : Prop where
  phase : now + (c.budget.phase i).nanos < Instant.limit
  teardown : (c.requests i).teardown ≠ none →
    now + (c.budget.phase i).nanos + standardTimeout.nanos < Instant.limit

theorem exists_phaseDeadline (h : w.now + (c.budget.phase i).nanos < Instant.limit)
    (outer : Option Instant) :
    ∃ d ∈ c.phaseDeadline i outer w, d ≤ w.now + (c.budget.phase i).nanos ∧
      ∀ x ∈ outer, d ≤ x := by
  rw [Campaign.phaseDeadline, World.within, Instant.after?, if_pos h]
  cases outer with
  | none => exact ⟨_, rfl, Nat.le_refl _, by simp⟩
  | some x =>
    refine ⟨_, rfl, Nat.min_le_right _ _, fun y hy => ?_⟩
    cases hy
    exact Nat.min_le_left _ _

theorem execute_keeps_deadline (hlive : w.stopReason (c.phaseDeadline i outer w) = none)
    {d : Instant} (hd : d ∈ c.phaseDeadline i outer w)
    (hrange : (c.requests i).teardown ≠ none → d + standardTimeout.nanos < Instant.limit)
    (hhonours : env.target.Honours)
    (h : c.execute env turns i number outer w = some (result, after)) :
    (∀ x ∈ result.execution?,
      x.summary.elapsed = Instant.elapsed w.now x.ended ∧ x.ended ≤ d) ∧
      after.now ≤ d + standardTimeout.nanos ∧
      ∀ e ∈ result.history, e.event.opens = true → e.instant < d := by
  have hnow := (World.stopReason_eq_none_iff.mp hlive).1 d hd
  have hstart : Keeps d [Part.logged w (c.startEvent i number)] w := by
    refine ⟨Nat.le_of_lt hnow, fun e he _ => ?_⟩
    obtain rfl := List.mem_singleton.mp he
    exact hnow
  cases execute_cases hlive h with
  | setupPanicked hsets _ =>
    have hopening := hstart.trans (hsets.keeps hd hnow)
    exact ⟨by simp [ExecutionResult.execution?],
      Nat.le_trans hopening.now (Nat.le_add_right _ _), hopening.opens⟩
  | @summarized setup work _ hsets hpursues hexecution =>
    have hopening := hstart.trans (hsets.keeps hd hnow)
    have hwork := hopening.trans (hpursues.keeps hd hopening.now)
    have hteardown : (tearDown env i (c.requests i).teardown work.world).world.now ≤
        work.world.now + standardTimeout.nanos := tearDown_now_le hhonours fun hsome =>
      Nat.lt_of_le_of_lt (Nat.add_le_add_right hwork.now _) (hrange hsome)
    refine ⟨?_, Nat.le_trans hteardown (Nat.add_le_add_right hwork.now _), ?_⟩
    · intro x hx
      rw [Option.mem_def, hexecution] at hx
      cases hx
      exact ⟨rfl, hwork.now⟩
    · rw [ExecutionResult.history_of_execution? hexecution]
      exact ((hwork.trans (.of_not_opens hwork.now (Execution.account_not_opens _))).trans
        (.of_not_opens hwork.now tearDown_not_opens)).opens

/-- An execution keeps to its budget, and to the deadline of the run, but for its teardown. -/
theorem execute_keeps (hlive : w.stopReason (c.phaseDeadline i outer w) = none)
    (hrange : c.InRange i w.now) (hhonours : env.target.Honours)
    (h : c.execute env turns i number outer w = some (result, after)) :
    (∀ x ∈ result.execution?, x.summary.elapsed ≤ c.budget.phase i) ∧
      after.now ≤ w.now + (c.budget.phase i).nanos + standardTimeout.nanos ∧
      ∀ x ∈ outer, after.now ≤ x + standardTimeout.nanos ∧
        ∀ e ∈ result.history, e.event.opens = true → e.instant < x := by
  obtain ⟨d, hd, hbudget, houter⟩ := exists_phaseDeadline hrange.phase outer
  obtain ⟨hended, hafter, hopens⟩ := execute_keeps_deadline hlive hd (fun hsome =>
    Nat.lt_of_le_of_lt (Nat.add_le_add_right hbudget _) (hrange.teardown hsome)) hhonours h
  refine ⟨fun x hx => ?_, Nat.le_trans hafter (Nat.add_le_add_right hbudget _),
    fun x hx => ⟨Nat.le_trans hafter (Nat.add_le_add_right (houter x hx) _),
      fun e he heopens => Nat.lt_of_lt_of_le (hopens e he heopens) (houter x hx)⟩⟩
  obtain ⟨helapsed, hle⟩ := hended x hx
  have hnanos : (Instant.elapsed w.now x.ended).nanos ≤ (c.budget.phase i).nanos :=
    Nat.le_trans (Nat.min_le_left _ _) (Nat.sub_le_iff_le_add'.mpr (Nat.le_trans hle hbudget))
  rw [helapsed]
  exact hnanos

theorem exists_execute (hlive : w.stopReason (c.phaseDeadline i outer w) = none)
    (hrange : w.now + (c.budget.phase i).nanos < Instant.limit)
    (htime : ∀ run ∈ c.groups i, run.TakesTime env)
    (hturns : ∀ run ∈ c.groups i, run.instances * (2 * (c.budget.phase i).nanos) ≤ turns) :
    ∃ p, c.execute env turns i number outer w = some p := by
  obtain ⟨d, hd, hbudget, -⟩ := exists_phaseDeadline hrange outer
  have hsets := setUp_cases env (c.requests i).setup hlive
  have hcanceled := (World.stopReason_eq_none_iff.mp hlive).2
  unfold execute
  dsimp only
  generalize setUp env (c.requests i).setup (c.phaseDeadline i outer w) w = setup at hsets ⊢
  have hleft : d - setup.world.now ≤ (c.budget.phase i).nanos :=
    Nat.le_trans (Nat.sub_le_sub_left (hsets.passage hcanceled).le d)
      (Nat.sub_le_iff_le_add'.mpr hbudget)
  have hafter : ∃ work, afterSetUp env turns c (c.plan.phases.getD i default)
      (c.requests i).workload (c.phaseDeadline i outer w) (i + 1) setup = some work := by
    unfold afterSetUp
    split
    · exact ⟨_, rfl⟩
    · exact ⟨_, rfl⟩
    · exact ⟨_, rfl⟩
    · exact exists_workGroups hd htime fun run hrun =>
        Nat.le_trans (Nat.mul_le_mul_left _ (Nat.mul_le_mul_left 2 hleft)) (hturns run hrun)
  split
  · exact ⟨_, rfl⟩
  · obtain ⟨work, hwork⟩ := hafter
    simp only [hwork, Option.bind_eq_bind, Option.bind_some]
    split
    · exact ⟨_, rfl⟩
    · exact ⟨_, rfl⟩

end Campaign

end PhasedLoad
