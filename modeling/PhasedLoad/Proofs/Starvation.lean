import PhasedLoad.Proofs.Schedule

/-! Which groups of an undisturbed run get to send a request: those whose first pause ends before
the budget of their phase does. A budget that is shorter than the groups are to work cuts the later
ones off. -/

namespace PhasedLoad

def Target.Prompt {σ : Type} (t : Target σ) : Prop :=
  ∀ call st, ∃ body, (t.post call st).1 = .ofResponse .zero 200 body

theorem Target.Prompt.honours {σ : Type} {t : Target σ} (ht : t.Prompt) : t.Honours := by
  intro call st d _
  obtain ⟨body, hreply⟩ := ht call st
  rw [hreply]
  exact Nat.zero_le _

/-- How long a group is at work that nothing cuts short; one without workers is over at once. -/
def GroupRun.stay (run : GroupRun) : Nat := if run.instances = 0 then 0 else run.duration.nanos

def GroupRun.stays (runs : List GroupRun) : Nat := (runs.map stay).sum

@[simp] theorem GroupRun.stays_cons (run : GroupRun) (runs : List GroupRun) :
    stays (run :: runs) = run.stay + stays runs := rfl

/-- How long after the start of its phase the group at place `k`, from zero, starts. -/
def Phase.startOf (p : Phase) (k : Nat) : Nat :=
  ((p.workers.take k).map fun g => if g.instances = 0 then 0 else g.duration.nanos).sum

/-- What the group at place `k`, from zero, of a phase does in an execution with this budget: each
of its workers calls if its first pause is over before the budget is, and otherwise none does, as
far as the clock can show. -/
structure Phase.Serves (p : Phase) (k : Nat) (g : WorkerGroup) (budget : Duration)
    (x : Execution) : Prop where
  calls : p.startOf k + g.delay.nanos < budget.nanos →
    ∀ number, 1 ≤ number → number ≤ g.instances → ∃ e ∈ x.work,
      e.event = .called (.worker (k + 1) number) ⟨p.workBody, some g.timeout⟩
  starves : budget.nanos ≤ p.startOf k + g.delay.nanos →
    x.started + (p.startOf k + g.delay.nanos) < Instant.limit →
    ∀ e ∈ x.work, ∀ number call, e.event ≠ .called (.worker (k + 1) number) call

section

variable {σ : Type} {env : Environment σ} {turns : Nat} {name : String}
  {deadline : Option Instant} {w : World σ} {run : GroupRun} {runs : List GroupRun}
  {stats : Statistics} {out : GroupOutcome σ} {work : Part (PhaseEnd × Statistics) σ}
  {e : Entry} {number k : Nat}

theorem Entry.Settled.harmless (he : e.Settled env run) (hprompt : env.target.Prompt) :
    e.event.cancels = false ∧ e.event.isFatal = false := by
  cases hevent : e.event with
  | answered who took reply stopped =>
    obtain ⟨st, rfl⟩ := he who took reply stopped hevent
    obtain ⟨body, hreply⟩ := hprompt run.call st
    rw [hreply]
    exact ⟨rfl, rfl⟩
  | _ => exact ⟨rfl, rfl⟩

/-- A world in which a phase with this deadline goes on, and is not to be cancelled. -/
structure Undisturbed (deadline : Option Instant) (w : World σ) : Prop where
  live : w.stopReason deadline = none
  canceledAt : w.canceledAt = none
  range : ∀ d ∈ deadline, d < Instant.limit

theorem Undisturbed.lt (hw : Undisturbed deadline w) : ∀ d ∈ deadline, w.now < d :=
  (World.stopReason_eq_none_iff.mp hw.live).1

theorem World.within_cases {d : Duration} {stop : Instant}
    (hrange : ∀ x ∈ deadline, x < Instant.limit) (h : w.within deadline d = some stop) :
    (∀ x ∈ deadline, stop ≤ x) ∧ stop ≤ w.now + d.nanos ∧ stop < Instant.limit ∧
      (stop = w.now + d.nanos ∨ stop ∈ deadline) := by
  unfold within Instant.after? at h
  cases deadline with
  | none =>
    rw [earliest?_none_left] at h
    split at h
    · cases h
      simpa
    · cases h
  | some x =>
    have hx := hrange x rfl
    split at h
    · simp only [earliest?_some_some, Option.some.injEq] at h
      simp only [Option.mem_def, Option.some.injEq, forall_eq']
      grind
    · simp only [earliest?_none_right, Option.some.injEq] at h
      simp only [Option.mem_def, Option.some.injEq, forall_eq']
      grind

/-- How a group ends that nothing disturbs: at its deadline if it has a worker, and at once if it
has none. -/
structure EndsOnTime (deadline : Option Instant) (run : GroupRun) (w after : World σ) : Prop where
  canceledAt : after.canceledAt = none
  now_le : after.now ≤ w.now + run.stay
  now_eq : after.stopReason deadline = none → after.now = w.now + run.stay
  within : 0 < run.instances → w.within deadline run.duration = some after.now

theorem GroupRun.perform_endsOnTime (hprompt : env.target.Prompt) (hw : Undisturbed deadline w)
    (hpos : 0 < run.duration.nanos)
    (h : run.perform env turns deadline w stats = some out) :
    EndsOnTime deadline run w out.world := by
  have hharmless := fun e he => (perform_settled h e he).harmless hprompt
  have hcanceled : out.world.canceledAt = none := by
    rw [(perform_passage h).1.canceledAt,
      History.cancellation_eq_self fun e he => (hharmless e he).1]
    exact hw.canceledAt
  by_cases hempty : run.instances = 0
  · have hworld := perform_empty hempty h
    have hstay : run.stay = 0 := if_pos hempty
    exact ⟨hcanceled, by rw [hworld]; exact Nat.le_add_right _ _, fun _ => by rw [hworld, hstay]; rfl,
      fun hsome => absurd hempty (Nat.ne_of_gt hsome)⟩
  · have hhas : run.Has 1 := ⟨Nat.le_refl 1, Nat.pos_of_ne_zero hempty⟩
    have hspared : out.history.Spares (.worker run.name.group 1) := fun e he =>
      (hharmless e (List.mem_filter.mp he).1).2
    have hstay : run.stay = run.duration.nanos := if_neg hempty
    obtain ⟨stop, hstop⟩ := perform_within h hcanceled hhas hspared
    obtain ⟨-, hle, -, hcases⟩ := World.within_cases hw.range hstop
    have hlater : w.now < stop := by
      rcases hcases with rfl | hmem
      · exact Nat.lt_add_of_pos_right hpos
      · exact hw.lt stop hmem
    obtain ⟨rfl, -⟩ := perform_stays hstop hlater h (by simp [hcanceled]) hhas hspared
    refine ⟨hcanceled, by rwa [hstay], fun hlive => ?_, fun _ => hstop⟩
    rw [hstay]
    refine hcases.resolve_right fun hmem => ?_
    exact Nat.lt_irrefl _ ((World.stopReason_eq_none_iff.mp hlive).1 _ hmem)

theorem GroupRun.perform_serves (hprompt : env.target.Prompt) (hw : Undisturbed deadline w)
    (hdelay : run.delay < run.duration) (h : run.perform env turns deadline w stats = some out)
    (hbefore : ∀ d ∈ deadline, w.now + run.delay.nanos < d) (hhas : run.Has number) :
    ∃ e ∈ out.history, e.event = .called (.worker run.name.group number) run.call := by
  have hends := perform_endsOnTime hprompt hw (Nat.lt_of_le_of_lt (Nat.zero_le _) hdelay) h
  obtain ⟨-, -, hlimit, hcases⟩ :=
    World.within_cases hw.range (hends.within (Nat.le_trans hhas.1 hhas.2))
  have hpause : w.now + run.delay.nanos < out.world.now := by
    rcases hcases with heq | hmem
    · rw [heq]
      exact Nat.add_lt_add_left hdelay _
    · exact hbefore _ hmem
  refine (perform_begins h hhas).2 ?_
  rwa [Instant.wake_of_lt (Nat.lt_trans hpause hlimit)]

theorem GroupRun.perform_starves (h : run.perform env turns deadline w stats = some out)
    (hlate : ∃ d ∈ deadline, d ≤ w.now + run.delay.nanos)
    (hlimit : w.now + run.delay.nanos < Instant.limit) :
    ∀ e ∈ out.history, e.event.isWorkCall = false := by
  intro e he
  refine Bool.eq_false_iff.mpr fun hcall => ?_
  obtain ⟨d, hd, hle⟩ := hlate
  obtain ⟨stop, hstop, hstopd⟩ := earliest?_le_left (b := Instant.after? w.now run.duration) hd
  have hbefore := (perform_timely h hstop).2 e he (Event.opens_of_isWorkCall hcall)
  rcases perform_timelines h he with hline | ⟨number, hhas, hmem⟩
  · have hwork := Event.isWork_of_isWorkCall hcall
    simp [Event.isWork_of_isLine hline] at hwork
  · have hsince := (perform_begins h hhas).1 e hmem
    rw [Instant.wake_of_lt hlimit] at hsince
    exact absurd (Nat.lt_of_lt_of_le hbefore (Nat.le_trans hstopd hle)) (Nat.not_lt_of_le hsince)

theorem EndsOnTime.undisturbed {after : World σ} (hends : EndsOnTime deadline run w after)
    (hw : Undisturbed deadline w) (hlive : after.stopReason deadline = none) :
    Undisturbed deadline after := ⟨hlive, hends.canceledAt, hw.range⟩

theorem EndsOnTime.stopReason_eq {after : World σ} (hends : EndsOnTime deadline run w after)
    (hbefore : ∀ d ∈ deadline, w.now + run.stay < d) : after.stopReason deadline = none :=
  World.stopReason_eq_none_iff.mpr ⟨fun d hd => Nat.lt_of_le_of_lt hends.now_le (hbefore d hd),
    by simp [hends.canceledAt]⟩

theorem Works.canceledAt_eq_none (hw : Works env turns name deadline runs w stats work)
    (hprompt : env.target.Prompt) (hworld : Undisturbed deadline w)
    (hpos : ∀ run ∈ runs, 0 < run.duration.nanos) : work.world.canceledAt = none := by
  induction hw with
  | nil => exact hworld.canceledAt
  | stopped _ hperform _ =>
    exact (GroupRun.perform_endsOnTime hprompt hworld (hpos _ List.mem_cons_self) hperform).canceledAt
  | next hperform hlive _ ih =>
    rw [List.forall_mem_cons] at hpos
    have hends := GroupRun.perform_endsOnTime hprompt hworld hpos.1 hperform
    exact ih (hends.undisturbed hworld hlive) hpos.2

theorem Works.cons_cases (hw : Works env turns name deadline (run :: runs) w stats work) :
    ∃ out tail, run.perform env turns deadline w stats = some out ∧
      work.history = out.history ++ tail ∧
      (((∃ reason, out.world.stopReason deadline = some reason) ∧
          ∀ e ∈ tail, e.event.isLine = true) ∨
        out.world.stopReason deadline = none ∧ ∃ rest,
          Works env turns name deadline runs out.world out.stats rest ∧ rest.history = tail) := by
  cases hw with
  | @stopped _ _ _ out _ _ hperform hbecause =>
    refine ⟨out, _, hperform, rfl, .inl ⟨⟨_, hbecause⟩, fun e he => ?_⟩⟩
    obtain rfl := List.mem_singleton.mp he
    rfl
  | @next _ _ _ _ out rest hperform hlive hworks =>
    exact ⟨out, rest.history, hperform, rfl, .inr ⟨hlive, rest, hworks, rfl⟩⟩

theorem Works.serves (hw : Works env turns name deadline runs w stats work)
    (hprompt : env.target.Prompt) (hworld : Undisturbed deadline w)
    (hdelay : ∀ run ∈ runs, run.delay < run.duration) (hrun : runs[k]? = some run)
    (hbefore : ∀ d ∈ deadline,
      w.now + (GroupRun.stays (runs.take k) + run.delay.nanos) < d) (hhas : run.Has number) :
    ∃ e ∈ work.history, e.event = .called (.worker run.name.group number) run.call := by
  induction runs generalizing w stats work k with
  | nil => simp at hrun
  | cons first runs ih =>
    obtain ⟨out, tail, hperform, hhistory, htail⟩ := hw.cons_cases
    rw [List.forall_mem_cons] at hdelay
    have hends := GroupRun.perform_endsOnTime hprompt hworld
      (Nat.lt_of_le_of_lt (Nat.zero_le _) hdelay.1) hperform
    rw [hhistory]
    cases k with
    | zero =>
      cases hrun
      obtain ⟨e, he, hcall⟩ := GroupRun.perform_serves hprompt hworld hdelay.1 hperform
        (by simpa [GroupRun.stays] using hbefore) hhas
      exact ⟨e, List.mem_append_left _ he, hcall⟩
    | succ k =>
      rw [List.take_succ_cons, GroupRun.stays_cons] at hbefore
      have hlive := hends.stopReason_eq fun d hd => Nat.lt_of_le_of_lt (by grind) (hbefore d hd)
      obtain ⟨⟨reason, hreason⟩, -⟩ | ⟨-, rest, hworks, rfl⟩ := htail
      · rw [hlive] at hreason
        cases hreason
      · obtain ⟨e, he, hcall⟩ := ih hworks (hends.undisturbed hworld hlive) hdelay.2 hrun
          fun d hd => Nat.lt_of_le_of_lt (by rw [hends.now_eq hlive]; grind) (hbefore d hd)
        exact ⟨e, List.mem_append_right _ he, hcall⟩

theorem GroupRun.Owns.group_eq {event : Event} (hown : run.Owns event) {group : Nat} {call : Call}
    (hcall : event = .called (.worker group number) call) : run.name.group = group := by
  rcases hown with hline | ⟨n, -, hcalled | ⟨took, reply, stopped, hanswered⟩⟩
  · simp [hcall, Event.isLine] at hline
  · rw [hcall] at hcalled
    cases hcalled
    rfl
  · simp [hcall] at hanswered

theorem Works.starves (hw : Works env turns name deadline runs w stats work)
    (hprompt : env.target.Prompt) (hworld : Undisturbed deadline w)
    (hpos : ∀ run ∈ runs, 0 < run.duration.nanos) {place : Nat}
    (hplaces : ∀ j run, runs[j]? = some run → run.name.group = place + j)
    (hrun : runs[k]? = some run)
    (hlate : ∃ d ∈ deadline, d ≤ w.now + (GroupRun.stays (runs.take k) + run.delay.nanos))
    (hlimit : w.now + (GroupRun.stays (runs.take k) + run.delay.nanos) < Instant.limit) :
    ∀ e ∈ work.history, ∀ number call, e.event ≠ .called (.worker (place + k) number) call := by
  induction runs generalizing w stats work k place with
  | nil => simp at hrun
  | cons first runs ih =>
    obtain ⟨out, tail, hperform, hhistory, htail⟩ := hw.cons_cases
    rw [List.forall_mem_cons] at hpos
    have hends := GroupRun.perform_endsOnTime hprompt hworld hpos.1 hperform
    have hfirst := hplaces 0 first rfl
    have hlater : ∀ j run, runs[j]? = some run → run.name.group = place + 1 + j := by
      intro j run hj
      rw [hplaces (j + 1) run hj]
      omega
    intro e he number call hcall
    have hnotLine : e.event.isLine = true → False := by simp [hcall, Event.isLine]
    rw [hhistory, List.mem_append] at he
    cases k with
    | zero =>
      cases hrun
      rcases he with he | he
      · have hidle := GroupRun.perform_starves hperform (by simpa [GroupRun.stays] using hlate)
          (by simpa [GroupRun.stays] using hlimit) e he
        simp [hcall, Event.isWorkCall] at hidle
      · obtain ⟨-, hlines⟩ | ⟨-, rest, hworks, rfl⟩ := htail
        · exact hnotLine (hlines e he)
        · rcases hworks.owns e he with hline | ⟨run, hmem, hown⟩
          · exact hnotLine hline
          · obtain ⟨j, hj⟩ := List.mem_iff_getElem?.mp hmem
            have hgroup := hown.group_eq hcall
            rw [hlater j run hj] at hgroup
            omega
    | succ k =>
      -- What is left of the wait counts from the end of the first group, which keeps its time.
      rw [List.take_succ_cons, GroupRun.stays_cons] at hlate hlimit
      rcases he with he | he
      · have hgroup := (GroupRun.perform_owns hperform e he).group_eq hcall
        omega
      · obtain ⟨-, hlines⟩ | ⟨hlive, rest, hworks, rfl⟩ := htail
        · exact hnotLine (hlines e he)
        · have hnow := hends.now_eq hlive
          obtain ⟨d, hd, hle⟩ := hlate
          refine ih hworks (hends.undisturbed hworld hlive) hpos.2 hlater hrun
            ⟨d, hd, by rw [hnow]; grind⟩ (by rw [hnow]; grind) e he number call ?_
          rw [hcall, Nat.add_assoc, Nat.add_comm 1 k]

theorem tearDown_canceledAt (hprompt : env.target.Prompt) {phase : Nat} {body : Option String} :
    (tearDown env phase body w).world.canceledAt = w.canceledAt := by
  cases body with
  | none => rfl
  | some body =>
    obtain ⟨text, hreply⟩ := hprompt (setupCall body) w.target
    simp [tearDown, Part.called, Part.arrived, World.post, World.receive, hreply, Reply.ofResponse]

end

theorem Phase.startOf_le_spanOf (p : Phase) (k : Nat) : p.startOf k ≤ p.spanOf k := by
  rw [startOf, spanOf]
  induction p.workers.take k with
  | nil => exact Nat.le_refl _
  | cons g gs ih =>
    simp only [List.map_cons, List.sum_cons]
    split <;> omega

theorem sum_take_add_le {l : List Nat} {k n : Nat} (h : l[k]? = some n) :
    (l.take k).sum + n ≤ l.sum := by
  induction l generalizing k with
  | nil => simp at h
  | cons m l ih =>
    cases k with
    | zero =>
      cases h
      simp
    | succ k =>
      have hrest := ih h
      rw [List.take_succ_cons, List.sum_cons, List.sum_cons]
      omega

theorem Phase.spanOf_add_le {p : Phase} {k : Nat} {g : WorkerGroup} (hg : p.workers[k]? = some g) :
    p.spanOf k + g.duration.nanos ≤ p.span := by
  rw [span, spanOf, spanOf, List.take_length, List.map_take]
  exact sum_take_add_le (by rw [List.getElem?_map, hg]; rfl)

namespace Campaign

variable {σ : Type} {env : Environment σ} {turns : Nat} {c : Campaign} {i number k : Nat}
  {w after : World σ} {result : ExecutionResult} {x : Execution} {p : Phase} {g : WorkerGroup}
  {plan : Plan} {settings : RunSettings} {events : List LogEvent} {selector : Selector}
  {s : RunState σ}

open RunState

theorem stays_take_groups (hp : c.plan.phases[i]? = some p) (k : Nat) :
    GroupRun.stays ((c.groups i).take k) = p.startOf k := by
  rw [GroupRun.stays, List.map_take, map_groups hp
    (fun g => if g.instances = 0 then 0 else g.duration.nanos) fun _ _ _ => rfl, ← List.map_take]
  rfl

theorem undisturbed_of_starts (hc : c.Ready) (hstarts : s.Starts c none i)
    (hcanceled : s.world.canceledAt = none) :
    Undisturbed (c.phaseDeadline i none s.world) s.world where
  live := hc.live_of_starts hstarts
  canceledAt := hcanceled
  range := by
    intro d hd
    simp only [phaseDeadline, World.within, earliest?_none_left, Instant.after?] at hd
    split at hd
    · next hlt =>
      cases hd
      exact hlt
    · cases hd

theorem execute_canceledAt (hprompt : env.target.Prompt)
    (hw : Undisturbed (c.phaseDeadline i none w) w)
    (hpos : ∀ run ∈ c.groups i, 0 < run.duration.nanos) (hsetup : (c.requests i).setup = none)
    (h : c.execute env turns i number none w = some (result, after)) : after.canceledAt = none := by
  obtain ⟨work, hworks, -, rfl⟩ := works_of_execute hw.live hsetup h
  rw [tearDown_canceledAt hprompt]
  exact hworks.canceledAt_eq_none hprompt hw hpos

theorem canceledAt_of_reaches (hprepare : prepare plan settings = (events, .ok c))
    (hprompt : env.target.Prompt) (hsetup : ∀ p ∈ c.plan.phases, p.setup = none)
    (hcanceled : w.canceledAt = none)
    (hs : Reaches env turns c none (start c selector w) s) : s.world.canceledAt = none := by
  have hc := ready_of_prepare hprepare
  induction hs with
  | refl => exact hcanceled
  | @next s t hs hround ih =>
    obtain ⟨hstarts, x, hexecute, -⟩ := (((due_start hc selector w).reaches hs).proceeds
      hround).next_cases
    have hp := List.getElem?_eq_getElem (hc.starts_within hs hstarts).1
    exact execute_canceledAt hprompt (undisturbed_of_starts hc hstarts ih) (groups_pos hprepare hp)
      (setup_eq_none hp (hsetup _ (List.getElem_mem _))) hexecute

/-- What the groups of an undisturbed execution get to do. -/
theorem execute_serves (hprepare : prepare plan settings = (events, .ok c))
    (hprompt : env.target.Prompt) (hp : c.plan.phases[i]? = some p) (hsetup : p.setup = none)
    (hw : Undisturbed (c.phaseDeadline i none w) w)
    (h : c.execute env turns i number none w = some (result, after))
    (hx : result.execution? = some x) (hg : p.workers[k]? = some g) :
    p.Serves k g (c.budget.phase i) x := by
  obtain ⟨work, hworks, hexecution, -⟩ := works_of_execute hw.live (setup_eq_none hp hsetup) h
  rw [hx] at hexecution
  cases hexecution
  have hrun : (c.groups i)[k]? = some (c.groupRun p p.workBody k g) := by
    have hbody : (c.requests i).workload = p.workBody := by
      simp [requests, Requests.ofPhase, List.getD_eq_getElem?_getD, hp, Phase.workBody]
    rw [groups_eq hp, hbody, List.getElem?_mapIdx, hg]
    rfl
  have hdelay : ∀ run ∈ c.groups i, run.delay < run.duration := by
    intro run hrun
    obtain ⟨g, hg, -, hduration, hdelay⟩ := mem_groups hp hrun
    rw [hduration, hdelay]
    exact (bounds_of_prepare hprepare hp g hg).2.2
  refine ⟨fun hbefore number hleast hmost => ?_, fun hlate hlimit => ?_⟩
  · refine hworks.serves hprompt hw hdelay hrun (fun d hd => ?_) ⟨hleast, hmost⟩
    rw [stays_take_groups hp]
    simp only [phaseDeadline, World.within, earliest?_none_left, Instant.after?] at hd
    split at hd
    · cases hd
      exact Nat.add_lt_add_left hbefore _
    · cases hd
  · have hplaces : ∀ j run, (c.groups i)[j]? = some run → run.name.group = 1 + j := by
      intro j run hj
      rw [groups_eq hp, List.getElem?_mapIdx] at hj
      obtain ⟨g', -, rfl⟩ := Option.map_eq_some_iff.mp hj
      exact Nat.add_comm j 1
    have hrange : w.now + (c.budget.phase i).nanos < Instant.limit :=
      Nat.lt_of_le_of_lt (Nat.add_le_add_left hlate _) hlimit
    rw [Nat.add_comm k 1]
    refine hworks.starves hprompt hw (groups_pos hprepare hp) hplaces hrun
      ⟨_, phaseDeadline_eq hrange (by simp), ?_⟩ ?_
    · rw [stays_take_groups hp]
      exact Nat.add_le_add_left hlate _
    · rw [stays_take_groups hp]
      exact hlimit

/-- Without a runtime, no group has to wait so long that its first pause is not over in time, if all
groups together keep to the bounds of a phase. -/
theorem startOf_add_delay_lt (hprepare : prepare plan settings = (events, .ok c))
    (hruntime : settings.runtime = none) (hp : c.plan.phases[i]? = some p)
    (hfits : p.span ≤ settings.limits.maxPhase.nanos) (hg : p.workers[k]? = some g) :
    p.startOf k + g.delay.nanos < (c.budget.phase i).nanos := by
  have hmem := List.mem_of_getElem? hg
  have hdelay : g.delay.nanos < g.duration.nanos := (bounds_of_prepare hprepare hp g hmem).2.2
  have hstart := p.startOf_le_spanOf k
  have hspan := Phase.spanOf_add_le hg
  rw [phase_eq_span hprepare hruntime hp (List.ne_nil_of_mem hmem) hfits]
  omega

theorem delays_pos (hdelay : ∀ p ∈ c.plan.phases, ∀ g ∈ p.workers, 0 < g.delay.nanos) :
    ∀ i, ∀ run ∈ c.groups i, 0 < run.delay.nanos := by
  intro i run hrun
  cases hp : c.plan.phases[i]? with
  | none =>
    rw [groups, List.getD_eq_getElem?_getD, hp] at hrun
    cases hrun
  | some p =>
    obtain ⟨g, hg, -, -, heq⟩ := mem_groups hp hrun
    rw [heq]
    exact hdelay p (List.mem_of_getElem? hp) g hg

/-- An undisturbed run, with pauses before all calls, comes to its end in the range of the clock. In
each of its executions, every worker whose first pause is over before the budget of the phase is
sends a request, and no other one does as far as the clock can show. Without a runtime, that is
every worker of every phase of which the groups together keep to the bounds of a phase. -/
theorem run_serves_workers (hprepare : prepare plan settings = (events, .ok c))
    (env : Environment σ) (hprompt : env.target.Prompt) (hsetup : ∀ p ∈ c.plan.phases, p.setup = none)
    (hdelay : ∀ p ∈ c.plan.phases, ∀ g ∈ p.workers, 0 < g.delay.nanos)
    (htimeout : settings.runTimeout = none) (hcanceled : w.canceledAt = none)
    (selector : Selector) :
    (w.now + c.longest < Instant.limit →
      ∃ enough, ∀ turns, enough ≤ turns → ∃ o, c.run env turns selector none w = some o) ∧
    ∀ turns o, c.run env turns selector none w = some o → ∀ x ∈ o.executions,
      ∀ p, c.plan.phases[x.phase]? = some p → ∀ k g, p.workers[k]? = some g →
        p.Serves k g (c.budget.phase x.phase) x ∧
        (settings.runtime = none → p.span ≤ settings.limits.maxPhase.nanos →
          p.startOf k + g.delay.nanos < (c.budget.phase x.phase).nanos) := by
  have hc := ready_of_prepare hprepare
  have hdeadline : c.deadline none w = none := by
    rw [deadline, settings_of_prepare hprepare, htimeout]
  refine ⟨fun hlimit => ⟨c.enoughTurns, fun turns hturns => ?_⟩, fun turns o h => ?_⟩
  · exact hc.exists_run (fun i run hrun st => Nat.lt_of_lt_of_le (delays_pos hdelay i run hrun)
      (Nat.le_add_right _ _)) (hc.staysInRange hprompt.honours hlimit turns selector none) hturns
  · intro x hx p hp k g hg
    obtain ⟨earlier, later, hsplit⟩ := List.append_of_mem hx
    refine ⟨?_, fun hruntime hfits => startOf_add_delay_lt hprepare hruntime hp hfits hg⟩
    refine hc.forall_executions (P := fun _ x => c.plan.phases[x.phase]? = some p →
      p.Serves k g (c.budget.phase x.phase) x) ?_ h earlier x later hsplit hp
    intro s result x after hs _ hstarts hexecute hx hp
    rw [hdeadline] at hs hstarts hexecute
    rw [(place_of_execute hexecute x hx).1] at hp ⊢
    exact execute_serves hprepare hprompt hp (hsetup p (List.mem_of_getElem? hp))
      (undisturbed_of_starts hc hstarts
        (canceledAt_of_reaches hprepare hprompt hsetup hcanceled hs)) hexecute hx hg

def hurriedRelay : Campaign :=
  match prepare ⟨.sequence, [relayPhase]⟩ { RunSettings.standard with runtime := some (.ofSecs 101) } with
  | (_, .ok c) => c
  | (_, .error _) => relay

/-- The workers of its second group have paused after 100 s, which is just in time. -/
theorem relay_serves_workers :
    (∃ events, prepare ⟨.sequence, [relayPhase]⟩
      { RunSettings.standard with runtime := some (.ofSecs 101) } = (events, .ok hurriedRelay)) ∧
    (Target.steady .zero).Prompt ∧ (∀ p ∈ hurriedRelay.plan.phases, p.setup = none) ∧
    (∀ p ∈ hurriedRelay.plan.phases, ∀ g ∈ p.workers, 0 < g.delay.nanos) ∧
    hurriedRelay.budget.phase 0 = .ofSecs 101 ∧
    ∃ o, hurriedRelay.run (.orderly (.steady .zero)) 100 .sequence none (.start () none) = some o ∧
      o.executions.map (·.phase) = [0] ∧
      ∀ x ∈ o.executions, ∀ number, 1 ≤ number → number ≤ 2 →
        ∃ e ∈ x.work, e.event = .called (.worker 2 number) ⟨"\x7b\x7d", some (.ofSecs 1)⟩ := by
  obtain ⟨events, hprepare⟩ : ∃ events, prepare ⟨.sequence, [relayPhase]⟩
      { RunSettings.standard with runtime := some (.ofSecs 101) } = (events, .ok hurriedRelay) :=
    ⟨_, rfl⟩
  have hprompt : (Target.steady .zero).Prompt := fun _ _ => ⟨[], rfl⟩
  have hsetup : ∀ p ∈ hurriedRelay.plan.phases, p.setup = none := by
    intro p hp
    obtain rfl := List.mem_singleton.mp hp
    rfl
  have hdelay : ∀ p ∈ hurriedRelay.plan.phases, ∀ g ∈ p.workers, 0 < g.delay.nanos := by
    intro p hp
    obtain rfl := List.mem_singleton.mp hp
    decide
  have hcheck : (hurriedRelay.run (.orderly (.steady .zero)) 100 .sequence none (.start () none)).map
      (fun o => o.executions.map (·.phase)) = some [0] := by decide +kernel
  obtain ⟨o, hrun, hphases⟩ := Option.map_eq_some_iff.mp hcheck
  refine ⟨⟨events, hprepare⟩, hprompt, hsetup, hdelay, rfl, o, hrun, hphases, fun x hx => ?_⟩
  have hphase : x.phase = 0 := by
    have hmem := List.mem_map_of_mem (f := fun x : Execution => x.phase) hx
    rw [hphases] at hmem
    exact List.mem_singleton.mp hmem
  have hp : hurriedRelay.plan.phases[x.phase]? = some relayPhase := by
    rw [hphase]
    rfl
  have hserves := (run_serves_workers hprepare (.orderly (.steady .zero)) hprompt hsetup hdelay rfl
    (w := .start () none) rfl .sequence).2 100 o hrun x hx relayPhase hp 1 _ rfl
  refine hserves.1.calls ?_
  rw [hphase]
  decide +kernel

/-- A phase of 120 s of which the worker pauses for 90 s before each call. -/
def leisurely : Plan :=
  { pattern := .sequence
    phases := [
      { name := "leisure", workers := [⟨1, .ofSecs 120, .ofSecs 90, .ofSecs 1⟩], setup := none,
        workload := none, teardown := none, repeats := 1 }] }

def hurriedLeisure : Campaign :=
  match prepare leisurely { RunSettings.standard with runtime := some (.ofSecs 60) } with
  | (_, .ok c) => c
  | (_, .error _) => relay

/-- A plan that is accepted, with a runtime that its executions can keep to, but leaves its only
worker no time for a request. -/
theorem hurried_worker_starves :
    (∃ events, prepare leisurely { RunSettings.standard with runtime := some (.ofSecs 60) } =
      (events, .ok hurriedLeisure)) ∧
    (Target.steady .zero).Prompt ∧ (∀ p ∈ hurriedLeisure.plan.phases, p.setup = none) ∧
    (∀ p ∈ hurriedLeisure.plan.phases, ∀ g ∈ p.workers, 0 < g.delay.nanos) ∧
    hurriedLeisure.settings.runTimeout = none ∧
    ∃ o x, hurriedLeisure.run (.orderly (.steady .zero)) 100 .sequence none (.start () none) =
        some o ∧
      o.executions = [x] ∧
      hurriedLeisure.plan.phases[x.phase]?.map (·.workers.map (·.instances)) = some [1] ∧
      ∀ e ∈ x.work, ∀ who call, e.event ≠ .called who call := by
  have hgroups : ∀ p ∈ hurriedLeisure.plan.phases,
      p.setup = none ∧ ∀ g ∈ p.workers, 0 < g.delay.nanos := by
    intro p hp
    obtain rfl := List.mem_singleton.mp hp
    exact ⟨rfl, by decide⟩
  have hcheck : (hurriedLeisure.run (.orderly (.steady .zero)) 100 .sequence none
      (.start () none)).map (fun o => o.executions.map fun x => (x.phase, x.work.calls)) =
        some [(0, [])] := by decide +kernel
  obtain ⟨o, hrun, hcalls⟩ := Option.map_eq_some_iff.mp hcheck
  obtain ⟨x, hx, hnone⟩ := List.map_eq_singleton_iff.mp hcalls
  refine ⟨⟨_, rfl⟩, fun _ _ => ⟨[], rfl⟩, fun p hp => (hgroups p hp).1,
    fun p hp => (hgroups p hp).2, rfl, o, x, hrun, hx, ?_, ?_⟩
  · rw [(Prod.mk.inj hnone).1]
    rfl
  intro e he who call hcall
  have hmem : (e.instant, call) ∈ x.work.calls :=
    List.mem_filterMap.mpr ⟨e, he, by simp [hcall]⟩
  rw [(Prod.mk.inj hnone).2] at hmem
  cases hmem

end Campaign

end PhasedLoad
