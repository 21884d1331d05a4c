import PhasedLoad.Proofs.TimeBound

/-! A run that is cancelled: nothing starts any more but the teardown of the phase in progress, and
the execution in progress ends there and then. -/

namespace PhasedLoad

/-- The place, from one, of the phase in progress: started last, and not torn down. -/
def Event.progress (place : Option Nat) : Event → Option Nat
  | logged (.phaseStarting place _ _ _) => some place
  | called .teardown _ => none
  | _ => place

def Event.isAnswer : Event → Bool
  | answered .. => true
  | _ => false

namespace History

def progress (place : Option Nat) (h : History) : Option Nat :=
  h.foldl (fun place e => e.event.progress place) place

@[simp] theorem progress_nil (place : Option Nat) : progress place [] = place := rfl
@[simp] theorem progress_cons (place : Option Nat) (e : Entry) (h : History) :
    progress place (e :: h) = progress (e.event.progress place) h := rfl
@[simp] theorem progress_append (place : Option Nat) (h h' : History) :
    progress place (h ++ h') = progress (progress place h) h' := List.foldl_append

/-- Only the phase in progress is torn down. -/
def TearsDown (c : Campaign) : Option Nat → History → Prop
  | _, [] => True
  | place, e :: h =>
    (∀ call, e.event = .called .teardown call → ∃ i body, place = some (i + 1) ∧
      (c.requests i).teardown = some body ∧ call = setupCall body) ∧
    TearsDown c (e.event.progress place) h

variable {c : Campaign} {place : Option Nat} {h h' : History} {canceledAt : Option Instant}

theorem tearsDown_append :
    TearsDown c place (h ++ h') ↔ TearsDown c place h ∧ TearsDown c (progress place h) h' := by
  induction h generalizing place with
  | nil => simp [TearsDown]
  | cons e h ih => simp [TearsDown, ih, and_assoc]

theorem tearsDown_trans {place' place'' : Option Nat}
    (hh : TearsDown c place h ∧ progress place h = place')
    (hh' : TearsDown c place' h' ∧ progress place' h' = place'') :
    TearsDown c place (h ++ h') ∧ progress place (h ++ h') = place'' := by
  rw [tearsDown_append, progress_append, hh.2]
  exact ⟨⟨hh.1, hh'.1⟩, hh'.2⟩

theorem tearsDown_of_progress (c : Campaign) (place : Option Nat)
    (hh : ∀ e ∈ h, ∀ place, e.event.progress place = place) :
    TearsDown c place h ∧ progress place h = place := by
  induction h generalizing place with
  | nil => exact ⟨trivial, rfl⟩
  | cons e h ih =>
    simp only [List.forall_mem_cons] at hh
    obtain ⟨htears, hprogress⟩ := ih (e.event.progress place) hh.2
    refine ⟨⟨?_, htears⟩, ?_⟩
    · intro call hcall
      have hplace := hh.1 (some 0)
      simp [hcall, Event.progress] at hplace
    · rw [progress_cons, hprogress, hh.1]

theorem TearsDown.calls (ht : TearsDown c place h) (hh : ∀ e ∈ h, e.event.opens = false) :
    h.calls = [] ∨ ∃ u i body, place = some (i + 1) ∧ (c.requests i).teardown = some body ∧
      h.calls = [(u, setupCall body)] := by
  induction h generalizing place with
  | nil => exact .inl rfl
  | cons e h ih =>
    simp only [List.forall_mem_cons] at hh
    obtain ⟨hcall, ht⟩ := ht
    have hrest := ih ht hh.2
    obtain ⟨instant, event⟩ := e
    cases event with
    | called who call =>
      cases who with
      | teardown =>
        obtain ⟨i, body, rfl, hbody, rfl⟩ := hcall call rfl
        obtain hnone | ⟨u, j, body', hplace, -⟩ := hrest
        · exact .inr ⟨instant, i, body, rfl, hbody, by simpa [calls] using hnone⟩
        · cases hplace
      | setup => simp [Event.opens] at hh
      | worker g k => simp [Event.opens] at hh
    | logged line =>
      cases line with
      | phaseStarting => simp [Event.opens] at hh
      | _ => exact hrest
    | answered who took reply stopped => exact hrest
    | summarized summary => exact hrest

/-- A cancellation that has not come by the end was settled at the start. -/
theorem cancellation_eq_of_lt {now : Instant} (huntil : ∀ e ∈ h, e.instant ≤ now)
    (hlt : ∀ t ∈ cancellation canceledAt h, now < t) : cancellation canceledAt h = canceledAt := by
  induction h generalizing canceledAt with
  | nil => rfl
  | cons e h ih =>
    simp only [List.forall_mem_cons] at huntil
    rw [cancellation_cons] at hlt ⊢
    rw [ih huntil.2 hlt]
    unfold Entry.cancellation
    split
    · next hcancels =>
      obtain ⟨t, ht, hle⟩ : ∃ t ∈ e.cancellation canceledAt, t ≤ e.instant := by
        simp only [Entry.cancellation, hcancels, if_true]
        cases canceledAt with
        | none => exact ⟨_, rfl, Nat.le_refl _⟩
        | some u => exact ⟨_, rfl, Nat.min_le_left _ _⟩
      obtain ⟨u, hu, hut⟩ := cancellation_le h ht
      exact absurd (Nat.lt_of_lt_of_le (hlt u hu) (Nat.le_trans hut (Nat.le_trans hle huntil.1)))
        (Nat.lt_irrefl _)
    · rfl

theorem progress_of_marks (hh : ∀ event ∈ h.marks, ∀ place, event.progress place = place) :
    ∀ e ∈ h, ∀ place, e.event.progress place = place := by
  intro e he place
  cases hmark : e.event.isMark with
  | true => exact hh _ (mem_marks.mpr ⟨hmark, e, he, rfl⟩) place
  | false =>
    cases hevent : e.event with
    | logged line => cases line <;> simp_all [Event.isMark, Event.progress]
    | _ => simp_all [Event.isMark, Event.progress]

end History

namespace Campaign

variable {σ : Type} {env : Environment σ} {turns : Nat} {c : Campaign} {i number : Nat}
  {outer deadline : Option Instant} {w after : World σ} {result : ExecutionResult} {x : Execution}
  {selector : Selector} {plan : Plan} {settings : RunSettings} {events : List LogEvent}

open RunState

theorem tearsDown_tearDown : History.TearsDown c (some (i + 1))
    (tearDown env i (c.requests i).teardown w).history := by
  cases hbody : (c.requests i).teardown with
  | none => trivial
  | some body =>
    obtain ⟨due, reply, entry, after, harrives, -, hhistory⟩ := tearDown_some env i body w
    obtain ⟨-, rfl⟩ := Part.arrived_cases harrives
    have hlines : History.marks ((teardownEvents i reply.outcome).map (Part.logged after)) = [] :=
      History.marks_of_lines (Part.isLine_of_mem_logged isLine_of_mem_teardownEvents)
    rw [hhistory]
    refine ⟨by simp [Part.logged], ?_, by simp, ?_⟩
    · rintro call ⟨⟩
      exact ⟨i, body, rfl, hbody, rfl⟩
    · exact (History.tearsDown_of_progress c _ (History.progress_of_marks (by simp [hlines]))).1

theorem tearsDown_of_execute (hlive : w.stopReason (c.phaseDeadline i outer w) = none)
    (h : c.execute env turns i number outer w = some (result, after)) (place : Option Nat) :
    History.TearsDown c place result.history := by
  have hopening : ∀ setup : Part SetupResult σ,
      SetsUp env (c.phaseDeadline i outer w) w (c.requests i).setup setup →
      History.TearsDown c place (Part.logged w (c.startEvent i number) :: setup.history) ∧
      History.progress place (Part.logged w (c.startEvent i number) :: setup.history) =
        some (i + 1) := by
    intro setup hsets
    obtain ⟨htears, hprogress⟩ := History.tearsDown_of_progress c (some (i + 1))
      (History.progress_of_marks (h := setup.history) (by simp [hsets.marks, Event.progress]))
    exact ⟨⟨by simp [Part.logged], htears⟩, hprogress⟩
  cases execute_cases hlive h with
  | setupPanicked hsets _ => exact (hopening _ hsets).1
  | @summarized setup work _ hsets hpursues hx =>
    have hwork := History.tearsDown_of_progress c (some (i + 1))
      (History.progress_of_marks (h := work.history) (by
        intro event hevent
        obtain ⟨-, run, -, number, -, rfl⟩ := hpursues.marks event hevent
        exact fun _ => rfl))
    have haccount := fun x : Execution =>
      History.tearsDown_of_progress c (some (i + 1))
        (History.progress_of_marks (h := x.account) (by simp [account_marks, Event.progress]))
    rw [ExecutionResult.history_of_execution? hx]
    exact (History.tearsDown_trans (History.tearsDown_trans (History.tearsDown_trans
      (hopening setup hsets) hwork) (haccount _)) ⟨tearsDown_tearDown, rfl⟩).1

/-- From the cancellation on nothing starts, and at most the phase in progress is torn down. -/
theorem Ready.quiet_of_run (hc : c.Ready) {o : RunOutcome σ}
    (h : c.run env turns selector outer w = some o) {before later : History} {t : Instant}
    (hsplit : o.history = before ++ later) (ht : before.cancellation w.canceledAt = some t)
    (hlater : ∀ e ∈ later, t ≤ e.instant) :
    (∀ e ∈ later, e.event.opens = false) ∧
      (later.calls = [] ∨ ∃ u i body, before.progress none = some (i + 1) ∧
        (c.requests i).teardown = some body ∧ later.calls = [(u, setupCall body)]) := by
  have hopens : ∀ e ∈ later, e.event.opens = false := by
    intro e he
    obtain ⟨a, b, rfl⟩ := List.append_of_mem he
    have hquiet := (hc.run_passage h).quiet
    rw [hsplit, History.quiet_append, ht] at hquiet
    obtain ⟨u, hu, hut⟩ := History.cancellation_le a (Option.mem_some_self t)
    cases hopens : e.event.opens with
    | false => rfl
    | true =>
      have hlt := hquiet.2.lt_cancellation hopens u hu
      exact absurd (Nat.lt_of_lt_of_le hlt (Nat.le_trans hut (hlater e he))) (Nat.lt_irrefl _)
  have htears : History.TearsDown c none o.history := by
    refine hc.history_induction (Q := fun h => ∀ place, History.TearsDown c place h) ?_ ?_ ?_ h none
    · intro h hlines place
      exact (History.tearsDown_of_progress c _ (History.progress_of_marks
        (by simp [History.marks_of_lines hlines]))).1
    · exact fun h h' hh hh' place => History.tearsDown_append.mpr ⟨hh _, hh' _⟩
    · exact fun s result after _ hstarts hexecute place =>
        tearsDown_of_execute (hc.live_of_starts hstarts) hexecute place
  rw [hsplit, History.tearsDown_append] at htears
  exact ⟨hopens, htears.2.calls hopens⟩

theorem stopReason_eq_canceled {d : Option Instant} {reason : StopReason}
    (h : w.stopReason d = some reason) (hd : ∀ t ∈ d, w.now < t) : reason = .canceled := by
  unfold World.stopReason StopReason.observe at h
  split at h
  · next hpassed =>
    cases d with
    | none => simp at hpassed
    | some t => exact absurd (hd t rfl) (Nat.not_lt.mpr (by simpa using hpassed))
  · split at h
    · cases h; rfl
    · cases h

/-- An execution with a cancellation before its deadline: a setup that breaks down does so before
it, and setup and groups that have not ended before it end with it. -/
theorem Executes.canceled (h : Executes env turns c i number outer w result after) {t : Instant}
    (ht : w.canceledAt = some t) (hlt : w.now < t)
    (hdeadline : ∀ d ∈ c.phaseDeadline i outer w, t < d) :
    (∀ text history, result = .setupPanicked text history → after.now < t) ∧
      ∀ x ∈ result.execution?, t ≤ x.ended → x.ended = t ∧ x.summary.ending = .canceled ∧
        x.summary.elapsed = Instant.elapsed w.now t ∧ x.setupFault = none := by
  have hlive : ∀ u ∈ w.canceledAt, w.now < u := by simp [ht, hlt]
  cases h with
  | setupPanicked hsets hpanicked =>
    refine ⟨fun text history _ => ?_, by simp [ExecutionResult.execution?]⟩
    exact hsets.now_lt hlive (by simp [hpanicked]) t ht
  | @summarized setup work _ hsets hpursues hx =>
    refine ⟨?_, ?_⟩
    · rintro text history rfl
      cases hx
    intro x hmem hended
    rw [hx] at hmem
    cases hmem
    obtain ⟨u, hu, hut, hnow⟩ := hpursues.passage.2 t
      (hsets.before ⟨t, ht, Nat.le_refl t, Nat.le_of_lt hlt⟩)
    have hat : work.world.now = t := Nat.le_antisymm (Nat.le_trans hnow hut) hended
    have hends : work.result.1 = .canceled ∧ ∀ f, setup.result ≠ .failed f := by
      obtain ⟨reason, hending, hstop, hfailed⟩ | ⟨hresult, hworld | hnone⟩ := hpursues.ending hsets
      · obtain rfl := stopReason_eq_canceled hstop fun d hd => hat ▸ hdeadline d hd
        exact ⟨hending, hfailed⟩
      · have hearly := hsets.now_lt hlive hresult t ht
        rw [← hworld, hat] at hearly
        exact absurd hearly (Nat.lt_irrefl _)
      · have hlater := (World.stopReason_eq_none_iff.mp hnone).2 u hu
        exact absurd (Nat.lt_of_lt_of_le hlater (hat.symm ▸ hut)) (Nat.lt_irrefl _)
    refine ⟨hat, hends.1, ?_, ?_⟩
    · simp [assemble, summaryOf, hat]
    · simp only [assemble]
      split
      · next f hf => exact absurd hf (hends.2 f)
      · rfl

/-- How a run ends whose last execution was cut short by the cancellation. -/
def canceledEnding (result : ExecutionResult) : RunEnding :=
  match result.panic? with
  | none => .failed .canceled
  | some text => .panicked text

theorem run_of_canceled {s : RunState σ}
    (hs : Reaches env turns c (c.deadline outer w) (start c selector w) s)
    (hi : s.Starts c (c.deadline outer w) i)
    (h : c.execute env turns i (s.executions.getD i 0 + 1) (c.deadline outer w) s.world =
      some (result, after))
    (hx : result.execution? = some x) (hending : x.summary.ending = .canceled)
    (hfault : x.setupFault = none) :
    ∃ o, c.run env turns selector outer w = some o ∧ o.ending = canceledEnding result := by
  have hround := round_of_execute hi h
  cases result with
  | setupPanicked text history => cases hx
  | teardownPanicked text y =>
    obtain ⟨o, hrun, ho, -⟩ := run_of_round hs hround
    exact ⟨o, hrun, ho⟩
  | done y =>
    cases hx
    have hconcluded : concludedBy x = some .canceled := by simp [concludedBy, hfault, hending]
    simp only [follow, hconcluded] at hround
    obtain ⟨o, hrun, ho, -⟩ := run_of_round hs hround
    exact ⟨o, hrun, ho⟩

/-- From the moment of the cancellation no execution starts and no call but one for the teardown of
the phase in progress. If the run is cancelled from outside while an execution sets up or works,
before its deadline, that execution is summed up as cancelled at that moment and torn down once, and
the run fails as cancelled, unless the teardown breaks it down. An execution that starts in the
range of the clock comes to its end if the rounds of its workers take time. -/
theorem run_keeps_cancellation (hprepare : prepare plan settings = (events, .ok c))
    (env : Environment σ) (turns : Nat) (selector : Selector) (outer : Option Instant)
    (w : World σ) :
    (∀ o before later t, c.run env turns selector outer w = some o →
      o.history = before ++ later → before.cancellation w.canceledAt = some t →
      (∀ e ∈ later, t ≤ e.instant) →
      (∀ e ∈ later, e.event.opens = false) ∧
      (later.calls = [] ∨ ∃ u i body, before.progress none = some (i + 1) ∧
        (c.requests i).teardown = some body ∧ later.calls = [(u, setupCall body)])) ∧
    (∀ s i result after t, Reaches env turns c (c.deadline outer w) (start c selector w) s →
      s.Starts c (c.deadline outer w) i →
      c.execute env turns i (s.executions.getD i 0 + 1) (c.deadline outer w) s.world =
        some (result, after) →
      w.canceledAt = some t → (∀ d ∈ c.phaseDeadline i (c.deadline outer w) s.world, t < d) →
      (∀ text history, result = .setupPanicked text history → after.now < t) ∧
      ∀ x ∈ result.execution?, t ≤ x.ended →
        x.ended = t ∧ x.summary.ending = .canceled ∧
        x.summary.elapsed = Instant.elapsed s.world.now t ∧
        (∃ p calls, plan.phases[i]? = some p ∧ p.Block c x calls) ∧
        ∃ o, c.run env turns selector outer w = some o ∧ o.ending = canceledEnding result) ∧
    ((∀ i, ∀ run ∈ c.groups i, run.TakesTime env) → c.enoughTurns ≤ turns →
      ∀ s i, Reaches env turns c (c.deadline outer w) (start c selector w) s →
      s.Starts c (c.deadline outer w) i →
      s.world.now + (c.budget.phase i).nanos < Instant.limit →
      ∃ result after, c.execute env turns i (s.executions.getD i 0 + 1) (c.deadline outer w) s.world =
        some (result, after)) := by
  have hc := ready_of_prepare hprepare
  refine ⟨fun o before later t h hsplit ht hlater => hc.quiet_of_run h hsplit ht hlater, ?_,
    ?ends⟩
  case ends =>
    intro htime hturns s i hs hi hrange
    obtain ⟨⟨result, after⟩, hexecute⟩ := hc.exists_execute_of_starts htime hs hi hrange hturns
    exact ⟨result, after, hexecute⟩
  intro s i result after t hs hi hexecute ht hdeadline
  have hlive := hc.live_of_starts hi
  have hcanceled := (World.stopReason_eq_none_iff.mp hlive).2
  have hpassage := hc.passage hs
  have hat : s.world.canceledAt = some t := by
    rw [hpassage.canceledAt] at hcanceled ⊢
    rw [History.cancellation_eq_of_lt hpassage.until_ hcanceled, ht]
  obtain ⟨hpanicked, hended⟩ :=
    (execute_cases hlive hexecute).canceled hat (hcanceled t hat) hdeadline
  refine ⟨hpanicked, ?_⟩
  intro x hx hle
  obtain ⟨hat, hending, helapsed, hfault⟩ := hended x hx hle
  obtain ⟨p, calls, hp, hblock⟩ :=
    block_of_execute hprepare (hc.starts_within hs hi).1 hlive hexecute hx
  rw [(place_of_execute hexecute x hx).1] at hp
  exact ⟨hat, hending, helapsed, ⟨p, calls, hp, hblock⟩,
    run_of_canceled hs hi hexecute hx hending hfault⟩

/-- A worker that calls ten times a second, and a teardown. -/
def lone : Plan :=
  { pattern := .sequence
    phases :=
      [{ name := "p", workers := [⟨1, .ofSecs 1, .ofMillis 100, .ofSecs 1⟩], setup := none,
         workload := none, teardown := some (.string "down"), repeats := 1 }] }

def brief : RunSettings := { RunSettings.standard with limits := ⟨.ofSecs 1, .ofSecs 60, 5⟩ }

def loneReady : Campaign :=
  match prepare lone brief with
  | (_, .ok c) => c
  | (_, .error _) => ⟨lone, brief, .uniform 1, .ofPlan none lone (.uniform 1) brief.limits⟩

theorem prepare_lone : ∃ events, prepare lone brief = (events, .ok loneReady) := ⟨_, rfl⟩

def midway : Instant := 550000000

/-- The lone worker at a target that follows a script, cancelled midway. -/
def interrupted (script : Target.Script) : World Target.Script := .start script (some midway)

theorem lone_starts (script : Target.Script) :
    (start loneReady .sequence (interrupted script)).Starts loneReady
      (loneReady.deadline none (interrupted script)) 0 :=
  ⟨rfl, rfl⟩

theorem lone_canceled :
    (∃ events, prepare lone brief = (events, .ok loneReady)) ∧
    ∃ x : Execution, x.ended = midway ∧ x.summary.ending = .canceled ∧
      ∃ o, loneReady.run (.orderly Target.scripted) 100 .sequence none (interrupted []) = some o ∧
        o.ending = .failed .canceled ∧
        ∀ before later, o.history = before ++ later → before.cancellation (some midway) = some midway →
          (∀ e ∈ later, midway ≤ e.instant) → ∀ e ∈ later, e.event.opens = false := by
  obtain ⟨events, hprepare⟩ := prepare_lone
  have hcheck : (loneReady.execute (.orderly Target.scripted) 100 0 1 none (interrupted [])).any
      (fun p => p.1.panic?.isNone && p.1.execution?.any fun x => midway ≤ x.ended) = true := by
    decide +kernel
  obtain ⟨⟨result, after⟩, hexecute, hresult⟩ := (Option.any_eq_true _ _).mp hcheck
  rw [Bool.and_eq_true, Option.isNone_iff_eq_none] at hresult
  obtain ⟨hpanic, hended⟩ := hresult
  obtain ⟨x, hx, hle⟩ := (Option.any_eq_true _ _).mp hended
  obtain ⟨hquiet, hcanceled, -⟩ := run_keeps_cancellation hprepare (.orderly Target.scripted) 100
    .sequence none (interrupted [])
  obtain ⟨hat, hending, -, -, o, hrun, ho⟩ := (hcanceled _ 0 result after midway (.refl _)
    (lone_starts []) hexecute rfl (by decide +kernel)).2 x hx (by simpa using hle)
  exact ⟨⟨events, hprepare⟩, x, hat, hending, o, hrun, by rw [ho, canceledEnding, hpanic],
    fun before later hsplit ht hlater => (hquiet o before later midway hrun hsplit ht hlater).1⟩

/-- The target breaks down when it is called for the teardown. -/
def brokenTeardown : Target.Script :=
  .ofRules [⟨"down".toList, [⟨.ofMillis 1, false, .panic "boom"⟩]⟩]

/-- A run may be cancelled while the groups of an execution work, before its deadline and when no
call is answered, and yet not fail as cancelled: the teardown breaks it down. -/
theorem canceled_run_breaks_down :
    (∃ events, prepare lone brief = (events, .ok loneReady)) ∧
    ∃ result after x o,
      loneReady.execute (.orderly Target.scripted) 100 0 1 none (interrupted brokenTeardown) =
        some (result, after) ∧ result.execution? = some x ∧
      x.started < midway ∧ midway ≤ x.ended ∧
      (∀ d ∈ loneReady.phaseDeadline 0 none (interrupted brokenTeardown), midway < d) ∧
      (∀ e ∈ x.history, e.event.isAnswer = true → e.instant ≠ midway) ∧
      loneReady.run (.orderly Target.scripted) 100 .sequence none (interrupted brokenTeardown) =
        some o ∧
      o.ending = .panicked "boom" ∧ o.ending ≠ .failed .canceled := by
  have hexecutes : (loneReady.execute (.orderly Target.scripted) 100 0 1 none
      (interrupted brokenTeardown)).any (fun p => p.1.execution?.any fun x =>
        x.started < midway && midway ≤ x.ended && x.history.all fun e =>
          !e.event.isAnswer || e.instant != midway) = true := by
    decide +kernel
  have hends : (loneReady.run (.orderly Target.scripted) 100 .sequence none
      (interrupted brokenTeardown)).map (·.ending) = some (.panicked "boom") := by
    decide +kernel
  obtain ⟨⟨result, after⟩, hexecute, hresult⟩ := (Option.any_eq_true _ _).mp hexecutes
  obtain ⟨x, hx, hcheck⟩ := (Option.any_eq_true _ _).mp hresult
  obtain ⟨o, hrun, ho⟩ := Option.map_eq_some_iff.mp hends
  simp only [Bool.and_eq_true, decide_eq_true_eq, List.all_eq_true] at hcheck
  refine ⟨prepare_lone, result, after, x, o, hexecute, hx, hcheck.1.1, hcheck.1.2,
    by decide +kernel, ?_, hrun, ho, by simp [ho]⟩
  intro e he hanswer
  simpa [hanswer] using hcheck.2 e he

end Campaign

end PhasedLoad
