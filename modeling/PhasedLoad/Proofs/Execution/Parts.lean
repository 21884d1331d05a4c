import PhasedLoad.Proofs.Group.Roster
import PhasedLoad.Run.Execution

/-! The parts of an execution: how a setup, the groups and a teardown lead from one world to
another, what they call for, and with which of them an execution is cut short. -/

namespace PhasedLoad

/-- The start of an execution, a call, or a summary. -/
def Event.isMark : Event → Bool
  | called .. | summarized _ | logged (.phaseStarting ..) => true
  | _ => false

theorem Event.isMark_of_isLine {event : Event} (h : event.isLine = true) :
    event.isMark = false := by
  cases event with
  | logged line => cases line <;> simp_all [isLine, isMark]
  | _ => simp [isLine] at h

namespace History

variable {h h' : History} {e : Entry}

def marks (h : History) : List Event := (h.map (·.event)).filter Event.isMark

@[simp] theorem marks_nil : marks [] = [] := rfl

@[simp] theorem marks_append (h h' : History) : marks (h ++ h') = marks h ++ marks h' := by
  simp [marks]

theorem marks_cons (e : Entry) (h : History) :
    marks (e :: h) = if e.event.isMark then e.event :: marks h else marks h := by
  simp [marks, List.filter_cons]

theorem mem_marks {event : Event} :
    event ∈ marks h ↔ event.isMark = true ∧ ∃ e ∈ h, e.event = event := by
  simp [marks, and_comm]

theorem marks_flatMap {α : Type} (f : α → History) (l : List α) :
    marks (l.flatMap f) = l.flatMap fun a => marks (f a) := by
  induction l with
  | nil => rfl
  | cons a l ih => simp [ih]

theorem marks_of_lines (hh : ∀ e ∈ h, e.event.isLine = true) : marks h = [] := by
  simp only [marks, List.filter_eq_nil_iff, List.forall_mem_map]
  exact fun e he => by simp [Event.isMark_of_isLine (hh e he)]

end History

namespace Part

variable {σ : Type} {w : World σ}

theorem isLine_of_mem_logged {lines : List LogEvent}
    (hlines : ∀ line ∈ lines, (Event.logged line).isLine = true) :
    ∀ e ∈ lines.map (Part.logged w), e.event.isLine = true := by
  intro e he
  obtain ⟨line, hline, rfl⟩ := List.mem_map.mp he
  exact hlines line hline

theorem passage_logged {lines : List LogEvent}
    (hlines : ∀ line ∈ lines, (Event.logged line).isLine = true) :
    Passage w (lines.map (Part.logged w)) w := by
  refine .linesNow w (isLine_of_mem_logged hlines) ?_
  intro e he
  obtain ⟨line, -, rfl⟩ := List.mem_map.mp he
  rfl

theorem arrived_cases {who : Caller} {since due : Instant} {reply : Reply}
    {stopped : World σ → Option StopReason} {entry : Entry} {after : World σ}
    (h : arrived who since due reply stopped w = (entry, after)) :
    after = (w.advance due).receive reply ∧
      entry = ⟨after.now, .answered who (Instant.elapsed since after.now) reply (stopped after)⟩ := by
  cases h
  exact ⟨rfl, rfl⟩

theorem passage_arrived {who : Caller} {since due : Instant} {reply : Reply}
    {stopped : World σ → Option StopReason} {entry : Entry} {after : World σ}
    (h : arrived who since due reply stopped w = (entry, after)) {lines : List LogEvent}
    (hlines : ∀ line ∈ lines, (Event.logged line).isLine = true) :
    Passage w (entry :: lines.map (Part.logged after)) after := by
  obtain ⟨rfl, rfl⟩ := arrived_cases h
  rw [World.receive_now]
  exact (Passage.advance w due).trans ((Passage.answered (w.advance due) who _ reply _).trans
    (passage_logged hlines))

end Part

namespace World

variable {σ : Type} {w : World σ} {t : Instant}

theorem Before.post (h : w.Before t) (env : Environment σ) (call : Call) :
    (w.post env call).2.Before t := h

theorem stopAt_none_or_lt {deadline : Option Instant} {due : Instant}
    (h : (w.stopAt deadline).filter (· ≤ due) = none) : ∀ stop ∈ w.stopAt deadline, due < stop := by
  intro stop hstop
  rw [Option.mem_def] at hstop
  simpa [hstop, Option.filter_eq_none_iff] using h

end World

section SetUp

variable {σ : Type} {env : Environment σ} {deadline : Option Instant} {w : World σ}
  {body : Option String} {setup : Part SetupResult σ} {t : Instant}

/-- The ways a setup goes that starts before its phase has stopped. -/
inductive SetsUp (env : Environment σ) (deadline : Option Instant) (w : World σ) :
    Option String → Part SetupResult σ → Prop
  | absent : SetsUp env deadline w none ⟨.ready, [], w⟩
  /-- The phase stops before the reply is here. -/
  | stopped (body : String) {stop : Instant} {reason : StopReason}
      (stops : w.stopAt deadline = some stop)
      (because : ((w.post env (setupCall body)).2.advance stop).stopReason deadline = some reason) :
      SetsUp env deadline w (some body)
        ⟨.stopped reason,
          [Part.logged w .setupStarting, ⟨w.now, .called .setup (setupCall body)⟩],
          (w.post env (setupCall body)).2.advance stop⟩
  | answered (body : String) {reply : Reply} {due : Instant} {entry : Entry} {after : World σ}
      (early : ∀ stop ∈ w.stopAt deadline, due < stop)
      (arrives : Part.arrived .setup w.now due reply (·.stopReason deadline)
        (w.post env (setupCall body)).2 = (entry, after)) :
      SetsUp env deadline w (some body)
        ⟨.ofOutcome reply.outcome,
          Part.logged w .setupStarting :: ⟨w.now, .called .setup (setupCall body)⟩ :: entry ::
            (SetupResult.events reply.outcome).map (Part.logged after),
          after⟩

theorem setUp_cases (env : Environment σ) (body : Option String)
    (hlive : w.stopReason deadline = none) :
    SetsUp env deadline w body (setUp env body deadline w) := by
  cases body with
  | none => exact .absent
  | some body =>
    simp only [setUp, hlive, Part.called]
    split
    · next stop hstop =>
      obtain ⟨hstops, -⟩ := Option.filter_eq_some_iff.mp hstop
      have hne : ((w.post env (setupCall body)).2.advance stop).stopReason deadline ≠ none := by
        intro hnone
        rw [World.stopReason, StopReason.observe_eq_none_iff] at hnone
        exact Nat.not_lt.mpr (Nat.le_max_right w.now stop) (hnone stop hstops)
      obtain ⟨reason, hreason⟩ := Option.ne_none_iff_exists'.mp hne
      rw [hreason]
      exact .stopped body hstops hreason
    · next hnone =>
      exact .answered body (World.stopAt_none_or_lt hnone) rfl

theorem SetupResult.isLine_of_mem_events {outcome : Outcome} :
    ∀ line ∈ events outcome, (Event.logged line).isLine = true := by
  cases outcome with
  | response r =>
    unfold events
    split <;> simp [Event.isLine]
  | _ => simp [events]

theorem SetsUp.passage (hs : SetsUp env deadline w body setup)
    (hlive : ∀ c ∈ w.canceledAt, w.now < c) : Passage w setup.history setup.world := by
  have hcall : ∀ body : String, Passage w
      [Part.logged w .setupStarting, ⟨w.now, .called .setup (setupCall body)⟩]
      (w.post env (setupCall body)).2 := fun body =>
    (Passage.note w (.logged .setupStarting) rfl (by simp [Event.opens])).trans
      ((Passage.note w (.called .setup (setupCall body)) rfl fun _ => hlive).trans
        (.post w env (setupCall body)))
  cases hs with
  | absent => exact .refl w
  | stopped body _ _ => exact (hcall body).trans (.advance _ _)
  | answered body _ harrives =>
    exact (hcall body).trans (Part.passage_arrived harrives SetupResult.isLine_of_mem_events)

theorem SetsUp.before (hs : SetsUp env deadline w body setup) (h : w.Before t) :
    setup.world.Before t := by
  cases hs with
  | absent => exact h
  | stopped body hstops _ =>
    refine (h.post env (setupCall body)).advance fun c hc => ?_
    obtain ⟨stop, hstop, hle⟩ := earliest?_le (a := deadline) hc
    obtain rfl : stop = _ := Option.mem_unique hstop hstops
    exact hle
  | answered body hearly harrives =>
    obtain ⟨rfl, -⟩ := Part.arrived_cases harrives
    exact ((h.post env (setupCall body)).advance fun c hc =>
      Nat.le_of_lt ((earliest?_forall_lt.mp hearly).2 c hc)).receive _

theorem SetsUp.stopReason_eq (hs : SetsUp env deadline w body setup) {reason : StopReason}
    (h : setup.result = .stopped reason) : setup.world.stopReason deadline = some reason := by
  cases hs with
  | absent => cases h
  | stopped _ _ hbecause =>
    cases h
    exact hbecause
  | @answered _ reply _ _ _ _ _ =>
    cases ho : reply.outcome <;> simp [SetupResult.ofOutcome, ho] at h

theorem SetsUp.now_lt (hs : SetsUp env deadline w body setup)
    (hlive : ∀ c ∈ w.canceledAt, w.now < c) (h : ∀ reason, setup.result ≠ .stopped reason) :
    ∀ c ∈ w.canceledAt, setup.world.now < c := by
  cases hs with
  | absent => exact hlive
  | stopped _ _ _ => exact absurd rfl (h _)
  | answered body hearly harrives =>
    obtain ⟨rfl, -⟩ := Part.arrived_cases harrives
    intro c hc
    rw [World.receive_now]
    exact Nat.max_lt.mpr ⟨hlive c hc, (earliest?_forall_lt.mp hearly).2 c hc⟩

theorem SetsUp.marks (hs : SetsUp env deadline w body setup) :
    setup.history.marks = body.toList.map fun b => .called .setup (setupCall b) := by
  cases hs with
  | absent => rfl
  | stopped body _ _ => rfl
  | @answered body reply _ entry after _ harrives =>
    obtain ⟨-, rfl⟩ := Part.arrived_cases harrives
    simp only [History.marks_cons, History.marks_of_lines
      (Part.isLine_of_mem_logged SetupResult.isLine_of_mem_events)]
    rfl

/-- The setup of this history got a response, if there is one. -/
def History.Answered (h : History) : Prop :=
  ∃ e ∈ h, ∃ took reply stopped r, e.event = .answered .setup took reply stopped ∧
    reply.outcome = .response r

theorem SetsUp.answered_of_ready (hs : SetsUp env deadline w body setup)
    (h : setup.result = .ready) : body = none ∨ setup.history.Answered := by
  cases hs with
  | absent => exact .inl rfl
  | stopped _ _ _ => cases h
  | @answered _ reply _ entry after _ harrives =>
    obtain ⟨-, rfl⟩ := Part.arrived_cases harrives
    cases ho : reply.outcome with
    | response r =>
      exact .inr ⟨_, List.mem_cons_of_mem _ (List.mem_cons_of_mem _ List.mem_cons_self),
        _, reply, _, r, rfl, ho⟩
    | failure f => simp [SetupResult.ofOutcome, ho] at h
    | panic text => simp [SetupResult.ofOutcome, ho] at h

end SetUp

section Work

variable {σ : Type} {env : Environment σ} {turns : Nat} {name : String}
  {deadline : Option Instant} {w : World σ} {runs : List GroupRun} {stats : Statistics}
  {work : Part (PhaseEnd × Statistics) σ}

/-- The groups of a phase, one after the other, with what each of them comes to. -/
inductive Works (env : Environment σ) (turns : Nat) (name : String) (deadline : Option Instant) :
    List GroupRun → World σ → Statistics → Part (PhaseEnd × Statistics) σ → Prop
  | nil (w : World σ) (stats : Statistics) :
      Works env turns name deadline [] w stats ⟨(.workersFinished, stats), [], w⟩
  /-- The phase has stopped by the end of a group. -/
  | stopped {run : GroupRun} {w : World σ} {stats : Statistics} {out : GroupOutcome σ}
      {reason : StopReason} (runs : List GroupRun)
      (performed : run.perform env turns deadline w stats = some out)
      (because : out.world.stopReason deadline = some reason) :
      Works env turns name deadline (run :: runs) w stats
        ⟨(.ofReason reason, out.stats),
          out.history ++ [Part.logged out.world (.phaseStopped name reason)], out.world⟩
  | next {run : GroupRun} {runs : List GroupRun} {w : World σ} {stats : Statistics}
      {out : GroupOutcome σ} {rest : Part (PhaseEnd × Statistics) σ}
      (performed : run.perform env turns deadline w stats = some out)
      (live : out.world.stopReason deadline = none)
      (works : Works env turns name deadline runs out.world out.stats rest) :
      Works env turns name deadline (run :: runs) w stats
        ⟨rest.result, out.history ++ rest.history, rest.world⟩

theorem workGroups_cases (h : workGroups env turns name deadline runs w stats = some work) :
    Works env turns name deadline runs w stats work := by
  induction runs generalizing w stats work with
  | nil =>
    cases h
    exact .nil w stats
  | cons run runs ih =>
    simp only [workGroups, Option.bind_eq_bind, Option.bind_eq_some_iff] at h
    obtain ⟨out, hperform, h⟩ := h
    split at h
    · next reason hreason =>
      cases h
      exact .stopped runs hperform hreason
    · next hlive =>
      obtain ⟨rest, hrest, h⟩ := Option.bind_eq_some_iff.mp h
      cases h
      exact .next hperform hlive (ih hrest)

theorem Works.passage (hw : Works env turns name deadline runs w stats work) :
    Passage w work.history work.world ∧ ∀ t, w.Before t → work.world.Before t := by
  induction hw with
  | nil => exact ⟨.refl _, fun _ h => h⟩
  | stopped runs hperform _ =>
    obtain ⟨hpassage, hbefore⟩ := GroupRun.perform_passage hperform
    exact ⟨hpassage.trans (.note _ _ rfl (by simp [Event.opens])), hbefore⟩
  | next hperform _ _ ih =>
    obtain ⟨hpassage, hbefore⟩ := GroupRun.perform_passage hperform
    exact ⟨hpassage.trans ih.1, fun t ht => ih.2 t (hbefore t ht)⟩

/-- Groups that are cut short find that the phase has stopped; others, that it has not. -/
theorem Works.ending (hw : Works env turns name deadline runs w stats work) :
    (∃ reason, work.result.1 = .ofReason reason ∧
        work.world.stopReason deadline = some reason) ∨
      work.result.1 = .workersFinished ∧
        (work.world = w ∨ work.world.stopReason deadline = none) := by
  induction hw with
  | nil => exact .inr ⟨rfl, .inl rfl⟩
  | stopped _ _ hbecause => exact .inl ⟨_, rfl, hbecause⟩
  | next _ hlive _ ih =>
    rcases ih with hstopped | ⟨hfinished, hworld | hnone⟩
    · exact .inl hstopped
    · exact .inr ⟨hfinished, .inr (by rw [hworld]; exact hlive)⟩
    · exact .inr ⟨hfinished, .inr hnone⟩

theorem Works.owns (hw : Works env turns name deadline runs w stats work) :
    ∀ e ∈ work.history, e.event.isLine = true ∨ ∃ run ∈ runs, run.Owns e.event := by
  induction hw with
  | nil => simp
  | stopped runs hperform _ =>
    intro e he
    rcases List.mem_append.mp he with he | he
    · exact .inr ⟨_, List.mem_cons_self, GroupRun.perform_owns hperform e he⟩
    · obtain rfl := List.mem_singleton.mp he
      exact .inl rfl
  | next hperform _ _ ih =>
    intro e he
    rcases List.mem_append.mp he with he | he
    · exact .inr ⟨_, List.mem_cons_self, GroupRun.perform_owns hperform e he⟩
    · rcases ih e he with hline | ⟨run, hrun, howns⟩
      · exact .inl hline
      · exact .inr ⟨run, List.mem_cons_of_mem _ hrun, howns⟩

theorem Works.marks (hw : Works env turns name deadline runs w stats work) :
    ∀ event ∈ work.history.marks, ∃ run ∈ runs, ∃ number, run.Has number ∧
      event = .called (.worker run.name.group number) run.call := by
  intro event hevent
  obtain ⟨hmark, e, he, rfl⟩ := History.mem_marks.mp hevent
  have hnotLine : e.event.isLine = true → False := fun hline => by
    simp [Event.isMark_of_isLine hline] at hmark
  rcases hw.owns e he with hline | ⟨run, hrun, hline | ⟨number, hhas, hcalled | hanswered⟩⟩
  · exact (hnotLine hline).elim
  · exact (hnotLine hline).elim
  · exact ⟨run, hrun, number, hhas, hcalled⟩
  · obtain ⟨took, reply, stopped, heq⟩ := hanswered
    simp [heq, Event.isMark] at hmark

end Work

section TearDown

variable {σ : Type} {env : Environment σ} {phase : Nat} {body : Option String} {w : World σ}

theorem isLine_of_mem_teardownEvents {phase : Nat} {outcome : Outcome} :
    ∀ line ∈ teardownEvents phase outcome, (Event.logged line).isLine = true := by
  cases outcome with
  | response r =>
    unfold teardownEvents
    split <;> simp [Event.isLine]
  | _ => simp [teardownEvents, Event.isLine]

theorem tearDown_some (env : Environment σ) (phase : Nat) (body : String) (w : World σ) :
    ∃ (due : Instant) (reply : Reply) (entry : Entry) (after : World σ),
      Part.arrived .teardown w.now due reply (fun _ => none) (w.post env (setupCall body)).2 =
        (entry, after) ∧
      (tearDown env phase (some body) w).world = after ∧
      (tearDown env phase (some body) w).history =
        Part.logged w (.teardownStarting (phase + 1)) ::
          ⟨w.now, .called .teardown (setupCall body)⟩ :: entry ::
          (teardownEvents phase reply.outcome).map (Part.logged after) :=
  ⟨_, _, _, _, rfl, rfl, rfl⟩

theorem tearDown_passage : Passage w (tearDown env phase body w).history
    (tearDown env phase body w).world := by
  cases body with
  | none => exact .refl w
  | some body =>
    obtain ⟨due, reply, entry, after, harrives, rfl, hhistory⟩ := tearDown_some env phase body w
    have hcall : Passage w [Part.logged w (.teardownStarting (phase + 1)),
        ⟨w.now, .called .teardown (setupCall body)⟩] (w.post env (setupCall body)).2 :=
      (Passage.note w (.logged (.teardownStarting (phase + 1))) rfl
        (by simp [Event.opens])).trans
        ((Passage.note w (.called .teardown (setupCall body)) rfl
          (by simp [Event.opens])).trans (.post w env (setupCall body)))
    rw [hhistory]
    exact hcall.trans (Part.passage_arrived harrives isLine_of_mem_teardownEvents)

theorem tearDown_marks : (tearDown env phase body w).history.marks =
    body.toList.map fun b => .called .teardown (setupCall b) := by
  cases body with
  | none => rfl
  | some body =>
    obtain ⟨due, reply, entry, after, harrives, -, hhistory⟩ := tearDown_some env phase body w
    obtain ⟨-, rfl⟩ := Part.arrived_cases harrives
    simp only [hhistory, History.marks_cons, History.marks_of_lines
      (Part.isLine_of_mem_logged isLine_of_mem_teardownEvents)]
    rfl

end TearDown

end PhasedLoad
