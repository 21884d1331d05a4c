import PhasedLoad.Proofs.Group.Pacing

/-! How long a group stays at work: with a worker that nothing ends, up to its deadline. A worker of
it calls for the first time after its first pause, if the group is still at work then. -/

namespace PhasedLoad

/-- A worker ends with this outcome, whenever it comes. -/
def Outcome.isFatal : Outcome → Bool
  | .response _ => false
  | .failure f => f.isFatal
  | .panic _ => true

namespace Event

/-- A reply with which its worker ends, if it comes before the group stops. -/
def dismisses : Event → Bool
  | answered _ _ reply _ => reply.dismisses
  | _ => false

def isFatal : Event → Bool
  | answered _ _ reply _ => reply.outcome.isFatal
  | _ => false

theorem isFatal_or_cancels {event : Event} (h : event.dismisses = true) :
    event.isFatal = true ∨ event.cancels = true := by
  cases event with
  | answered who took reply stopped =>
    simp only [dismisses, Reply.dismisses] at h
    simp only [isFatal, Outcome.isFatal, cancels]
    cases houtcome : reply.outcome <;> simp_all
  | _ => simp [dismisses] at h

end Event

/-- A worker that nothing ends: what it gets is neither a fatal fault nor a breakdown. -/
def History.Spares (who : Caller) (h : History) : Prop :=
  ∀ e ∈ timeline who h, e.event.isFatal = false

/-- What the target settled is what workers get. -/
def Entry.Settled {σ : Type} (env : Environment σ) (run : GroupRun) (e : Entry) : Prop :=
  ∀ who took reply stopped, e.event = .answered who took reply stopped →
    ∃ st, reply = (env.target.post run.call st).1

/-- A worker that called, or will do so first of all at `first`. -/
def Worker.Begins (run : GroupRun) (first : Instant) (v : Worker) (h : History) : Prop :=
  (first ≤ v.due ∧ ∀ e ∈ h, first ≤ e.instant) ∧
    (v.activity = .pausing ∧ v.due = first ∨ ∃ e ∈ h, e.event = .called (run.caller v) run.call)

def Worker.HasBegun (run : GroupRun) (first : Instant) (who : Caller) (h : History) : Prop :=
  (∀ e ∈ h, first ≤ e.instant) ∧ ∃ e ∈ h, e.event = .called who run.call

/-- A worker that has not called yet, or waits for a fatal reply to its first call. -/
def Worker.IsFresh (v : Worker) (h : History) : Prop :=
  match v.activity with
  | .pausing => h = []
  | .awaiting _ reply => reply.outcome.isFatal = true ∧ h.workCalls = 1

namespace GroupState

variable {σ : Type} {env : Environment σ} {run : GroupRun} {deadline : Option Instant}
  {s t : GroupState σ} {v : Worker} {v' : Option Worker} {e : Entry} {first : Instant}

def Dismisses (run : GroupRun) (deadline : Option Instant) (s : GroupState σ) : Prop :=
  Told run (fun _ _ => True)
    (fun _ h => ∃ e ∈ h, (∀ x ∈ deadline, e.instant < x) ∧ e.event.dismisses = true) s

theorem Dismisses.turn (hs : Dismisses run deadline s) (ht : Turn env run deadline s t v e v') :
    Dismisses run deadline t := by
  refine Told.turn hs ht (fun _ _ => trivial) ?_
  intro hnone
  subst hnone
  refine ⟨e, List.mem_append_right _ (List.mem_singleton_self _), ?_, ?_⟩
  · rw [ht.instant]
    exact ht.lt_deadline
  · cases ht.moves with
    | @ends since reply _ huncounted =>
      obtain ⟨stopped, hanswer⟩ := ht.answerOf_eq since reply
      rw [ht.isCounted_eq, Bool.not_eq_false'] at huncounted
      rw [hanswer]
      exact huncounted

def Settles (env : Environment σ) (run : GroupRun) (s : GroupState σ) : Prop :=
  Told run (fun v h => v.Waits env run ∧ ∀ e ∈ h, e.Settled env run)
    (fun _ h => ∀ e ∈ h, e.Settled env run) s

theorem Turn.settled (ht : Turn env run deadline s t v e v') (hwaits : v.Waits env run) :
    e.Settled env run := by
  intro who took reply stopped hanswered
  cases ht.moves with
  | calls => cases hanswered
  | goesOn _ hawaiting =>
    cases hanswered
    exact (hwaits _ _ hawaiting).2
  | ends hawaiting =>
    cases hanswered
    exact (hwaits _ _ hawaiting).2

theorem Settles.turn (hs : Settles env run s) (ht : Turn env run deadline s t v e v') :
    Settles env run t := by
  obtain ⟨hwaits, hsettled⟩ := hs.stands v ht.mem
  have hall : ∀ d ∈ History.timeline (run.caller v) s.past.reverse ++ [e], d.Settled env run := by
    intro d hd
    rcases List.mem_append.mp hd with hd | hd
    · exact hsettled d hd
    · obtain rfl := List.mem_singleton.mp hd
      exact ht.settled hwaits
  refine Told.turn hs ht (fun u hu => ⟨fun since reply hawaiting => ?_, hall⟩) fun _ => hall
  cases ht.moves with
  | calls =>
    cases hu
    cases hawaiting
    exact ⟨rfl, _, rfl⟩
  | goesOn =>
    cases hu
    cases hawaiting
  | ends => cases hu

def Begins (run : GroupRun) (first : Instant) (s : GroupState σ) : Prop :=
  Told run (Worker.Begins run first) (Worker.HasBegun run first) s

theorem Begins.turn (hs : Begins run first s) (ht : Turn env run deadline s t v e v') :
    Begins run first t := by
  obtain ⟨⟨hdue, hsince⟩, hbegun⟩ := hs.stands v ht.mem
  have hall : ∀ d ∈ History.timeline (run.caller v) s.past.reverse ++ [e], first ≤ d.instant := by
    intro d hd
    rcases List.mem_append.mp hd with hd | hd
    · exact hsince d hd
    · obtain rfl := List.mem_singleton.mp hd
      rwa [ht.instant]
  -- A worker that waits for a reply has called before.
  have hearlier : ∀ since reply, v.activity = .awaiting since reply →
      ∃ d ∈ History.timeline (run.caller v) s.past.reverse ++ [e],
        d.event = .called (run.caller v) run.call := by
    intro since reply hawaiting
    obtain ⟨hpausing, -⟩ | ⟨d, hd, hcalled⟩ := hbegun
    · rw [hawaiting] at hpausing
      cases hpausing
    · exact ⟨d, List.mem_append_left _ hd, hcalled⟩
  refine Told.turn hs ht (fun u hu => ⟨⟨?_, hall⟩, .inr ?_⟩) fun hnone => ⟨hall, ?_⟩
  · have hwake := Nat.le_trans hdue (Instant.le_wake v.due run.delay)
    cases ht.moves with
    | calls =>
      cases hu
      rw [ht.now]
      exact Nat.le_trans hdue (Instant.le_wake _ _)
    | goesOn =>
      cases hu
      rwa [ht.now]
    | ends => cases hu
  · cases ht.moves with
    | calls =>
      cases hu
      exact ⟨_, List.mem_append_right _ (List.mem_singleton_self _), rfl⟩
    | goesOn codes hawaiting =>
      cases hu
      exact hearlier _ _ hawaiting
    | ends => cases hu
  · subst hnone
    cases ht.moves with
    | ends hawaiting => exact hearlier _ _ hawaiting

def Fresh (run : GroupRun) (s : GroupState σ) : Prop :=
  Told run (fun v h => v.IsFresh h) (fun _ h => h.workCalls = 1) s

theorem Fresh.turn (hfatal : ∀ st, (env.target.post run.call st).1.outcome.isFatal = true)
    (hs : Fresh run s) (ht : Turn env run deadline s t v e v') : Fresh run t := by
  have hfresh : v.IsFresh _ := hs.stands v ht.mem
  unfold Worker.IsFresh at hfresh
  refine Told.turn hs ht (fun u hu => ?_) fun hnone => ?_
  · cases ht.moves with
    | calls hpausing =>
      cases hu
      rw [hpausing] at hfresh
      have hnone : History.timeline (run.caller v) s.past.reverse = [] := hfresh
      rw [hnone]
      exact ⟨hfatal _, rfl⟩
    | @goesOn since reply codes hawaiting hcounted =>
      -- Nobody goes on after a fatal reply.
      rw [hawaiting] at hfresh
      have hreply := hfresh.1
      rw [isCounted_answerOf] at hcounted
      unfold Outcome.isFatal at hreply
      cases houtcome : reply.outcome <;> simp_all
    | ends => cases hu
  · subst hnone
    cases ht.moves with
    | ends hawaiting =>
      rw [hawaiting] at hfresh
      rw [History.workCalls, List.countP_append]
      exact congrArg (· + 0) hfresh.2

end GroupState

namespace GroupRun

variable {σ : Type} {env : Environment σ} {turns : Nat} {run : GroupRun} {outer : Option Instant}
  {w : World σ} {stats : Statistics} {out : GroupOutcome σ} {stop : Instant} {number : Nat}

open GroupState

theorem perform_crowded (h : run.perform env turns outer w stats = some out)
    (hlive : ∀ c ∈ out.world.canceledAt, ∃ x ∈ w.within outer run.duration, x ≤ c)
    (hhas : run.Has number) (hspared : out.history.Spares (.worker run.name.group number)) :
    ∃ s, Timely w (w.within outer run.duration) s ∧
      Ends run (w.within outer run.duration) s out ∧ s.workers ≠ [] := by
  obtain ⟨s, -, htimely, hends, -, hended⟩ := perform_tells (fun _ _ => True)
    (fun _ h => ∃ e ∈ h, (∀ x ∈ w.within outer run.duration, e.instant < x) ∧
      e.event.dismisses = true)
    (fun _ => trivial) (fun _ _ _ _ _ hs ht => Dismisses.turn hs ht) h
  refine ⟨s, htimely, hends, fun hnone => ?_⟩
  obtain ⟨e, he, hbefore, hdismisses⟩ := hended number hhas (by simp [numbers, hnone])
  rcases Event.isFatal_or_cancels hdismisses with hfatal | hcancels
  · simp [hspared e he] at hfatal
  · obtain ⟨c, hc, hle⟩ := History.cancellation_le_of_mem (c := w.canceledAt)
      (List.mem_filter.mp he).1 hcancels
    rw [← (perform_passage h).1.canceledAt] at hc
    obtain ⟨x, hx, hxc⟩ := hlive c hc
    exact absurd (Nat.le_trans hxc hle) (Nat.not_le_of_lt (hbefore x hx))

/-- A group with a worker that nothing ends works up to its deadline, unless it is cancelled. -/
theorem perform_stays (hdeadline : w.within outer run.duration = some stop) (hstop : w.now < stop)
    (h : run.perform env turns outer w stats = some out)
    (hlive : ∀ c ∈ out.world.canceledAt, stop ≤ c) (hhas : run.Has number)
    (hspared : out.history.Spares (.worker run.name.group number)) :
    out.world.now = stop ∧ out.exit = .stopped .deadlineExceeded := by
  obtain ⟨s, htimely, hends, hworkers⟩ :=
    perform_crowded h (fun c hc => ⟨stop, hdeadline, hlive c hc⟩) hhas hspared
  exact perform_stops hdeadline hstop htimely hends hworkers hlive

theorem perform_within (h : run.perform env turns outer w stats = some out)
    (hlive : out.world.canceledAt = none) (hhas : run.Has number)
    (hspared : out.history.Spares (.worker run.name.group number)) :
    ∃ stop, w.within outer run.duration = some stop := by
  obtain ⟨s, -, hends, hworkers⟩ := perform_crowded h (by simp [hlive]) hhas hspared
  obtain ⟨hnone, -⟩ | ⟨halt, hhalt, -, -, hworld⟩ := hends.ways
  · exact absurd hnone hworkers
  · have hcanceled : s.world.canceledAt = none := by
      rw [hworld, World.advance_canceledAt] at hlive
      exact hlive
    rw [World.stopAt, hcanceled, earliest?_none_right] at hhalt
    exact ⟨halt, hhalt⟩

theorem perform_empty (hnone : run.instances = 0)
    (h : run.perform env turns outer w stats = some out) : out.world = w := by
  obtain ⟨s, -, ⟨hworkers, hworld⟩, hends⟩ := perform_settles
    (P := fun s => s.workers = [] ∧ s.world = w)
    ⟨by simp [startOf, start, log, note, hnone], rfl⟩
    (fun s t v e v' _ hs ht => by
      have hmem := ht.mem
      rw [hs.1] at hmem
      simp at hmem) h
  obtain ⟨-, hout⟩ | ⟨-, -, -, hne, -⟩ := hends.ways
  · rw [hout, hworld]
  · exact absurd hworkers hne

theorem perform_timelines (h : run.perform env turns outer w stats = some out) {e : Entry}
    (he : e ∈ out.history) : e.event.isLine = true ∨ ∃ number, run.Has number ∧
      e ∈ History.timeline (.worker run.name.group number) out.history := by
  rcases perform_owns h e he with hline | ⟨number, hhas, hwork⟩
  · exact .inl hline
  · refine .inr ⟨number, hhas, List.mem_filter.mpr ⟨he, ?_⟩⟩
    rcases hwork with hcalled | ⟨took, reply, stopped, hanswered⟩
    · simp [hcalled, Event.who?]
    · simp [hanswered, Event.who?]

theorem perform_settled (h : run.perform env turns outer w stats = some out) :
    ∀ e ∈ out.history, e.Settled env run := by
  obtain ⟨s, -, -, -, hstands, hended⟩ := perform_tells
    (fun v h => v.Waits env run ∧ ∀ e ∈ h, e.Settled env run)
    (fun _ h => ∀ e ∈ h, e.Settled env run)
    (fun number => ⟨fun since reply h => by simp [GroupRun.worker] at h, by simp⟩)
    (fun _ _ _ _ _ hs ht => Settles.turn hs ht) h
  intro e he
  rcases perform_timelines h he with hline | ⟨number, hhas, hmem⟩
  · intro who took reply stopped hanswered
    simp [hanswered, Event.isLine] at hline
  · by_cases hnumber : number ∈ s.numbers
    · obtain ⟨v, hv, rfl⟩ := List.mem_map.mp hnumber
      exact (hstands v hv).2 e hmem
    · exact hended number hhas hnumber e hmem

/-- No worker does anything before its first pause is over. If the group is still at work then, each
worker calls. -/
theorem perform_begins (h : run.perform env turns outer w stats = some out) (hhas : run.Has number) :
    (∀ e ∈ History.timeline (.worker run.name.group number) out.history,
        Instant.wake w.now run.delay ≤ e.instant) ∧
      (Instant.wake w.now run.delay < out.world.now →
        ∃ e ∈ out.history, e.event = .called (.worker run.name.group number) run.call) := by
  obtain ⟨s, hs, -, hends, hstands, hended⟩ := perform_tells
    (Worker.Begins run (Instant.wake w.now run.delay))
    (Worker.HasBegun run (Instant.wake w.now run.delay))
    (fun _ => ⟨⟨Nat.le_refl _, by simp⟩, .inl ⟨rfl, rfl⟩⟩)
    (fun _ _ _ _ _ hs ht => Begins.turn hs ht) h
  by_cases hnumber : number ∈ s.numbers
  · obtain ⟨v, hv, rfl⟩ := List.mem_map.mp hnumber
    obtain ⟨⟨-, hsince⟩, ⟨-, hdue⟩ | ⟨e, he, hcalled⟩⟩ := hstands v hv
    · refine ⟨hsince, fun hlate => ?_⟩
      have hle := hends.le_due hs hv
      rw [hdue] at hle
      exact absurd hlate (Nat.not_lt_of_le hle)
    · exact ⟨hsince, fun _ => ⟨e, (List.mem_filter.mp he).1, hcalled⟩⟩
  · obtain ⟨hsince, e, he, hcalled⟩ := hended number hhas hnumber
    exact ⟨hsince, fun _ => ⟨e, (List.mem_filter.mp he).1, hcalled⟩⟩

theorem perform_calls_once (h : run.perform env turns outer w stats = some out)
    (hfatal : ∀ st, (env.target.post run.call st).1.outcome.isFatal = true) (number : Nat) :
    (History.timeline (.worker run.name.group number) out.history).workCalls ≤ 1 := by
  obtain ⟨s, -, -, -, hstands, hended⟩ := perform_tells (fun v h => v.IsFresh h)
    (fun _ h => h.workCalls = 1) (fun _ => rfl) (fun _ _ _ _ _ hs ht => Fresh.turn hfatal hs ht) h
  by_cases hhas : run.Has number
  · by_cases hnumber : number ∈ s.numbers
    · obtain ⟨v, hv, rfl⟩ := List.mem_map.mp hnumber
      have hfresh : v.IsFresh _ := hstands v hv
      unfold Worker.IsFresh at hfresh
      split at hfresh
      · have hnone : History.timeline (.worker run.name.group v.number) out.history = [] := hfresh
        rw [hnone]
        decide
      · exact Nat.le_of_eq hfresh.2
    · exact Nat.le_of_eq (hended number hhas hnumber)
  · rw [History.timeline_eq_nil]
    · decide
    · intro e he hwho
      rcases perform_timelines h he with hline | ⟨k, hk, hmem⟩
      · simp [Event.who?_of_isLine hline] at hwho
      · have hother := (List.mem_filter.mp hmem).2
        rw [hwho, decide_eq_true_eq, Option.some.injEq, Caller.worker.injEq] at hother
        exact hhas (hother.2 ▸ hk)

end GroupRun

end PhasedLoad
