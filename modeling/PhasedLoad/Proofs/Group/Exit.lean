import PhasedLoad.Proofs.Group.Stay
import PhasedLoad.Proofs.Scope.Nested

/-! How a group ends: with its last worker. A worker ends with a reply of its own or with the scope
of its group, and what ends one worker ends no other. -/

namespace PhasedLoad

theorem earliest?_forall_le {a b : Option Instant} {t : Instant} (ha : ∀ x ∈ a, t ≤ x)
    (hb : ∀ x ∈ b, t ≤ x) : ∀ x ∈ earliest? a b, t ≤ x := by
  cases a <;> cases b <;> simp_all

theorem StopReason.observe_eq_some_iff {deadline canceledAt : Option Instant} {now : Instant}
    {r : StopReason} : observe deadline canceledAt now = some r ↔
      (∃ x ∈ earliest? deadline canceledAt, x ≤ now) ∧
        r = if deadline.any (· ≤ now) then .deadlineExceeded else .canceled := by
  have hfired : (∃ x ∈ earliest? deadline canceledAt, x ≤ now) ↔
      ¬ observe deadline canceledAt now = none := by
    rw [observe_eq_none_iff]
    simp
  rw [hfired]
  unfold observe
  by_cases hd : deadline.any (· ≤ now) = true
  · simp [hd, eq_comm]
  · by_cases hc : canceledAt.any (· ≤ now) = true
    · simp [hd, hc, eq_comm]
    · simp [hd, hc]

/-- How a worker of a group ends that starts at `start`, and when: with a reply of its own, or with
its group, which stops at `stop`. -/
inductive Worker.EndsAt (start : Instant) (stop : Option Instant) (who : Caller) (h : History) :
    Instant → Prop
  | quits {before : History} {e : Entry} (done : History.timeline who h = before ++ [e])
      (goesOn : ∀ d ∈ before, d.event.dismisses = false) (ends : e.event.dismisses = true) :
      EndsAt start stop who h e.instant
  | stops {x : Instant} (goesOn : ∀ d ∈ History.timeline who h, d.event.dismisses = false)
      (stops : x ∈ stop) : EndsAt start stop who h (max start x)

namespace GroupState

variable {σ : Type} {env : Environment σ} {run : GroupRun} {deadline : Option Instant}
  {s t : GroupState σ} {v : Worker} {v' : Option Worker} {e : Entry} {w : World σ} {n : Nat}

def after (env : Environment σ) (run : GroupRun) (deadline : Option Instant) :
    Nat → GroupState σ → GroupState σ
  | 0, s => s
  | n + 1, s => after env run deadline n (s.step env run deadline)

theorem settled?_eq_none_iff : s.settled? run deadline = none ↔
    ∃ v ∈ s.workers, ∀ stop ∈ s.world.stopAt deadline, v.due < stop := by
  unfold settled?
  cases hdue : s.nextDue? with
  | none =>
    have hworkers : s.workers = [] := by simpa [nextDue?] using hdue
    simp [hworkers]
  | some due =>
    obtain ⟨hmem, hmin⟩ := List.min?_eq_some_iff.mp hdue
    obtain ⟨u, hu, hudue⟩ := List.mem_map.mp hmem
    cases hstop : s.world.stopAt deadline with
    | none => simpa using ⟨u, hu⟩
    | some stop =>
      have hmin' : ∀ v ∈ s.workers, due ≤ v.due := fun v hv => hmin _ (List.mem_map_of_mem hv)
      by_cases hle : stop ≤ due
      · have hnone : ∀ v ∈ s.workers, ¬ v.due < stop := fun v hv =>
          Nat.not_lt_of_le (Nat.le_trans hle (hmin' v hv))
        simpa [hle] using hnone
      · have hlt : u.due < stop := hudue ▸ Nat.lt_of_not_le hle
        simpa [hle] using ⟨u, hu, hlt⟩

theorem play_eq_none_iff : s.play env run deadline n = none ↔
    ∀ m ≤ n, (s.after env run deadline m).settled? run deadline = none := by
  induction n generalizing s with
  | zero => simp [play, after]
  | succ n ih =>
    have hsplit : (∀ m ≤ n + 1, (s.after env run deadline m).settled? run deadline = none) ↔
        s.settled? run deadline = none ∧ ∀ m ≤ n,
          ((s.step env run deadline).after env run deadline m).settled? run deadline = none := by
      constructor
      · exact fun h => ⟨h 0 (Nat.zero_le _), fun m hm => h (m + 1) (Nat.succ_le_succ hm)⟩
      · rintro ⟨hzero, hrest⟩ m hm
        cases m with
        | zero => exact hzero
        | succ m => exact hrest m (Nat.le_of_succ_le_succ hm)
    rw [hsplit, ← ih, play]
    cases s.settled? run deadline <;> simp

theorem Turn.countP_isWork (ht : Turn env run deadline s t v e v') :
    t.past.countP (·.event.isWork) = s.past.countP (·.event.isWork) + 1 := by
  obtain ⟨before, after, hlines, hpast⟩ := ht.past
  have hwork : e.event.isWork = true := by
    cases ht.moves <;> rfl
  have hquiet : ∀ {h : History}, (∀ d ∈ h, d.event.isLine = true) →
      h.countP (·.event.isWork) = 0 := fun hh =>
    List.countP_eq_zero.mpr fun d hd => by simp [Event.isWork_of_isLine (hh d hd)]
  have hbefore := hquiet fun d hd => hlines d (List.mem_append_left after hd)
  have hafter := hquiet fun d hd => hlines d (List.mem_append_right before hd)
  rw [← List.countP_reverse, hpast, ← List.countP_reverse (l := s.past)]
  simp [hbefore, hafter, hwork]

theorem Underway.after {P : GroupState σ → Prop} (hs : Underway w run s) (hP : P s)
    (hturn : ∀ s t v e v', Underway w run s → P s → Turn env run deadline s t v e v' → P t)
    (h : ∀ m < n, (s.after env run deadline m).settled? run deadline = none) :
    Underway w run (s.after env run deadline n) ∧ P (s.after env run deadline n) ∧
      (s.after env run deadline n).past.countP (·.event.isWork) =
        s.past.countP (·.event.isWork) + n := by
  induction n generalizing s with
  | zero => exact ⟨hs, hP, rfl⟩
  | succ n ih =>
    have hnone : s.settled? run deadline = none := h 0 (Nat.succ_pos n)
    obtain ⟨v, e, v', ht⟩ := hs.turn env hnone
    have hcount := ht.countP_isWork
    obtain ⟨hu, hPu, hcountu⟩ := ih (hs.step env hnone) (hturn _ _ _ _ _ hs hP ht)
      fun m hm => h (m + 1) (Nat.succ_lt_succ hm)
    exact ⟨hu, hPu, by rw [GroupState.after, hcountu, hcount]; omega⟩

theorem Turn.cancellation_eq (ht : Turn env run deadline s t v e v') (c : Option Instant) :
    History.cancellation c t.past.reverse =
      e.cancellation (History.cancellation c s.past.reverse) := by
  obtain ⟨before, after, hlines, hpast⟩ := ht.past
  have hquiet : ∀ {h : History}, (∀ d ∈ h, d.event.isLine = true) → ∀ c,
      History.cancellation c h = c := fun hh _ =>
    History.cancellation_eq_self fun d hd => Event.cancels_of_isLine (hh d hd)
  rw [hpast, History.cancellation_append, History.cancellation_append,
    hquiet fun d hd => hlines d (List.mem_append_left after hd), History.cancellation_cons,
    hquiet fun d hd => hlines d (List.mem_append_right before hd)]

/-- The clock of a group stands at its start or at what some worker did last, and not beyond the
instant at which the group stops. -/
structure Clocked (w : World σ) (run : GroupRun) (deadline : Option Instant) (s : GroupState σ) :
    Prop where
  prompt : ∀ x ∈ earliest? deadline (History.cancellation w.canceledAt s.past.reverse),
    s.world.now ≤ max w.now x
  latest : (s.world.now = w.now ∧ ∀ who, History.timeline who s.past.reverse = []) ∨
    ∃ number before e, run.Has number ∧ e.instant = s.world.now ∧
      History.timeline (.worker run.name.group number) s.past.reverse = before ++ [e]

theorem clocked_start (run : GroupRun) (w : World σ) (stats : Statistics) :
    Clocked w run deadline (startOf run w stats) where
  prompt := fun _ _ => Nat.le_max_left _ _
  latest := .inl ⟨rfl, fun _ => rfl⟩

theorem Clocked.turn (hs : Underway w run s) (ht : Turn env run deadline s t v e v') :
    Clocked w run deadline t where
  prompt := by
    intro x hx
    have hbefore := ht.before
    rw [World.stopAt, hs.sound.passage.canceledAt] at hbefore
    rw [ht.cancellation_eq, Entry.cancellation, ht.instant] at hx
    rw [ht.worldNow]
    obtain ⟨hdeadline, hcanceled⟩ := earliest?_forall_lt.mp hbefore
    refine Nat.le_trans ?_ (Nat.le_max_right _ _)
    split at hx
    · refine earliest?_forall_le (fun y hy => Nat.le_of_lt (hdeadline y hy))
        (earliest?_forall_le (fun y hy => ?_) fun y hy => Nat.le_of_lt (hcanceled y hy)) x hx
      exact Nat.le_of_eq (Option.some.inj hy)
    · exact Nat.le_of_lt (hbefore x hx)
  latest := by
    have hline := ht.timeline_eq (run.caller v)
    rw [if_pos rfl] at hline
    exact .inr ⟨v.number, _, e, hs.roster.has _ (List.mem_map_of_mem ht.mem),
      ht.instant.trans ht.worldNow.symm, hline⟩

theorem Clocked.now_advance (hc : Clocked w run deadline s) (hs : Underway w run s) {x : Instant}
    (hx : s.world.stopAt deadline = some x) : (s.world.advance x).now = max w.now x := by
  have hprompt := hc.prompt
  rw [← hs.sound.passage.canceledAt] at hprompt
  have hlate := hprompt x hx
  have hsince := hs.sound.passage.le
  rw [World.advance_now]
  grind

/-- Workers go on with each reply but the one with which they end. -/
def Confines (run : GroupRun) (s : GroupState σ) : Prop :=
  Told run (fun _ h => ∀ d ∈ h, d.event.dismisses = false)
    (fun _ h => ∃ before e, h = before ++ [e] ∧ (∀ d ∈ before, d.event.dismisses = false) ∧
      e.event.dismisses = true) s

theorem Confines.turn (hs : Confines run s) (ht : Turn env run deadline s t v e v') :
    Confines run t := by
  have hgoes := hs.stands v ht.mem
  refine Told.turn hs ht (fun u hu d hd => ?_) fun hnone => ⟨_, e, rfl, hgoes, ?_⟩
  · rcases List.mem_append.mp hd with hd | hd
    · exact hgoes d hd
    · obtain rfl := List.mem_singleton.mp hd
      cases ht.moves with
      | calls => rfl
      | @goesOn since reply _ _ hcounted =>
        obtain ⟨stopped, hanswer⟩ := ht.answerOf_eq since reply
        rw [ht.isCounted_eq, Bool.not_eq_true'] at hcounted
        rw [hanswer]
        exact hcounted
      | ends => cases hu
  · subst hnone
    cases ht.moves with
    | @ends since reply _ huncounted =>
      obtain ⟨stopped, hanswer⟩ := ht.answerOf_eq since reply
      rw [ht.isCounted_eq, Bool.not_eq_false'] at huncounted
      rw [hanswer]
      exact huncounted

/-! The reports of a group. -/

/-- Nobody else's intervals are reported in this history. -/
def Reports (run : GroupRun) (h : History) : Prop :=
  ∀ e ∈ h, ∀ name report, e.event = .logged (.interval name report) → name = run.name

theorem Reports.cons {h : History} (hh : Reports run h)
    (he : ∀ name report, e.event ≠ .logged (.interval name report)) : Reports run (e :: h) := by
  intro d hd name report hinterval
  rcases List.mem_cons.mp hd with rfl | hd
  · exact absurd hinterval (he name report)
  · exact hh d hd name report hinterval

theorem reports_note (h : Reports run s.past) {event : Event}
    (hevent : ∀ name report, event ≠ .logged (.interval name report)) :
    Reports run (s.note event).past :=
  Reports.cons h hevent

theorem reports_start (run : GroupRun) (w : World σ) (stats : Statistics) :
    Reports run (startOf run w stats).past :=
  reports_note (s := start run w stats) (by simp [Reports, start]) nofun

theorem reports_report (h : Reports run s.past) (due : Instant) :
    Reports run (s.report run due).past := by
  unfold report
  split
  · exact h
  · intro e he name report hinterval
    rcases List.mem_append.mp he with he | he
    · obtain ⟨p, -, rfl⟩ := List.mem_map.mp he
      cases hinterval
      rfl
    · exact h e he name report hinterval

theorem reports_notice (h : Reports run s.past) : Reports run (s.notice run).past := by
  have hfold : ∀ (whys : List Breakdown) (s : GroupState σ), Reports run s.past →
      Reports run (whys.foldl (fun s why => s.log (.workerBroken run.name why)) s).past := by
    intro whys
    induction whys with
    | nil => exact fun s hs => hs
    | cons why whys ih => exact fun s hs => ih _ (reports_note hs nofun)
  exact hfold s.broken s h

theorem reports_advance (h : Reports run s.past) (due : Instant) :
    Reports run (s.advance run due).past := by
  unfold advance
  split
  · exact reports_report (reports_notice h) due
  · exact h

theorem reports_count (h : Reports run s.past) (took : Duration) (r : Response) :
    Reports run (s.count run took r).past := by
  unfold count
  dsimp only
  split
  · exact reports_note h nofun
  · split <;> exact h

theorem reports_act (env : Environment σ) (deadline : Option Instant) (h : Reports run s.past)
    (v : Worker) : Reports run (s.act env run deadline v).past := by
  unfold act
  split
  · exact reports_note h nofun
  · next since reply _ =>
    have hanswer : Reports run (s.answer run deadline v since reply).past := by
      rw [answer_eq]
      exact Reports.cons h nofun
    have hreport := reports_report hanswer ((s.answer run deadline v since reply).world.now + 1)
    unfold receive
    dsimp only
    split
    · exact reports_count hreport _ _
    · split
      · exact reports_note hanswer nofun
      · split
        · exact hanswer
        · exact hreport
    · exact hanswer

theorem reports_step (env : Environment σ) (deadline : Option Instant) (h : Reports run s.past) :
    Reports run (s.step env run deadline).past := by
  unfold step
  split
  · exact h
  · next due _ =>
    dsimp only
    split
    · exact reports_advance h due
    · refine reports_act env deadline ?_ _
      exact reports_advance h due

theorem reports_conclude (h : Reports run s.past) (deadline : Option Instant) :
    Reports run (s.conclude run deadline).2.past := by
  have hnotice := reports_notice h
  have hreporter : Reports run (if run.reportInterval.isZero then
      (s.notice run).log (.reporterBroken run.name .zeroInterval) else s.notice run).past := by
    split
    · exact reports_note hnotice nofun
    · exact hnotice
  unfold conclude
  dsimp only
  split
  · exact reports_note hreporter nofun
  · exact reports_note hreporter nofun

end GroupState

/-- A target at whose first reply, after 10 ms, the caller breaks down; it refuses all later calls
for good, after 20 ms. -/
def Target.broken : Target Nat :=
  ⟨fun _ calls => (if calls = 0 then ⟨.ofMillis 10, false, .panic "out of memory"⟩
    else ⟨.ofMillis 20, false, .failure (.invalidRequest "no host")⟩, calls + 1)⟩

namespace GroupRun

variable {σ : Type} {env : Environment σ} {turns : Nat} {run : GroupRun} {outer : Option Instant}
  {w : World σ} {stats : Statistics} {out : GroupOutcome σ}

open GroupState

theorem perform_eq_none_iff : run.perform env turns outer w stats = none ↔
    (startOf run w stats).play env run (w.within outer run.duration) turns = none := by
  have hstart : startOf run w stats = (start run w stats).log
      (.workersStarting run.name run.instances run.duration run.delay) := rfl
  unfold perform
  dsimp only
  rw [← hstart]
  split
  · next hplay => simp [hplay]
  · next hplay => simp [hplay]

def closing (run : GroupRun) : GroupExit → LogEvent
  | .finished => .groupFinished run.name
  | .stopped reason => .groupStopped run.name reason

theorem perform_reports (h : run.perform env turns outer w stats = some out) :
    Reports run out.history ∧ ∃ before, out.history =
      before ++ [⟨out.world.now, .logged (run.closing out.exit)⟩] := by
  unfold perform at h
  dsimp only at h
  split at h
  · cases h
  · next u hplay =>
    obtain ⟨s, hs, hsettled⟩ := play_induction
      (P := fun s : GroupState σ => Reports run s.past)
      (fun _ hs _ => reports_step env _ hs) (reports_start run w stats) hplay
    have hu : Reports run u.past := by
      rcases settled_cases hsettled with ⟨-, rfl⟩ | ⟨stop, -, -, -, -, rfl⟩
      · exact hs
      · exact reports_advance hs stop
    have hconclude := reports_conclude hu (w.within outer run.duration)
    cases h
    refine ⟨fun e he => hconclude e (List.mem_reverse.mp he), ?_⟩
    unfold conclude
    dsimp only
    split
    · exact ⟨_, List.reverse_cons⟩
    · exact ⟨_, List.reverse_cons⟩

theorem perform_closes (h : run.perform env turns outer w stats = some out) :
    ∃ s, Underway w run s ∧ Clocked w run (w.within outer run.duration) s ∧ Confines run s ∧
      Ends run (w.within outer run.duration) s out ∧
      (∀ who, History.timeline who out.history = History.timeline who s.past.reverse) ∧
      out.world.canceledAt = s.world.canceledAt := by
  obtain ⟨s, hs, ⟨hclocked, hconfines⟩, hends⟩ := perform_settles
    (P := fun s => Clocked w run (w.within outer run.duration) s ∧ Confines run s)
    ⟨clocked_start run w stats, told_start stats fun _ => by simp⟩
    (fun _ _ _ _ _ hs hP ht => ⟨Clocked.turn hs ht, hP.2.turn ht⟩) h
  obtain ⟨lines, hhistory, hlines⟩ := hends.history
  refine ⟨s, hs, hclocked, hconfines, hends, fun who => ?_, ?_⟩
  · rw [hhistory, History.timeline_append, History.timeline_of_lines hlines, List.append_nil]
  · rcases hends.ways with ⟨-, hworld⟩ | ⟨stop, -, -, -, hworld⟩
    · rw [hworld]
    · rw [hworld, World.advance_canceledAt]

/-- A group is over no later than it stops, and just then if it has workers left. -/
theorem perform_punctual (h : run.perform env turns outer w stats = some out) :
    ∃ s, Underway w run s ∧ Clocked w run (w.within outer run.duration) s ∧ Confines run s ∧
      (∀ who, History.timeline who out.history = History.timeline who s.past.reverse) ∧
      (∀ x ∈ out.world.stopAt (w.within outer run.duration), out.world.now ≤ max w.now x) ∧
      (s.workers = [] ∧ out.world.now = s.world.now ∨
        s.workers ≠ [] ∧ ∃ x ∈ out.world.stopAt (w.within outer run.duration),
          out.world.now = max w.now x) := by
  obtain ⟨s, hs, hclocked, hconfines, hends, htimeline, hcanceled⟩ := perform_closes h
  have hstopAt : out.world.stopAt (w.within outer run.duration) =
      s.world.stopAt (w.within outer run.duration) := by
    rw [World.stopAt, hcanceled, World.stopAt]
  have hprompt : ∀ x ∈ s.world.stopAt (w.within outer run.duration), s.world.now ≤ max w.now x := by
    have := hclocked.prompt
    rwa [← hs.sound.passage.canceledAt] at this
  refine ⟨s, hs, hclocked, hconfines, htimeline, ?_⟩
  rw [hstopAt]
  rcases hends.ways with ⟨hworkers, hworld⟩ | ⟨stop, hstop, -, hworkers, hworld⟩
  · rw [hworld]
    exact ⟨hprompt, .inl ⟨hworkers, rfl⟩⟩
  · have hnow : out.world.now = max w.now stop := by
      rw [hworld, hclocked.now_advance hs hstop]
    refine ⟨fun x hx => ?_, .inr ⟨hworkers, stop, hstop, hnow⟩⟩
    rw [hstop] at hx
    cases hx
    exact Nat.le_of_eq hnow

theorem perform_workers_end (h : run.perform env turns outer w stats = some out) (number : Nat)
    (hhas : run.Has number) : ∃ x ≤ out.world.now,
      Worker.EndsAt w.now (out.world.stopAt (w.within outer run.duration))
        (.worker run.name.group number) out.history x := by
  obtain ⟨s, hs, -, hconfines, htimeline, -, hways⟩ := perform_punctual h
  by_cases hnumber : number ∈ s.numbers
  · obtain ⟨v, hv, rfl⟩ := List.mem_map.mp hnumber
    have hgoes := hconfines.stands v hv
    rw [GroupRun.caller, ← htimeline] at hgoes
    rcases hways with ⟨hnone, -⟩ | ⟨-, x, hx, hnow⟩
    · rw [hnone] at hv
      cases hv
    · exact ⟨_, Nat.le_of_eq hnow.symm, .stops hgoes hx⟩
  · obtain ⟨before, e, hdone, hgoes, hends⟩ := hconfines.ended number hhas hnumber
    rw [← htimeline] at hdone
    have hmem : e ∈ History.timeline (.worker run.name.group number) out.history := by simp [hdone]
    have he : e ∈ out.history := (List.mem_filter.mp hmem).1
    exact ⟨e.instant, (perform_passage h).1.until_ e he, .quits hdone hgoes hends⟩

theorem perform_last_ends (h : run.perform env turns outer w stats = some out)
    (hpositive : 0 < run.instances) : ∃ number, run.Has number ∧
      Worker.EndsAt w.now (out.world.stopAt (w.within outer run.duration))
        (.worker run.name.group number) out.history out.world.now := by
  obtain ⟨s, hs, hclocked, hconfines, htimeline, -, ⟨hnone, hnow⟩ | ⟨hworkers, x, hx, hnow⟩⟩ :=
    perform_punctual h
  · -- No worker is left: it is the one that was the last to do something.
    have hall : ∀ number, number ∉ s.numbers := by simp [numbers, hnone]
    obtain ⟨-, hidle⟩ | ⟨number, before, e, hhas, hinstant, hlast⟩ := hclocked.latest
    · obtain ⟨before, e, hdone, -⟩ := hconfines.ended 1 ⟨Nat.le_refl 1, hpositive⟩ (hall 1)
      rw [hidle] at hdone
      simp at hdone
    · obtain ⟨before', e', hdone, hgoes, hends⟩ := hconfines.ended number hhas (hall number)
      rw [hdone] at hlast
      obtain ⟨rfl, hsame⟩ := List.append_inj' hlast rfl
      obtain rfl := List.singleton_inj.mp hsame
      rw [← htimeline] at hdone
      refine ⟨number, hhas, ?_⟩
      rw [hnow, ← hinstant]
      exact .quits hdone hgoes hends
  · obtain ⟨v, hv⟩ := List.exists_mem_of_ne_nil _ hworkers
    have hgoes := hconfines.stands v hv
    rw [GroupRun.caller, ← htimeline] at hgoes
    refine ⟨v.number, hs.roster.has _ (List.mem_map_of_mem hv), ?_⟩
    rw [hnow]
    exact .stops hgoes hx

theorem perform_exit_iff (h : run.perform env turns outer w stats = some out) {scope : Scope}
    (hdeadline : scope.deadline = w.within outer run.duration) (r : StopReason) :
    out.exit = .stopped r ↔
      (∃ x ∈ out.world.stopAt (w.within outer run.duration), x ≤ out.world.now) ∧
        r = scope.verdict out.world.now := by
  rw [World.stopAt, Scope.verdict, hdeadline, ← StopReason.observe_eq_some_iff, perform_exit h,
    World.stopReason]
  cases StopReason.observe (w.within outer run.duration) out.world.canceledAt out.world.now <;> simp

theorem perform_finishes (h : run.perform env turns outer w stats = some out)
    (hfinished : out.exit = .finished) {number : Nat} (hhas : run.Has number) :
    ∃ before e, History.timeline (.worker run.name.group number) out.history = before ++ [e] ∧
      (∀ d ∈ before, d.event.dismisses = false) ∧ e.event.isFatal = true := by
  have hlive : out.world.stopReason (w.within outer run.duration) = none := by
    have hexit := perform_exit h
    rw [hfinished] at hexit
    split at hexit
    · cases hexit
    · next hnone => exact hnone
  obtain ⟨hdeadline, hcanceled⟩ := World.stopReason_eq_none_iff.mp hlive
  obtain ⟨x, hle, hends⟩ := perform_workers_end h number hhas
  cases hends with
  | @stops y _ hstops =>
    have hlt := earliest?_forall_lt.mpr ⟨hdeadline, hcanceled⟩ y hstops
    exact absurd (Nat.le_trans (Nat.le_max_right _ _) hle) (Nat.not_le_of_lt hlt)
  | @quits before e hdone hgoes hends =>
    refine ⟨before, e, hdone, hgoes, ?_⟩
    rcases Event.isFatal_or_cancels hends with hfatal | hcancels
    · exact hfatal
    · have hmem : e ∈ History.timeline (.worker run.name.group number) out.history := by
        simp [hdone]
      obtain ⟨c, hc, hcle⟩ := History.cancellation_le_of_mem (c := w.canceledAt)
        (List.mem_filter.mp hmem).1 hcancels
      rw [← (perform_passage h).1.canceledAt] at hc
      exact absurd (Nat.le_trans hcle hle) (Nat.not_le_of_lt (hcanceled c hc))

/-- A group returns once its last worker has ended, each with a reply of its own or with the scope
of the group, and neither before nor after. It is stopped just if its scope has stopped by then,
which it has not before, and for the reason that is seen then; otherwise a fatal fault or a
breakdown ended each of its workers. Nothing but replies that cancel the run does so. The last line
is about the end, and none but its own intervals are reported before. Its reporter has a scope
inside that of the group: to cancel it is not heard of there or further out. -/
theorem perform_ends_with_last (run : GroupRun) (outer : Option Instant) (w : World σ)
    (stats : Statistics) (env : Environment σ) (turns : Nat) :
    (run.perform env turns outer w stats = none ↔ ∀ n ≤ turns,
      ∃ v ∈ ((startOf run w stats).after env run (w.within outer run.duration) n).workers,
      ∀ x ∈ ((startOf run w stats).after env run (w.within outer run.duration) n).world.stopAt
        (w.within outer run.duration), v.due < x) ∧
    (∀ out stop, run.perform env turns outer w stats = some out →
      out.world.stopAt (w.within outer run.duration) = stop →
      (run.instances = 0 → out.world = w) ∧
      (∀ number, run.Has number → ∃ x ≤ out.world.now,
        Worker.EndsAt w.now stop (.worker run.name.group number) out.history x) ∧
      (0 < run.instances → ∃ number, run.Has number ∧
        Worker.EndsAt w.now stop (.worker run.name.group number) out.history out.world.now) ∧
      (∀ x ∈ stop, out.world.now ≤ max w.now x) ∧
      out.world.canceledAt = out.history.cancellation w.canceledAt ∧
      (∀ (scope : Scope) r, scope.deadline = w.within outer run.duration →
        (out.exit = .stopped r ↔
          (∃ x ∈ stop, x ≤ out.world.now) ∧ r = scope.verdict out.world.now)) ∧
      (out.exit = .finished → ∀ number, run.Has number → ∃ before e,
        History.timeline (.worker run.name.group number) out.history = before ++ [e] ∧
        (∀ d ∈ before, d.event.dismisses = false) ∧ e.event.isFatal = true) ∧
      Reports run out.history ∧
      ∃ before, out.history = before ++ [⟨out.world.now, .logged (run.closing out.exit)⟩]) ∧
    ∀ (xs ys : List ScopeStep) (parent group reporter : Nat) (d : Duration),
      let t := (ScopeTree.root.steps xs).2
      let u := (t.step (.timeout parent d)).2
      let v := ((u.step (.child group)).2.steps ys).2
      (t.step (.timeout parent d)).1 = .name group → (u.step (.child group)).1 = .name reporter →
      ∀ n ∈ [parent, group], ∀ x : ScopeStep, x.Observes n →
        ((v.step (.cancel reporter)).2.step x).1 = (v.step x).1 := by
  refine ⟨?_, fun out stop h hstop => ?_, ?_⟩
  · rw [perform_eq_none_iff, play_eq_none_iff]
    simp only [settled?_eq_none_iff]
  · subst hstop
    obtain ⟨-, -, -, -, -, hpunctual, -⟩ := perform_punctual h
    obtain ⟨hreports, hclosing⟩ := perform_reports h
    exact ⟨fun hnone => perform_empty hnone h, perform_workers_end h, perform_last_ends h, hpunctual,
      (perform_passage h).1.canceledAt, fun _ _ hdeadline => perform_exit_iff h hdeadline _,
      fun hfinished _ hhas => perform_finishes h hfinished hhas, hreports, hclosing⟩
  · intro xs ys parent group reporter d t u v hgroup hreporter n hn x hx
    exact (ScopeTree.formed_root.steps xs).cancel_grandchild hgroup hreporter ys hn hx

/-- One worker breaks down 40 ms after the start, the other has a fatal fault 10 ms later: the group
is over then, long before its deadline. A scope that lasts for 5 s is not stopped with one inside.
-/
theorem brief_ends_with_last :
    (∃ out, brief.perform (.orderly Target.broken) 20 none (.start 0 none) .empty = some out ∧
      out.exit = .finished ∧ out.world.now = 50000000 ∧
      (∀ number, brief.Has number → ∃ before e,
        History.timeline (.worker 1 number) out.history = before ++ [e] ∧
        e.event.isFatal = true) ∧
      ∃ number, brief.Has number ∧ Worker.EndsAt 0 (some 115000000) (.worker 1 number) out.history
        50000000) ∧
    ∃ u, u = (ScopeTree.root.steps [.timeout 0 (.ofSecs 5), .child 1, .advance (.ofSecs 1)]).2 ∧
      ((u.step (.cancel 2)).2.step (.err 1)).1 = .nothing := by
  have hcheck : (brief.perform (.orderly Target.broken) 20 none (.start 0 none) .empty).map
      (fun out => (out.exit, out.world.now, out.world.canceledAt)) =
        some (.finished, 50000000, none) := by
    decide +kernel
  obtain ⟨out, hperform, hout⟩ := Option.map_eq_some_iff.mp hcheck
  simp only [Prod.mk.injEq] at hout
  obtain ⟨hexit, hnow, hcanceled⟩ := hout
  obtain ⟨-, hends, hquiet⟩ := perform_ends_with_last brief none (.start 0 none) .empty
    (.orderly Target.broken) 20
  have hstop : out.world.stopAt ((World.start 0 none : World Nat).within none brief.duration) =
      some 115000000 := by
    rw [World.stopAt, hcanceled]
    rfl
  obtain ⟨-, -, hlast, -, -, -, hfinishes, -⟩ := hends out _ hperform hstop
  rw [hnow] at hlast
  refine ⟨⟨out, hperform, hexit, hnow, fun number hhas => ?_, hlast (by decide)⟩, _, rfl, ?_⟩
  · obtain ⟨before, e, hdone, -, hfatal⟩ := hfinishes hexit number hhas
    exact ⟨before, e, hdone, hfatal⟩
  · exact hquiet [] [.advance (.ofSecs 1)] 0 1 2 (.ofSecs 5) rfl rfl 1 (by decide) _ .err

end GroupRun

end PhasedLoad
