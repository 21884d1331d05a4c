import Mathlib.Order.MinMax
import PhasedLoad.Proofs.Group.Turn

/-! The course of a group, from turn to turn: what a turn keeps holds at the group's end. -/

namespace PhasedLoad

theorem earliest?_forall_lt {a b : Option Instant} {t : Instant} :
    (∀ stop ∈ earliest? a b, t < stop) ↔ (∀ x ∈ a, t < x) ∧ ∀ x ∈ b, t < x := by
  cases a <;> cases b <;> simp

theorem StopReason.observe_eq_none_iff {deadline canceledAt : Option Instant} {now : Instant} :
    observe deadline canceledAt now = none ↔ ∀ t ∈ earliest? deadline canceledAt, now < t := by
  have hfired : ∀ o : Option Instant, (∀ x ∈ o, now < x) ↔ ¬ o.any (· ≤ now) = true := by
    intro o
    cases o <;> simp
  rw [earliest?_forall_lt, hfired, hfired, observe]
  split
  · next hpassed => simp [hpassed]
  · next hpassed => simp [hpassed]

/-- The run is cancelled no later than `t`, and not before now. -/
def World.Before {σ : Type} (t : Instant) (w : World σ) : Prop :=
  ∃ c ∈ w.canceledAt, c ≤ t ∧ w.now ≤ c

namespace World

variable {σ : Type} {w : World σ} {t : Instant}

theorem Before.receive (h : w.Before t) (reply : Reply) : (w.receive reply).Before t := by
  obtain ⟨c, hc, hct, hnow⟩ := h
  unfold World.receive
  split
  · refine ⟨min w.now c, ?_, Nat.le_trans (Nat.min_le_right _ _) hct, ?_⟩
    · simp [cancel, Option.mem_def.mp hc]
    · exact Nat.le_min.mpr ⟨Nat.le_refl _, hnow⟩
  · exact ⟨c, hc, hct, hnow⟩

theorem Before.advance (h : w.Before t) {u : Instant} (hu : ∀ c ∈ w.canceledAt, u ≤ c) :
    (w.advance u).Before t := by
  obtain ⟨c, hc, hct, hnow⟩ := h
  exact ⟨c, hc, hct, Nat.max_le.mpr ⟨hnow, hu c hc⟩⟩

theorem stopReason_eq_none_iff {deadline : Option Instant} :
    w.stopReason deadline = none ↔
      (∀ x ∈ deadline, w.now < x) ∧ ∀ x ∈ w.canceledAt, w.now < x := by
  rw [stopReason, StopReason.observe_eq_none_iff, earliest?_forall_lt]

end World

namespace GroupState

variable {σ : Type} {env : Environment σ} {run : GroupRun} {deadline : Option Instant}
  {s t : GroupState σ} {w : World σ}

theorem advance_workers (hp : s.Paced) (run : GroupRun) (due : Instant) :
    (s.advance run due).workers = s.workers := by
  obtain ⟨h, reporter, broken, heq, -⟩ := advance_eq hp run due
  rw [heq]

theorem turn?_eq_some (env : Environment σ) {due : Instant}
    (h : ∃ v ∈ s.workers, v.due = due) :
    ∃ v ∈ s.workers, v.due = due ∧ s.turn? env due = some v := by
  unfold turn?
  generalize hready : s.workers.filter (fun v => v.due == due) = ready
  obtain ⟨u, hu, hdue⟩ := h
  have hall : ∀ v ∈ ready, v ∈ s.workers ∧ v.due = due := by
    intro v hv
    rw [← hready] at hv
    simpa using hv
  have hmem : u ∈ ready := by
    rw [← hready]
    exact List.mem_filter.mpr ⟨hu, by simp [hdue]⟩
  have hlt : env.turns s.steps % ready.length < ready.length :=
    Nat.mod_lt _ (List.length_pos_of_mem hmem)
  have hturn := hall _ (List.getElem_mem hlt)
  exact ⟨_, hturn.1, hturn.2, List.getElem?_eq_getElem hlt⟩

def turnAt (run : GroupRun) (due : Instant) (s : GroupState σ) : GroupState σ :=
  { s.advance run due with steps := (s.advance run due).steps + 1 }

/-- A step is the turn of one of the workers that are due next, before the group stops. -/
theorem step_cases (env : Environment σ) (hp : s.Paced) (h : s.settled? run deadline = none) :
    ∃ v ∈ s.workers, (∀ u ∈ s.workers, v.due ≤ u.due) ∧
      (∀ stop ∈ s.world.stopAt deadline, v.due < stop) ∧
      Acts env run deadline (s.turnAt run v.due) v (s.step env run deadline) ∧
      (s.step env run deadline).Paced := by
  unfold settled? at h
  split at h
  · cases h
  · next due hdue =>
    obtain ⟨hmem, hmin⟩ := List.min?_eq_some_iff.mp hdue
    obtain ⟨u, hu, hudue⟩ := List.mem_map.mp hmem
    have hworkers := advance_workers hp run due
    obtain ⟨v, hv, rfl, hturn⟩ : ∃ v ∈ (s.advance run due).workers, v.due = due ∧
        (s.advance run due).turn? env due = some v :=
      turn?_eq_some env ⟨u, by rwa [hworkers], hudue⟩
    obtain ⟨-, -, -, -, -, -, hpaced⟩ := advance_eq hp run v.due
    have hstep : s.step env run deadline = (s.turnAt run v.due).act env run deadline v := by
      simp [step, hdue, hturn, turnAt]
    obtain ⟨hacts, hpaced⟩ := act_acts (s := s.turnAt run v.due) env run deadline hpaced v
    rw [hstep]
    refine ⟨v, by rwa [hworkers] at hv, fun u hu => hmin _ (List.mem_map_of_mem hu), ?_, hacts,
      hpaced⟩
    intro stop hstop
    split at h
    · next stop' hstop' =>
      split at h
      · cases h
      · next hlt =>
        rw [hstop'] at hstop
        cases hstop
        exact Nat.lt_of_not_le hlt
    · next hstop' =>
      rw [hstop'] at hstop
      cases hstop

theorem settled_cases (h : s.settled? run deadline = some t) :
    (s.workers = [] ∧ t = s) ∨
      ∃ stop due, s.world.stopAt deadline = some stop ∧ s.nextDue? = some due ∧ stop ≤ due ∧
        t = (s.advance run stop).retireAll := by
  unfold settled? at h
  split at h
  · next hnone =>
    cases h
    exact .inl ⟨by simpa [nextDue?] using hnone, rfl⟩
  · next due hdue =>
    split at h
    · next stop hstop =>
      split at h
      · next hle =>
        cases h
        exact .inr ⟨stop, due, hstop, hdue, hle, rfl⟩
      · cases h
    · cases h

/-- What each step keeps holds when the group is settled. -/
theorem play_induction {P : GroupState σ → Prop}
    (hstep : ∀ s, P s → s.settled? run deadline = none → P (s.step env run deadline))
    {n : Nat} (hs : P s) (h : s.play env run deadline n = some t) :
    ∃ u, P u ∧ u.settled? run deadline = some t := by
  induction n generalizing s with
  | zero => exact ⟨s, hs, h⟩
  | succ n ih =>
    simp only [play] at h
    split at h
    · next u hu => cases h; exact ⟨s, hs, hu⟩
    · next hnone => exact ih (hstep s hs hnone) h

structure Sound (w : World σ) (s : GroupState σ) : Prop where
  passage : Passage w s.past.reverse s.world
  paced : s.Paced
  due : ∀ v ∈ s.workers, s.world.now ≤ v.due
  before : ∀ t, w.Before t → s.world.Before t

theorem Acts.workers_due {v : Worker} (ha : Acts env run deadline s v t)
    (h : ∀ u ∈ s.workers, s.world.now ≤ u.due) : ∀ u ∈ t.workers, t.world.now ≤ u.due := by
  have hput : ∀ v' : Worker, s.world.now ≤ v'.due → ∀ u ∈ (s.put v').workers, s.world.now ≤ u.due := by
    intro v' hv' u hu
    obtain ⟨u', hu', rfl⟩ := List.mem_map.mp hu
    split
    · exact hv'
    · exact h u' hu'
  have hdrop : ∀ u ∈ (s.drop v).workers, s.world.now ≤ u.due :=
    fun u hu => h u (List.mem_filter.mp hu).1
  cases ha with
  | called _ hworld _ hworkers _ =>
    rw [hworld, hworkers]
    exact hput _ (Instant.le_wake _ _)
  | responded _ _ hworld _ hworkers _ _ =>
    rw [hworld, hworkers, World.receive_now]
    exact hput _ (Instant.le_wake _ _)
  | failed _ _ _ _ hworld _ hworkers _ _ =>
    rw [hworld, hworkers, World.receive_now]
    exact hput _ (Instant.le_wake _ _)
  | ended _ _ _ hworld _ hworkers _ _ =>
    rw [hworld, hworkers, World.receive_now]
    exact hdrop
  | panicked _ _ hworld _ hworkers _ =>
    rw [hworld, hworkers, World.receive_now]
    exact hdrop

theorem Acts.passage {v : Worker} (ha : Acts env run deadline s v t)
    (hlive : ∀ c ∈ s.world.canceledAt, s.world.now < c) :
    ∃ h : History, t.past = h ++ s.past ∧ Passage s.world h.reverse t.world := by
  have hanswer : ∀ {since : Instant} {reply : Reply} {h : History}, s.LinesNow h →
      t.world = s.world.receive reply → Passage s.world
        (h ++ [answerOf run deadline s v since reply]).reverse t.world := by
    intro since reply h hlines hworld
    have p₁ := Passage.answered s.world (run.caller v) (Instant.elapsed since s.world.now) reply
      ((s.world.receive reply).stopReason deadline)
    have p₂ : Passage (s.world.receive reply) h.reverse (s.world.receive reply) :=
      .linesNow _ (fun e he => (hlines e (List.mem_reverse.mp he)).1)
        (fun e he => (hlines e (List.mem_reverse.mp he)).2.trans (World.receive_now _ _).symm)
    rw [hworld, List.reverse_append]
    exact p₁.trans p₂
  cases ha with
  | called _ hworld _ _ hpast =>
    refine ⟨[_], hpast, ?_⟩
    have p₁ := Passage.note s.world (.called (run.caller v) run.call) rfl fun _ => hlive
    rw [hworld]
    exact p₁.trans (.post s.world env run.call)
  | responded _ _ hworld _ _ hlines hpast =>
    exact ⟨_, by rw [hpast, List.append_assoc]; rfl, hanswer hlines hworld⟩
  | failed _ _ _ _ hworld _ _ hlines hpast =>
    exact ⟨_, by rw [hpast, List.append_assoc]; rfl, hanswer hlines hworld⟩
  | ended _ _ _ hworld _ _ hlines hpast =>
    exact ⟨_, by rw [hpast, List.append_assoc]; rfl, hanswer hlines hworld⟩
  | panicked _ _ hworld _ _ hpast =>
    exact ⟨_, hpast, hanswer (h := []) (by simp [LinesNow]) hworld⟩

theorem Acts.before {v : Worker} (ha : Acts env run deadline s v t) {u : Instant}
    (h : s.world.Before u) : t.world.Before u := by
  cases ha with
  | called _ hworld => rw [hworld]; exact h
  | responded _ _ hworld => rw [hworld]; exact h.receive _
  | failed _ _ _ _ hworld => rw [hworld]; exact h.receive _
  | ended _ _ _ hworld => rw [hworld]; exact h.receive _
  | panicked _ _ hworld => rw [hworld]; exact h.receive _

theorem Sound.advance (hs : Sound w s) (run : GroupRun) (due : Instant)
    (hdue : ∀ u ∈ s.workers, due ≤ u.due) (hc : ∀ c ∈ s.world.canceledAt, due ≤ c) :
    Sound w (s.advance run due) := by
  obtain ⟨h, reporter, broken, heq, -, hpassage, hpaced⟩ := advance_eq hs.paced run due
  refine ⟨?_, hpaced, ?_, ?_⟩
  · rw [heq, List.reverse_append]
    exact hs.passage.trans hpassage
  · rw [heq]
    exact fun u hu => Nat.max_le.mpr ⟨hs.due u hu, hdue u hu⟩
  · rw [heq]
    exact fun u hu => (hs.before u hu).advance hc

/-- What the worker whose turn it is finds: the clock at the time it is due, before the group
stops. -/
theorem turn_live (hs : Sound w s) (run : GroupRun) {v : Worker} (hv : v ∈ s.workers)
    (hstop : ∀ stop ∈ s.world.stopAt deadline, v.due < stop) :
    (s.turnAt run v.due).world.stopReason deadline = none := by
  obtain ⟨h, reporter, broken, heq, -⟩ := advance_eq hs.paced run v.due
  have hnow : max s.world.now v.due = v.due := Nat.max_eq_right (hs.due v hv)
  rw [turnAt, heq, World.stopReason, StopReason.observe_eq_none_iff]
  simpa [hnow, World.stopAt] using hstop

theorem Sound.step (env : Environment σ) (hs : Sound w s) (h : s.settled? run deadline = none) :
    Sound w (s.step env run deadline) := by
  obtain ⟨v, hv, hdue, hstop, hacts, hpaced⟩ := step_cases env hs.paced h
  have hlive := (World.stopReason_eq_none_iff.mp (turn_live hs run hv hstop)).2
  have hcanceled := (earliest?_forall_lt.mp hstop).2
  have ht := hs.advance run v.due hdue fun c hc => Nat.le_of_lt (hcanceled c hc)
  obtain ⟨lines, hpast, hpassage⟩ := hacts.passage hlive
  refine ⟨?_, hpaced, hacts.workers_due ht.due, fun u hu => hacts.before (ht.before u hu)⟩
  rw [hpast, List.reverse_append]
  exact ht.passage.trans hpassage

def startOf (run : GroupRun) (world : World σ) (stats : Statistics) : GroupState σ :=
  (start run world stats).log
    (.workersStarting run.name run.instances run.duration run.delay)

theorem sound_start (run : GroupRun) (w : World σ) (stats : Statistics) :
    Sound w (startOf run w stats) where
  passage := .note w _ rfl (by simp [Event.opens])
  paced := by
    intro r hr
    simp only [startOf, log, note, start] at hr
    split at hr
    · cases hr
    · next hinterval =>
      cases hr
      exact ⟨Nat.le_refl _,
        Nat.pos_of_ne_zero (by simpa [Duration.isZero_iff, Reporter.start] using hinterval)⟩
  due := by
    intro v hv
    obtain ⟨i, -, rfl⟩ := List.mem_map.mp hv
    exact Instant.le_wake _ _
  before := fun _ h => h

theorem Sound.settled (hs : Sound w s) (h : s.settled? run deadline = some t) :
    Passage w t.past.reverse t.world ∧ ∀ u, w.Before u → t.world.Before u := by
  rcases settled_cases h with ⟨-, rfl⟩ | ⟨stop, due, hstop, hdue, hle, rfl⟩
  · exact ⟨hs.passage, hs.before⟩
  · have hmin := (List.min?_eq_some_iff.mp hdue).2
    have hadvance := hs.advance run stop
      (fun u hu => Nat.le_trans hle (hmin _ (List.mem_map_of_mem hu))) (by
        intro c hc
        obtain ⟨stop', hstop', hle'⟩ := earliest?_le (a := deadline) hc
        rw [World.stopAt] at hstop
        rw [hstop] at hstop'
        cases hstop'
        exact hle')
    exact ⟨hadvance.passage, hadvance.before⟩

structure Writes (s t : GroupState σ) : Prop where
  world : t.world = s.world
  stats : t.stats = s.stats
  past : ∃ h : History, t.past = h ++ s.past ∧ s.LinesNow h

theorem Writes.refl (s : GroupState σ) : Writes s s := ⟨rfl, rfl, [], rfl, by simp [LinesNow]⟩

theorem Writes.trans {u : GroupState σ} (hst : Writes s t) (htu : Writes t u) : Writes s u := by
  obtain ⟨h₁, hpast₁, hlines₁⟩ := hst.past
  obtain ⟨h₂, hpast₂, hlines₂⟩ := htu.past
  exact ⟨htu.world.trans hst.world, htu.stats.trans hst.stats, h₂ ++ h₁,
    by rw [hpast₂, hpast₁, List.append_assoc],
    (hlines₂.congr (by rw [hst.world])).append hlines₁⟩

theorem writes_notice (run : GroupRun) (s : GroupState σ) : Writes s (s.notice run) := by
  obtain ⟨h, heq, hlines⟩ := notice_eq run s
  rw [heq]
  exact ⟨rfl, rfl, h, rfl, hlines⟩

theorem writes_log (s : GroupState σ) {line : LogEvent} (h : (Event.logged line).isLine = true) :
    Writes s (s.log line) :=
  ⟨rfl, rfl, [_], rfl, by
    intro e he
    obtain rfl := List.mem_singleton.mp he
    exact ⟨h, rfl⟩⟩

theorem writes_conclude (run : GroupRun) (deadline : Option Instant) (s : GroupState σ) :
    Writes s (s.conclude run deadline).2 := by
  have hreporter : Writes (s.notice run)
      (if run.reportInterval.isZero then
        (s.notice run).log (.reporterBroken run.name .zeroInterval) else s.notice run) := by
    split
    · exact writes_log _ rfl
    · exact .refl _
  have hboth := (writes_notice run s).trans hreporter
  unfold conclude
  dsimp only
  split
  · exact hboth.trans (writes_log _ rfl)
  · exact hboth.trans (writes_log _ rfl)

end GroupState

namespace GroupRun

variable {σ : Type} {env : Environment σ} {turns : Nat} {run : GroupRun} {outer : Option Instant}
  {w : World σ} {stats : Statistics} {out : GroupOutcome σ}

open GroupState

theorem perform_cases (h : run.perform env turns outer w stats = some out) :
    ∃ s t : GroupState σ, (startOf run w stats).play env run (w.within outer run.duration) turns =
        some s ∧
      Writes s t ∧ out.stats = s.stats ∧ out.history = t.past.reverse ∧ out.world = s.world := by
  unfold perform at h
  dsimp only at h
  split at h
  · cases h
  · next s hs =>
    have hw := writes_conclude run (w.within outer run.duration) s
    cases h
    exact ⟨s, _, hs, hw, hw.stats, rfl, hw.world⟩

/-- What each step and the passing of time keep holds of the group at its end: its workers hand in
what they have, and only lines follow. -/
theorem perform_induction {P : GroupState σ → Prop} (hstart : P (startOf run w stats))
    (hstep : ∀ s, P s → s.settled? run (w.within outer run.duration) = none →
      P (s.step env run (w.within outer run.duration)))
    (hadvance : ∀ s due, P s → P (s.advance run due))
    (h : run.perform env turns outer w stats = some out) :
    ∃ (u : GroupState σ) (lines : History), P u ∧ out.history = u.past.reverse ++ lines ∧
      (∀ e ∈ lines, e.event.isLine = true) ∧ out.stats = u.retireAll.stats := by
  obtain ⟨s, t, hplay, hwrites, hstats, hhistory, -⟩ := perform_cases h
  obtain ⟨u, hu, hsettled⟩ := play_induction hstep hstart hplay
  obtain ⟨lines, hpast, hlines⟩ := hwrites.past
  have hend : ∃ u' : GroupState σ, P u' ∧ s.past = u'.past ∧ s.stats = u'.retireAll.stats := by
    rcases settled_cases hsettled with ⟨hworkers, rfl⟩ | ⟨stop, -, -, -, -, rfl⟩
    · exact ⟨s, hu, rfl, by simp [retireAll, hworkers]⟩
    · exact ⟨_, hadvance u stop hu, rfl, rfl⟩
  obtain ⟨u', hu', hpast', hstats'⟩ := hend
  refine ⟨u', lines.reverse, hu', ?_, ?_, hstats.trans hstats'⟩
  · rw [hhistory, hpast, List.reverse_append, hpast']
  · exact fun e he => (hlines e (List.mem_reverse.mp he)).1

theorem perform_passage (h : run.perform env turns outer w stats = some out) :
    Passage w out.history out.world ∧ ∀ u, w.Before u → out.world.Before u := by
  obtain ⟨s, t, hplay, hwrites, -, hhistory, hworld⟩ := perform_cases h
  obtain ⟨u, hu, hsettled⟩ := play_induction (P := Sound w) (fun _ hs hn => hs.step env hn)
    (sound_start run w stats) hplay
  obtain ⟨hpassage, hbefore⟩ := hu.settled hsettled
  obtain ⟨lines, hpast, hlines⟩ := hwrites.past
  rw [hhistory, hpast, List.reverse_append, hworld]
  refine ⟨hpassage.trans (.linesNow _ ?_ ?_), hbefore⟩
  · exact fun e he => (hlines e (List.mem_reverse.mp he)).1
  · exact fun e he => (hlines e (List.mem_reverse.mp he)).2

end GroupRun

end PhasedLoad
