import Mathlib.Algebra.Order.BigOperators.Group.Finset
import PhasedLoad.Proofs.Group.Exit

/-! Workers whose calls all have the same reply. Each of them goes through the same stages, up to
the same instant, whoever's turn it is among them; so a group of them counts as many times as much
as one of them alone. -/

namespace PhasedLoad

def Target.Gives {σ : Type} (target : Target σ) (call : Call) (reply : Reply) : Prop :=
  ∀ st, (target.post call st).1 = reply

/-- What a worker waits for, and when that comes. -/
structure Stage where
  due : Instant
  activity : Activity

namespace Stage

variable (run : GroupRun) (pause : Duration) (reply : Reply) (start : Instant)

def next (stage : Stage) : Stage :=
  match stage.activity with
  | .pausing => ⟨Instant.wake stage.due reply.latency, .awaiting stage.due reply⟩
  | .awaiting _ _ => ⟨Instant.wake stage.due pause, .pausing⟩

/-- The stages of a worker that starts at `start`, from its first pause on. -/
def nth : Nat → Stage
  | 0 => ⟨Instant.wake start pause, .pausing⟩
  | k + 1 => (nth k).next pause reply

def deed (who : Caller) (stage : Stage) : Entry :=
  match stage.activity with
  | .pausing => Worker.callAt run who stage.due
  | .awaiting since reply => Worker.replyAt who since stage.due reply none

def deeds (who : Caller) (k : Nat) : History :=
  (List.range k).map fun j => deed run who (nth run.delay reply start j)

/-- A worker ends with this stage, if it is over before the group stops. -/
def dismisses (stage : Stage) : Bool :=
  match stage.activity with
  | .pausing => false
  | .awaiting _ reply => reply.dismisses

/-- A worker has gone through `k` stages; its group stops at `stop` at the latest. -/
structure Passes (stop : Option Instant) (k : Nat) : Prop where
  before : ∀ j < k, ∀ x ∈ stop, (nth pause reply start j).due < x
  goesOn : ∀ j < k, (nth pause reply start j).dismisses = false

/-- A worker has gone through `k` stages and is over at `now`: it ended with the last of them, or
its group stops. -/
inductive Spends (stop : Option Instant) : Nat → Instant → Prop
  | dismissed {k : Nat} (passes : Passes pause reply start stop k)
      (before : ∀ x ∈ stop, (nth pause reply start k).due < x)
      (ends : (nth pause reply start k).dismisses = true) :
      Spends stop (k + 1) (nth pause reply start k).due
  | stopped {k : Nat} {x : Instant} (passes : Passes pause reply start stop k) (stops : x ∈ stop)
      (late : x ≤ (nth pause reply start k).due) : Spends stop k (max start x)

end Stage

namespace Stage

variable {run : GroupRun} {pause : Duration} {reply : Reply} {start : Instant}
  {stop : Option Instant} {k j : Nat}
  {now now' : Instant} {who : Caller}

theorem deeds_succ (who : Caller) (k : Nat) : deeds run reply start who (k + 1) =
    deeds run reply start who k ++ [deed run who (nth run.delay reply start k)] := by
  rw [deeds, List.range_succ, List.map_append]
  rfl

theorem length_deeds : (deeds run reply start who k).length = k := by
  rw [deeds, List.length_map, List.length_range]

theorem instant_deed (stage : Stage) : (deed run who stage).instant = stage.due := by
  rw [deed]
  split <;> rfl

theorem Passes.succ (hk : Passes pause reply start stop k)
    (hbefore : ∀ x ∈ stop, (nth pause reply start k).due < x)
    (hgoes : (nth pause reply start k).dismisses = false) : Passes pause reply start stop (k + 1) where
  before := by
    intro j hj
    rcases Nat.lt_succ_iff_lt_or_eq.mp hj with hj | rfl
    · exact hk.before j hj
    · exact hbefore
  goesOn := by
    intro j hj
    rcases Nat.lt_succ_iff_lt_or_eq.mp hj with hj | rfl
    · exact hk.goesOn j hj
    · exact hgoes

theorem Spends.le_of_passes (hk : Spends pause reply start stop k now)
    (hj : Passes pause reply start stop j) : j ≤ k := by
  refine Nat.le_of_not_lt fun hlt => ?_
  cases hk with
  | @dismissed k _ _ hends =>
    have hgoes := hj.goesOn k (Nat.lt_of_succ_lt hlt)
    rw [hends] at hgoes
    cases hgoes
  | stopped _ hstops hlate => exact Nat.not_le_of_lt (hj.before k hlt _ hstops) hlate

theorem Passes.not_stopped (hk : Passes pause reply start stop k)
    (hbefore : ∀ x ∈ stop, (nth pause reply start k).due < x)
    (hends : (nth pause reply start k).dismisses = true) (hj : Passes pause reply start stop j)
    {x : Instant} (hstops : x ∈ stop) : ¬ x ≤ (nth pause reply start j).due := by
  intro hlate
  rcases Nat.lt_trichotomy j k with hlt | rfl | hlt
  · exact Nat.not_le_of_lt (hk.before j hlt x hstops) hlate
  · exact Nat.not_le_of_lt (hbefore x hstops) hlate
  · have hgoes := hj.goesOn k hlt
    rw [hends] at hgoes
    cases hgoes

theorem Spends.unique (hk : Spends pause reply start stop k now)
    (hj : Spends pause reply start stop j now') : k = j ∧ now = now' := by
  cases hk with
  | @dismissed k hpasses hbefore hends =>
    cases hj with
    | @dismissed j hpasses' hbefore' hends' =>
      have hle : k ≤ j := Nat.le_of_not_lt fun hlt => by
        have hgoes := hpasses.goesOn j hlt
        rw [hends'] at hgoes
        cases hgoes
      have hge : j ≤ k := Nat.le_of_not_lt fun hlt => by
        have hgoes := hpasses'.goesOn k hlt
        rw [hends] at hgoes
        cases hgoes
      obtain rfl := Nat.le_antisymm hle hge
      exact ⟨rfl, rfl⟩
    | stopped hpasses' hstops hlate =>
      exact absurd hlate (hpasses.not_stopped hbefore hends hpasses' hstops)
  | @stopped k x hpasses hstops hlate =>
    have hle := (Spends.stopped hpasses hstops hlate)
    cases hj with
    | dismissed hpasses' hbefore hends =>
      exact absurd hlate (hpasses'.not_stopped hbefore hends hpasses hstops)
    | @stopped j y hpasses' hstops' hlate' =>
      obtain rfl : x = y := Option.mem_unique hstops hstops'
      have hge := (Spends.stopped hpasses' hstops' hlate').le_of_passes hpasses
      exact ⟨Nat.le_antisymm hge (hle.le_of_passes hpasses'), rfl⟩

theorem next_next {stage : Stage} (h : stage.activity = .pausing) :
    (stage.next pause reply).next pause reply =
      ⟨Instant.wake (Instant.wake stage.due reply.latency) pause, .pausing⟩ := by
  simp [next, h]

theorem reply_of_nth {since : Instant} {r : Reply}
    (h : (nth pause reply start k).activity = .awaiting since r) : r = reply := by
  cases k with
  | zero => cases h
  | succ k =>
    rw [nth, next] at h
    split at h
    · cases h
      rfl
    · cases h

theorem le_due_nth (hpositive : 0 < pause.nanos + reply.latency.nanos) (k : Nat) :
    k ≤ (nth pause reply start (2 * k)).due ∧ (nth pause reply start (2 * k)).activity = .pausing := by
  induction k with
  | zero => exact ⟨Nat.zero_le _, rfl⟩
  | succ k ih =>
    obtain ⟨hle, hpausing⟩ := ih
    have hcall := Instant.add_min_le_wake (nth pause reply start (2 * k)).due reply.latency
    have hpause := Instant.add_min_le_wake
      (Instant.wake (nth pause reply start (2 * k)).due reply.latency) pause
    have hfar : 0 < Instant.farAway := by decide
    have hnext : nth pause reply start (2 * (k + 1)) =
        ((nth pause reply start (2 * k)).next pause reply).next pause reply := rfl
    rw [hnext, next_next hpausing]
    refine ⟨?_, rfl⟩
    grind

theorem exists_spends (hpositive : 0 < pause.nanos + reply.latency.nanos) {x : Instant}
    (hx : x ∈ stop) : ∃ k now, Spends pause reply start stop k now := by
  -- Otherwise it would go through any number of stages.
  refine Classical.byContradiction fun hnever => ?_
  have hall : ∀ k, Passes pause reply start stop k := by
    intro k
    induction k with
    | zero =>
      exact ⟨fun j hj => absurd hj (Nat.not_lt_zero j), fun j hj => absurd hj (Nat.not_lt_zero j)⟩
    | succ k ih =>
      have hbefore : ∀ y ∈ stop, (nth pause reply start k).due < y := fun y hy =>
        Nat.lt_of_not_le fun hlate => hnever ⟨_, _, .stopped ih hy hlate⟩
      refine ih.succ hbefore (Bool.eq_false_iff.mpr fun hends => ?_)
      exact hnever ⟨_, _, .dismissed ih hbefore hends⟩
  have hlt := (hall (2 * x + 1)).before (2 * x) (Nat.lt_succ_self _) x hx
  exact Nat.not_le_of_lt hlt (le_due_nth hpositive x).1

end Stage

/-- Where worker `v` stands that has done `h`: at some stage of the course that they all take. -/
def Worker.Follows (run : GroupRun) (reply : Reply) (start : Instant) (stop : Option Instant)
    (v : Worker) (h : History) : Prop :=
  ∃ k, Stage.Passes run.delay reply start stop k ∧
    Stage.nth run.delay reply start k = ⟨v.due, v.activity⟩ ∧
    h = Stage.deeds run reply start (run.caller v) k

def Worker.Finishes (run : GroupRun) (reply : Reply) (start : Instant) (stop : Option Instant)
    (who : Caller) (h : History) : Prop :=
  ∃ k, Stage.Passes run.delay reply start stop k ∧
    (Stage.nth run.delay reply start k).dismisses = true ∧
    (∀ x ∈ stop, (Stage.nth run.delay reply start k).due < x) ∧
    h = Stage.deeds run reply start who (k + 1)

namespace GroupState

variable {σ : Type} {env : Environment σ} {run : GroupRun} {reply : Reply}
  {deadline : Option Instant} {s t : GroupState σ} {v : Worker} {v' : Option Worker} {e : Entry}
  {w : World σ} {start : Instant} {stop : Option Instant}

def Copies (run : GroupRun) (reply : Reply) (start : Instant) (stop : Option Instant)
    (s : GroupState σ) : Prop :=
  Told run (Worker.Follows run reply start stop) (Worker.Finishes run reply start stop) s

theorem copies_start (run : GroupRun) (reply : Reply) (w : World σ) (stop : Option Instant)
    (stats : Statistics) : Copies run reply w.now stop (startOf run w stats) := by
  refine told_start stats fun number => ⟨0, ⟨?_, ?_⟩, rfl, rfl⟩
  · exact fun j hj => absurd hj (Nat.not_lt_zero j)
  · exact fun j hj => absurd hj (Nat.not_lt_zero j)

theorem Turn.deed_eq (ht : Turn env run deadline s t v e v')
    (hstays : ∀ since r, v.activity = .awaiting since r → r.cancels = false) :
    e = Stage.deed run (run.caller v) ⟨v.due, v.activity⟩ := by
  have hanswer : ∀ since r, v.activity = .awaiting since r →
      answerOf run deadline (s.turnAt run v.due) v since r =
        Worker.replyAt (run.caller v) since v.due r none := by
    intro since r hawaiting
    have hlive := World.isNone_stopReason_receive ht.live r
    rw [hstays since r hawaiting, Bool.not_false, Option.isNone_iff_eq_none] at hlive
    rw [answerOf, ht.now, hlive, Worker.replyAt]
  cases ht.moves with
  | calls hpausing => rw [Stage.deed, hpausing, ht.now, Worker.callAt]
  | goesOn _ hawaiting => rw [Stage.deed, hawaiting, hanswer _ _ hawaiting]
  | ends hawaiting => rw [Stage.deed, hawaiting, hanswer _ _ hawaiting]

theorem Turn.next_eq (ht : Turn env run deadline s t v e v')
    (hgets : env.target.Gives run.call reply) :
    (∀ u ∈ v', run.caller u = run.caller v ∧
      Stage.dismisses ⟨v.due, v.activity⟩ = false ∧
      (⟨u.due, u.activity⟩ : Stage) = Stage.next run.delay reply ⟨v.due, v.activity⟩) ∧
    (v' = none → Stage.dismisses ⟨v.due, v.activity⟩ = true) := by
  cases ht.moves with
  | calls hpausing =>
    refine ⟨fun u hu => ?_, nofun⟩
    cases hu
    refine ⟨rfl, by rw [Stage.dismisses, hpausing], ?_⟩
    simp only [Stage.next, hpausing, ht.now, hgets _]
  | goesOn codes hawaiting hcounted =>
    refine ⟨fun u hu => ?_, nofun⟩
    cases hu
    rw [ht.isCounted_eq, Bool.not_eq_true'] at hcounted
    refine ⟨rfl, by simpa only [Stage.dismisses, hawaiting] using hcounted, ?_⟩
    simp only [Stage.next, hawaiting, ht.now]
  | ends hawaiting huncounted =>
    refine ⟨nofun, fun _ => ?_⟩
    rw [ht.isCounted_eq, Bool.not_eq_false'] at huncounted
    simpa only [Stage.dismisses, hawaiting] using huncounted

theorem Copies.stage (hs : Copies run reply start stop s) (hstays : reply.cancels = false)
    (hstop : s.world.stopAt deadline = stop) (ht : Turn env run deadline s t v e v') :
    ∃ k, Stage.Passes run.delay reply start stop k ∧
      Stage.nth run.delay reply start k = ⟨v.due, v.activity⟩ ∧
      History.timeline (run.caller v) s.past.reverse =
        Stage.deeds run reply start (run.caller v) k ∧
      (∀ x ∈ stop, (Stage.nth run.delay reply start k).due < x) ∧
      e = Stage.deed run (run.caller v) (Stage.nth run.delay reply start k) ∧
      e.event.cancels = false := by
  obtain ⟨k, hpasses, hstage, htimeline⟩ := hs.stands v ht.mem
  have hsame : ∀ since r, v.activity = .awaiting since r → r.cancels = false := by
    intro since r hawaiting
    rw [Stage.reply_of_nth ((congrArg Stage.activity hstage).trans hawaiting), hstays]
  have hdeed := ht.deed_eq hsame
  refine ⟨k, hpasses, hstage, htimeline, ?_, by rw [hstage, hdeed], ?_⟩
  · rw [hstage, ← hstop]
    exact ht.before
  · rw [hdeed, Stage.deed]
    cases hactivity : v.activity with
    | pausing => rfl
    | awaiting since r => exact hsame since r hactivity

theorem Copies.turn (hs : Copies run reply start stop s) (hgives : env.target.Gives run.call reply)
    (hstays : reply.cancels = false) (hstop : s.world.stopAt deadline = stop)
    (ht : Turn env run deadline s t v e v') : Copies run reply start stop t := by
  obtain ⟨k, hpasses, hstage, htimeline, hbefore, hdeed, -⟩ := hs.stage hstays hstop ht
  obtain ⟨hgoes, hends⟩ := ht.next_eq hgives
  rw [← hstage] at hgoes hends
  refine Told.turn hs ht (fun u hu => ?_) fun hnone => ?_
  · obtain ⟨hcaller, hlives, hnext⟩ := hgoes u hu
    refine ⟨k + 1, hpasses.succ hbefore hlives, hnext.symm, ?_⟩
    rw [htimeline, hdeed, hcaller, Stage.deeds_succ]
  · refine ⟨k, hpasses, hends hnone, hbefore, ?_⟩
    rw [htimeline, hdeed, Stage.deeds_succ]

/-- A group of copies since world `w`, by which the run was not cancelled. -/
structure Copying (w : World σ) (run : GroupRun) (reply : Reply) (deadline : Option Instant)
    (s : GroupState σ) : Prop where
  clocked : Clocked w run deadline s
  copies : Copies run reply w.now (w.stopAt deadline) s
  uncanceled : History.cancellation w.canceledAt s.past.reverse = w.canceledAt

theorem copying_start (run : GroupRun) (reply : Reply) (w : World σ) (stats : Statistics) :
    Copying w run reply deadline (startOf run w stats) :=
  ⟨clocked_start run w stats, copies_start run reply w _ stats, rfl⟩

theorem Copying.stopAt_eq (hs : Copying w run reply deadline s) (hunderway : Underway w run s) :
    s.world.stopAt deadline = w.stopAt deadline := by
  rw [World.stopAt, hunderway.sound.passage.canceledAt, hs.uncanceled, World.stopAt]

theorem Copying.turn (hgives : env.target.Gives run.call reply) (hstays : reply.cancels = false)
    (hunderway : Underway w run s) (hs : Copying w run reply deadline s)
    (ht : Turn env run deadline s t v e v') : Copying w run reply deadline t := by
  have hstop := hs.stopAt_eq hunderway
  obtain ⟨-, -, -, -, -, -, hquiet⟩ := hs.copies.stage hstays hstop ht
  refine ⟨Clocked.turn hunderway ht, hs.copies.turn hgives hstays hstop ht, ?_⟩
  rw [ht.cancellation_eq, hs.uncanceled, Entry.cancellation, hquiet]
  rfl

theorem Copying.countP_isWork_le (hs : Copying w run reply deadline s)
    (hunderway : Underway w run s) {k : Nat} {now : Instant}
    (hk : Stage.Spends run.delay reply w.now (w.stopAt deadline) k now) :
    s.past.countP (·.event.isWork) ≤ run.instances * k := by
  have howns : ∀ e ∈ s.past.reverse, run.Owns e.event := fun e he =>
    hunderway.roster.owns e (List.mem_reverse.mp he)
  have hlength : ∀ number, run.Has number →
      (History.timeline (.worker run.name.group number) s.past.reverse).length ≤ k := by
    intro number hhas
    by_cases hnumber : number ∈ s.numbers
    · obtain ⟨v, hv, rfl⟩ := List.mem_map.mp hnumber
      obtain ⟨j, hpasses, -, htimeline⟩ := hs.copies.stands v hv
      rw [GroupRun.caller] at htimeline
      rw [htimeline, Stage.length_deeds]
      exact hk.le_of_passes hpasses
    · obtain ⟨j, hpasses, hends, hbefore, htimeline⟩ := hs.copies.ended number hhas hnumber
      rw [htimeline, Stage.length_deeds]
      exact Nat.le_of_eq ((Stage.Spends.dismissed hpasses hbefore hends).unique hk).1
  rw [← List.countP_reverse, History.countP_eq_sum (fun _ h => h) howns]
  have hsum := Finset.sum_le_card_nsmul (Finset.Icc 1 run.instances) _ k fun number hnumber =>
    Nat.le_trans (List.countP_le_length (p := fun e : Entry => e.event.isWork))
      (hlength number (Finset.mem_Icc.mp hnumber))
  rwa [Nat.card_Icc, Nat.add_sub_cancel] at hsum

def Over (w : World σ) (run : GroupRun) (reply : Reply) (deadline : Option Instant) (h : History)
    (k : Nat) (now : Instant) (number : Nat) : Prop :=
  Stage.Spends run.delay reply w.now (w.stopAt deadline) k now ∧
    History.timeline (.worker run.name.group number) h =
      Stage.deeds run reply w.now (.worker run.name.group number) k

theorem Copying.over_of_left (hs : Copying w run reply deadline s) {number : Nat}
    (hhas : run.Has number) (hnot : number ∉ s.numbers) :
    ∃ k, Over w run reply deadline s.past.reverse (k + 1) (Stage.nth run.delay reply w.now k).due
      number := by
  obtain ⟨k, hpasses, hdismisses, hbefore, hdone⟩ := hs.copies.ended number hhas hnot
  exact ⟨k, .dismissed hpasses hbefore hdismisses, hdone⟩

/-- Where no worker is left, one is over just now: the one who was the last to do something. -/
theorem Copying.over_of_finished (hs : Copying w run reply deadline s)
    (hpositive : 0 < run.instances) (hworkers : s.workers = []) :
    ∃ number k, Over w run reply deadline s.past.reverse k s.world.now number := by
  have hall : ∀ number, number ∉ s.numbers := by simp [numbers, hworkers]
  obtain ⟨-, hidle⟩ | ⟨number, before, e, hhas, hinstant, hlast⟩ := hs.clocked.latest
  · obtain ⟨k, -, hdone⟩ := hs.over_of_left ⟨Nat.le_refl 1, hpositive⟩ (hall 1)
    rw [hidle, Stage.deeds_succ] at hdone
    simp at hdone
  · obtain ⟨k, hspends, hdone⟩ := hs.over_of_left hhas (hall number)
    have hdue : (Stage.nth run.delay reply w.now k).due = s.world.now := by
      rw [hlast, Stage.deeds_succ] at hdone
      obtain ⟨-, hsame⟩ := List.append_inj' hdone rfl
      rw [← hinstant, List.singleton_inj.mp hsame, Stage.instant_deed]
    rw [hdue] at hspends
    exact ⟨number, k + 1, hspends, by rw [hdone]⟩

theorem Copying.over_of_stopped (hs : Copying w run reply deadline s) {stop : Instant}
    (hstop : w.stopAt deadline = some stop) (hv : v ∈ s.workers) (hlate : stop ≤ v.due) :
    ∃ k, Over w run reply deadline s.past.reverse k (max w.now stop) v.number := by
  obtain ⟨k, hpasses, hstage, hdone⟩ := hs.copies.stands v hv
  refine ⟨k, .stopped hpasses hstop ?_, hdone⟩
  rw [hstage]
  exact hlate

end GroupState

namespace GroupRun

variable {σ : Type} {env : Environment σ} {turns : Nat} {run : GroupRun} {outer : Option Instant}
  {w : World σ} {stats : Statistics} {out : GroupOutcome σ} {reply : Reply} {k : Nat}
  {now : Instant}

open GroupState

/-- A group of copies is over with the first of its workers that is over. -/
theorem perform_spends (hgives : env.target.Gives run.call reply) (hstays : reply.cancels = false)
    (hpositive : 0 < run.instances) (h : run.perform env turns outer w stats = some out) :
    out.world.canceledAt = w.canceledAt ∧
    ∃ k, Stage.Spends run.delay reply w.now (w.stopAt (w.within outer run.duration)) k
        out.world.now ∧
      ∀ number, run.Has number → History.timeline (.worker run.name.group number) out.history =
        Stage.deeds run reply w.now (.worker run.name.group number) k := by
  obtain ⟨s, hs, hcopying, hends⟩ := perform_settles
    (copying_start run reply w stats) (fun _ _ _ _ _ hs hP ht => hP.turn hgives hstays hs ht) h
  obtain ⟨lines, hhistory, hlines⟩ := hends.history
  have htimeline : ∀ who, History.timeline who out.history =
      History.timeline who s.past.reverse := fun who => by
    rw [hhistory, History.timeline_append, History.timeline_of_lines hlines, List.append_nil]
  have hcanceled : s.world.canceledAt = w.canceledAt :=
    hs.sound.passage.canceledAt.trans hcopying.uncanceled
  -- One worker is over when the group is; when a worker is over is settled, so the others are too.
  have hone : out.world.canceledAt = w.canceledAt ∧ (∃ number k,
      Over w run reply (w.within outer run.duration) s.past.reverse k out.world.now number) ∧
      ∀ v ∈ s.workers, ∃ k,
        Over w run reply (w.within outer run.duration) s.past.reverse k out.world.now v.number := by
    rcases hends.ways with ⟨hworkers, hworld⟩ | ⟨stop, hstop, hlate, hworkers, hworld⟩
    · rw [hworld, hworkers]
      exact ⟨hcanceled, hcopying.over_of_finished hpositive hworkers, nofun⟩
    · have hnow : out.world.now = max w.now stop := by
        rw [hworld, hcopying.clocked.now_advance hs hstop]
      rw [hcopying.stopAt_eq hs] at hstop
      have hall : ∀ v ∈ s.workers, ∃ k, Over w run reply (w.within outer run.duration)
          s.past.reverse k out.world.now v.number := fun v hv => by
        rw [hnow]
        exact hcopying.over_of_stopped hstop hv (hlate v hv)
      obtain ⟨v, hv⟩ := List.exists_mem_of_ne_nil _ hworkers
      exact ⟨by rw [hworld, World.advance_canceledAt, hcanceled], ⟨v.number, hall v hv⟩, hall⟩
  obtain ⟨hout, ⟨-, k, hspends, -⟩, hstands⟩ := hone
  refine ⟨hout, k, hspends, fun number hhas => ?_⟩
  rw [htimeline]
  by_cases hnumber : number ∈ s.numbers
  · obtain ⟨v, hv, rfl⟩ := List.mem_map.mp hnumber
    obtain ⟨j, hspends', hdone⟩ := hstands v hv
    rw [hdone, (hspends'.unique hspends).1]
  · obtain ⟨j, hspends', hdone⟩ := hcopying.over_of_left hhas hnumber
    rw [hdone, (hspends'.unique hspends).1]

end GroupRun

end PhasedLoad
