import Mathlib.Algebra.BigOperators.Ring.Finset
import Mathlib.Order.Interval.Finset.Nat
import PhasedLoad.Proofs.Group.Deadline

/-! The pace of workers: each pauses, calls, and pauses again once its call is over, until its group
stops. How often it calls up to then is settled by its pause and by how long the replies take. -/

namespace PhasedLoad

/-- Up to `stop`, timers of length `d` fire exactly at their instants. -/
def Instant.Exact (stop : Instant) (d : Duration) : Prop :=
  ∀ t < stop, min (wake t d) stop = min (t + d.nanos) stop

namespace Instant

variable {stop t : Instant} {d : Duration}

theorem exact_of_le_farAway (h : stop ≤ farAway) (d : Duration) : Exact stop d := by
  intro t _
  have hfar : farAway < limit := by decide
  by_cases hlt : t + d.nanos < limit
  · rw [wake_of_lt hlt]
  · have hwake : wake t d = t + farAway := by simp [wake, after?, hlt]
    grind

theorem Exact.wake_eq (h : Exact stop d) (ht : t < stop) (hwake : wake t d < stop) :
    wake t d = t + d.nanos := by
  have := h t ht
  grind

theorem Exact.le_add (h : Exact stop d) (ht : t < stop) {u : Instant} (hu : u ≤ wake t d)
    (hstop : u ≤ stop) : u ≤ t + d.nanos := by
  have := h t ht
  grind

end Instant

/-- A worker ends with this reply, which comes to it before its group stops. -/
def Reply.dismisses (r : Reply) : Bool :=
  match r.outcome with
  | .response _ => false
  | .failure f => f.isFatal || r.cancels
  | .panic _ => true

namespace Worker

section

variable {σ : Type} (env : Environment σ) (run : GroupRun) (who : Caller) (start stop : Instant)

def callAt (since : Instant) : Entry := ⟨since, .called who run.call⟩

def replyAt (since back : Instant) (reply : Reply) (stopped : Option StopReason) : Entry :=
  ⟨back, .answered who (Instant.elapsed since back) reply stopped⟩

/-- A reply of the target to a call that started at `since` is back in time. -/
structure ComesBack (since back : Instant) (reply : Reply) : Prop where
  settled : ∃ st, reply = (env.target.post run.call st).1
  after : back = Instant.wake since reply.latency
  before : back < stop

/-- Full rounds of a worker that started at `start`, the last of which was over at `ended`: each is
a pause, a call, and the reply to it, with which the worker goes on. -/
inductive Rounds : History → Instant → Prop
  | none : Rounds [] start
  | next {h : History} {ended back : Instant} {reply : Reply} (stopped : Option StopReason)
      (rounds : Rounds h ended) (comesBack : ComesBack env run stop (ended + run.delay.nanos) back reply)
      (goesOn : reply.dismisses = false) :
      Rounds (h ++ [callAt run who (ended + run.delay.nanos),
        replyAt who (ended + run.delay.nanos) back reply stopped]) back

/-- What a worker did that is there at `until_`, when its group ends. -/
inductive Lasts (until_ : Instant) : History → Prop
  | pausing {h : History} {ended : Instant} (rounds : Rounds env run who start stop h ended)
      (late : until_ ≤ ended + run.delay.nanos) : Lasts until_ h
  /-- Its last call is dropped. -/
  | calling {h : History} {ended : Instant} (st : σ) (rounds : Rounds env run who start stop h ended)
      (started : ended + run.delay.nanos < stop)
      (late : until_ ≤ Instant.wake (ended + run.delay.nanos)
        (env.target.post run.call st).1.latency) :
      Lasts until_ (h ++ [callAt run who (ended + run.delay.nanos)])

/-- What a worker did that ended with a reply. -/
inductive Quits : History → Prop
  | dismissed {h : History} {ended back : Instant} {reply : Reply} (stopped : Option StopReason)
      (rounds : Rounds env run who start stop h ended)
      (comesBack : ComesBack env run stop (ended + run.delay.nanos) back reply)
      (ends : reply.dismisses = true) :
      Quits (h ++ [callAt run who (ended + run.delay.nanos),
        replyAt who (ended + run.delay.nanos) back reply stopped])

def Paces (v : Worker) (h : History) : Prop :=
  match v.activity with
  | .pausing => ∃ ended, Rounds env run (run.caller v) start stop h ended ∧
      v.due = Instant.wake ended run.delay
  | .awaiting since reply => ∃ h' ended st, Rounds env run (run.caller v) start stop h' ended ∧
      since = ended + run.delay.nanos ∧ since < stop ∧ reply = (env.target.post run.call st).1 ∧
      v.due = Instant.wake since reply.latency ∧ h = h' ++ [callAt run (run.caller v) since]

end

variable {σ : Type} {env : Environment σ} {run : GroupRun} {who : Caller}
  {start stop ended : Instant} {h : History}

theorem Rounds.lt (hr : Rounds env run who start stop h ended) (hstart : start < stop) :
    ended < stop := by
  cases hr with
  | none => exact hstart
  | next _ _ comesBack _ => exact comesBack.before

end Worker

theorem World.isNone_stopReason_receive {σ : Type} {w : World σ} {deadline : Option Instant}
    (h : w.stopReason deadline = none) (reply : Reply) :
    ((w.receive reply).stopReason deadline).isNone = !reply.cancels := by
  unfold World.receive
  cases hcancels : reply.cancels with
  | false => simp [h]
  | true =>
    have hstop : (w.cancel).stopReason deadline ≠ none := by
      rw [ne_eq, stopReason_eq_none_iff]
      rintro ⟨-, hcanceled⟩
      obtain ⟨c, hc, hle⟩ : ∃ c ∈ w.cancel.canceledAt, c ≤ w.now := by
        cases hw : w.canceledAt <;> simp [cancel, hw]
      exact Nat.not_lt_of_le hle (hcanceled c hc)
    simpa [Option.isSome_iff_ne_none] using hstop

namespace GroupState

variable {σ : Type} {env : Environment σ} {run : GroupRun} {deadline : Option Instant}
  {s t : GroupState σ} {v : Worker} {v' : Option Worker} {e : Entry} {w : World σ}
  {start stop : Instant}

theorem Turn.isCounted_eq (ht : Turn env run deadline s t v e v') (since : Instant)
    (reply : Reply) :
    (answerOf run deadline (s.turnAt run v.due) v since reply).event.isCounted =
      !reply.dismisses := by
  rw [isCounted_answerOf, Reply.dismisses]
  cases reply.outcome <;> simp [World.isNone_stopReason_receive ht.live]

theorem Turn.answerOf_eq (ht : Turn env run deadline s t v e v') (since : Instant)
    (reply : Reply) : ∃ stopped, answerOf run deadline (s.turnAt run v.due) v since reply =
      Worker.replyAt (run.caller v) since v.due reply stopped :=
  ⟨_, by rw [answerOf, ht.now, Worker.replyAt]⟩

def Pacing (env : Environment σ) (run : GroupRun) (start stop : Instant) (s : GroupState σ) : Prop :=
  Told run (fun v h => v.Paces env run start stop h)
    (fun who h => Worker.Quits env run who start stop h) s

theorem Pacing.turn (hs : Pacing env run start stop s) (hstart : start < stop)
    (hclock : Instant.Exact stop run.delay) (hstop : stop ∈ deadline)
    (ht : Turn env run deadline s t v e v') : Pacing env run start stop t := by
  have hpaces : v.Paces env run start stop _ := hs.stands v ht.mem
  have hbefore := ht.lt_deadline stop hstop
  unfold Worker.Paces at hpaces
  refine Told.turn hs ht ?_ ?_
  · intro u hu
    cases ht.moves with
    | calls hpausing =>
      cases hu
      rw [hpausing] at hpaces
      obtain ⟨ended, hrounds, hdue⟩ := hpaces
      have hended : v.due = ended + run.delay.nanos := by
        rw [hdue] at hbefore ⊢
        exact hclock.wake_eq (hrounds.lt hstart) hbefore
      rw [ht.now]
      exact ⟨_, ended, _, hrounds, hended, hbefore, rfl, rfl, rfl⟩
    | @goesOn since reply codes hawaiting hcounted =>
      cases hu
      rw [hawaiting] at hpaces
      obtain ⟨h', ended, st, hrounds, hsince, -, hreply, hdue, hh⟩ := hpaces
      rw [ht.isCounted_eq, Bool.not_eq_true'] at hcounted
      obtain ⟨stopped, hanswer⟩ := ht.answerOf_eq since reply
      subst hsince
      rw [ht.now, hh, List.append_assoc, hanswer]
      exact ⟨_, .next stopped hrounds ⟨⟨st, hreply⟩, hdue, hbefore⟩ hcounted, rfl⟩
    | ends => cases hu
  · intro hnone
    subst hnone
    cases ht.moves with
    | @ends since reply hawaiting huncounted =>
      rw [hawaiting] at hpaces
      obtain ⟨h', ended, st, hrounds, hsince, -, hreply, hdue, hh⟩ := hpaces
      rw [ht.isCounted_eq, Bool.not_eq_false'] at huncounted
      obtain ⟨stopped, hanswer⟩ := ht.answerOf_eq since reply
      subst hsince
      rw [hh, List.append_assoc, hanswer]
      exact .dismissed stopped hrounds ⟨⟨st, hreply⟩, hdue, hbefore⟩ huncounted

end GroupState

theorem History.countP_eq_sum {run : GroupRun} {h : History} {p : Event → Bool}
    (hp : ∀ event, p event = true → event.isWork = true) (howns : ∀ e ∈ h, run.Owns e.event) :
    h.countP (fun e => p e.event) = ∑ number ∈ Finset.Icc 1 run.instances,
      (timeline (.worker run.name.group number) h).countP fun e => p e.event := by
  simp only [timeline, List.countP_filter]
  induction h with
  | nil => simp
  | cons e h ih =>
    have hrest := ih fun d hd => howns d (List.mem_cons_of_mem _ hd)
    simp only [List.countP_cons, hrest]
    by_cases he : p e.event = true
    · have hwork := hp _ he
      obtain ⟨number, hhas, hwho⟩ : ∃ number, run.Has number ∧
          e.event.who? = some (.worker run.name.group number) := by
        rcases howns e List.mem_cons_self with hline |
          ⟨number, hhas, hcalled | ⟨took, reply, stopped, hanswered⟩⟩
        · simp [Event.isWork_of_isLine hline] at hwork
        · exact ⟨number, hhas, by rw [hcalled]; rfl⟩
        · exact ⟨number, hhas, by rw [hanswered]; rfl⟩
      simp only [he, hwho, Option.some.injEq, Caller.worker.injEq, true_and, Bool.true_and,
        decide_eq_true_eq, if_true]
      rw [Finset.sum_add_distrib, Finset.sum_ite_eq, if_pos (Finset.mem_Icc.mpr hhas)]
    · simp [he]

theorem History.countP_eq_mul {run : GroupRun} {h : History} {p : Event → Bool} {n : Nat}
    (hp : ∀ event, p event = true → event.isWork = true) (howns : ∀ e ∈ h, run.Owns e.event)
    (hall : ∀ number, run.Has number →
      (timeline (.worker run.name.group number) h).countP (fun e => p e.event) = n) :
    h.countP (fun e => p e.event) = run.instances * n := by
  rw [countP_eq_sum hp howns, Finset.sum_const_nat fun number hnumber =>
    hall number (Finset.mem_Icc.mp hnumber), Nat.card_Icc, Nat.add_sub_cancel]

/-- Every call is answered, after `latency`, with a response that leaves the run alone. -/
def GroupRun.AnsweredAfter {σ : Type} (env : Environment σ) (run : GroupRun) (latency : Duration) :
    Prop :=
  ∀ st, ∃ r, (env.target.post run.call st).1 = ⟨latency, false, .response r⟩

/-- How often a period ends before `stop`, everything being a multiple of `unit`. -/
theorem periods_eq {start stop n period unit : Nat} (hunit : 0 < unit) (hlength : unit ∣ stop - start)
    (hperiod : unit ∣ period) (hlt : start + n * period < stop)
    (hle : stop ≤ start + n * period + period) : (stop - start - unit) / period = n := by
  obtain ⟨a, ha⟩ := hlength
  obtain ⟨b, rfl⟩ := hperiod
  have hcount : n * (unit * b) = unit * (n * b) := Nat.mul_left_comm n unit b
  have hless : n * b < a := Nat.lt_of_mul_lt_mul_left (a := unit) (by omega)
  have hfull : unit * (n * b + 1) ≤ unit * a := Nat.mul_le_mul_left unit hless
  rw [Nat.mul_succ] at hfull
  apply Nat.div_eq_of_lt_le
  · omega
  · rw [Nat.succ_mul]
    omega

theorem periods_eq_ceil {start stop period unit : Nat} (hunit : 0 < unit)
    (hlength : unit ∣ stop - start) (hperiod : unit ∣ period) (hpos : 0 < period)
    (hlt : start < stop) :
    (stop - start - unit) / period = (stop - start + period - 1) / period - 1 := by
  have hsum : stop - start + period - 1 = stop - start - 1 + period := by omega
  have hfull := Nat.div_add_mod (stop - start - 1) period
  have hrest := Nat.mod_lt (stop - start - 1) hpos
  rw [hsum, Nat.add_div_right _ hpos, Nat.add_sub_cancel]
  rw [Nat.mul_comm] at hfull
  exact periods_eq hunit hlength hperiod (by omega) (by omega)

namespace Worker

variable {σ : Type} {env : Environment σ} {run : GroupRun} {group number : Nat}
  {start stop ended : Instant} {h : History} {latency : Duration}

theorem Rounds.ended_eq (hr : Rounds env run (.worker group number) start stop h ended)
    (hanswered : run.AnsweredAfter env latency) (hclock : Instant.Exact stop latency) :
    ended = start + h.responses.length * (run.delay.nanos + latency.nanos) ∧
      h.workCalls = h.responses.length := by
  induction hr with
  | none => exact ⟨by simp [History.responses], rfl⟩
  | @next h ended back reply stopped hrounds hback _ ih =>
    obtain ⟨hended, hcalls⟩ := ih
    obtain ⟨st, hsettled⟩ := hback.settled
    obtain ⟨r, hr⟩ := hanswered st
    rw [hr] at hsettled
    subst hsettled
    have hafter : back = Instant.wake (ended + run.delay.nanos) latency := hback.after
    have hbefore := hback.before
    have hsince : ended + run.delay.nanos < stop :=
      Nat.lt_of_le_of_lt (hafter ▸ Instant.le_wake _ _) hbefore
    rw [hafter] at hbefore
    have hexact := hafter.trans (hclock.wake_eq hsince hbefore)
    have hresponses : History.responses [callAt run (.worker group number) (ended + run.delay.nanos),
        replyAt (.worker group number) (ended + run.delay.nanos) back ⟨latency, false, .response r⟩
          stopped] = [(Instant.elapsed (ended + run.delay.nanos) back, r)] := rfl
    have hone : History.workCalls [callAt run (.worker group number) (ended + run.delay.nanos),
        replyAt (.worker group number) (ended + run.delay.nanos) back ⟨latency, false, .response r⟩
          stopped] = 1 := rfl
    rw [History.responses_append, List.length_append, hresponses, History.workCalls_append, hone]
    refine ⟨?_, by rw [hcalls]; rfl⟩
    rw [List.length_singleton, Nat.succ_mul, hexact, hended]
    simp only [Nat.add_assoc]

theorem Lasts.responses_eq (hl : Lasts env run (.worker group number) start stop stop h)
    (hstart : start < stop) (hanswered : run.AnsweredAfter env latency)
    (hclock : Instant.Exact stop latency) {unit : Nat} (hunit : 0 < unit)
    (hlength : unit ∣ stop - start) (hdelay : unit ∣ run.delay.nanos)
    (hlatency : unit ∣ latency.nanos) :
    h.responses.length = (stop - start - unit) / (run.delay.nanos + latency.nanos) ∧
      (latency = .zero → h.workCalls = h.responses.length) := by
  have hperiod := Nat.dvd_add hdelay hlatency
  cases hl with
  | @pausing h ended hrounds hlate =>
    obtain ⟨hended, hcalls⟩ := hrounds.ended_eq hanswered hclock
    have hlt := hrounds.lt hstart
    rw [hended] at hlt hlate
    have hle := Nat.le_trans hlate (Nat.add_le_add_left (Nat.le_add_right _ latency.nanos) _)
    exact ⟨(periods_eq hunit hlength hperiod hlt hle).symm, fun _ => hcalls⟩
  | @calling h ended st hrounds hstarted hlate =>
    obtain ⟨hended, hcalls⟩ := hrounds.ended_eq hanswered hclock
    obtain ⟨r, hr⟩ := hanswered st
    have hlt := hrounds.lt hstart
    rw [hr] at hlate
    have hadd := hclock.le_add hstarted hlate (Nat.le_refl stop)
    have hresponses : History.responses
        [callAt run (.worker group number) (ended + run.delay.nanos)] = [] := rfl
    rw [History.responses_append, hresponses, List.append_nil]
    refine ⟨?_, ?_⟩
    · rw [hended] at hlt
      rw [hended, Nat.add_assoc] at hadd
      exact (periods_eq hunit hlength hperiod hlt hadd).symm
    · rintro rfl
      rw [Duration.zero_nanos, Nat.add_zero] at hadd
      exact absurd hstarted (Nat.not_lt_of_le hadd)

theorem Quits.not_answered (hq : Quits env run (.worker group number) start stop h) :
    ¬ run.AnsweredAfter env latency := by
  intro hanswered
  cases hq with
  | dismissed stopped hrounds hback hends =>
    obtain ⟨st, hsettled⟩ := hback.settled
    obtain ⟨r, hr⟩ := hanswered st
    rw [hsettled, hr] at hends
    cases hends

end Worker

def Target.steady (latency : Duration) : Target Unit := ⟨fun _ _ => (.ofResponse latency 200 [], ())⟩

namespace GroupRun

variable {σ : Type} {env : Environment σ} {turns : Nat} {run : GroupRun} {outer : Option Instant}
  {w : World σ} {stats : Statistics} {out : GroupOutcome σ} {stop : Instant}

open GroupState

theorem perform_stops {s : GroupState σ} (hdeadline : w.within outer run.duration = some stop)
    (hstop : w.now < stop) (hs : Timely w (w.within outer run.duration) s)
    (hends : Ends run (w.within outer run.duration) s out) (hworkers : s.workers ≠ [])
    (hlive : ∀ c ∈ out.world.canceledAt, stop ≤ c) :
    out.world.now = stop ∧ out.exit = .stopped .deadlineExceeded := by
  obtain ⟨hnone, -⟩ | ⟨halt, hhalt, -, -, hworld⟩ := hends.ways
  · exact absurd hnone hworkers
  have hcanceled : out.world.canceledAt = s.world.canceledAt := by rw [hworld]; rfl
  have heq : halt = stop := by
    rw [World.stopAt, hdeadline] at hhalt
    rw [hcanceled] at hlive
    cases hc : s.world.canceledAt with
    | none => simpa [hc] using hhalt.symm
    | some c =>
      have hle := hlive c hc
      rw [hc, earliest?_some_some, Nat.min_eq_left hle] at hhalt
      exact (Option.some.inj hhalt).symm
  subst heq
  have hnow : out.world.now = halt := by
    have hbefore := hs.now halt hdeadline
    rw [hworld, World.advance_now]
    grind
  refine ⟨hnow, ?_⟩
  rw [hends.exit, World.stopReason, StopReason.observe, hdeadline, hnow]
  simp

theorem perform_lasts (hdeadline : w.within outer run.duration = some stop) (hstop : w.now < stop)
    (hclock : Instant.Exact stop run.delay)
    (h : run.perform env turns outer w stats = some out) {number : Nat} (hhas : run.Has number) :
    Worker.Quits env run (.worker run.name.group number) w.now stop
        (History.timeline (.worker run.name.group number) out.history) ∨
      Worker.Lasts env run (.worker run.name.group number) w.now stop out.world.now
        (History.timeline (.worker run.name.group number) out.history) ∧
      ((∀ c ∈ out.world.canceledAt, stop ≤ c) →
        out.world.now = stop ∧ out.exit = .stopped .deadlineExceeded) := by
  obtain ⟨s, hs, htimely, hends, hstands, hended⟩ := perform_tells
    (fun v h => v.Paces env run w.now stop h) (fun who h => Worker.Quits env run who w.now stop h)
    (fun _ => ⟨_, .none, rfl⟩) (fun _ _ _ _ _ hs ht => Pacing.turn hs hstop hclock hdeadline ht) h
  by_cases hnumber : number ∈ s.numbers
  · obtain ⟨v, hv, rfl⟩ := List.mem_map.mp hnumber
    refine .inr ⟨?_, perform_stops hdeadline hstop htimely hends (List.ne_nil_of_mem hv)⟩
    have hle : out.world.now ≤ stop := by
      have hnow := (perform_timely h hdeadline).1
      rwa [Nat.max_eq_right (Nat.le_of_lt hstop)] at hnow
    have hdue := hends.le_due hs hv
    have hpaces : v.Paces env run w.now stop _ := hstands v hv
    unfold Worker.Paces at hpaces
    split at hpaces
    · obtain ⟨ended, hrounds, hpause⟩ := hpaces
      exact .pausing hrounds (hclock.le_add (hrounds.lt hstop) (hpause ▸ hdue) hle)
    · obtain ⟨h', ended, st, hrounds, hsince, hbefore, hreply, hlate, hh⟩ := hpaces
      have hlast : History.timeline (.worker run.name.group v.number) out.history = _ := hh
      subst hsince hreply
      rw [hlast]
      exact .calling st hrounds hbefore (hlate ▸ hdue)
  · exact .inl (hended number hhas hnumber)

/-- How often the workers of a group are answered if every answer takes equally long. -/
theorem perform_answers (hdelay : 0 < run.delay.nanos)
    (hdeadline : w.within outer run.duration = some stop) (hstop : w.now < stop)
    (hclock : Instant.Exact stop run.delay)
    (h : run.perform env turns outer w stats = some out) {latency : Duration} {unit : Nat}
    (hanswered : run.AnsweredAfter env latency) (hexact : Instant.Exact stop latency)
    (hlive : ∀ c ∈ out.world.canceledAt, stop ≤ c) (hunit : 0 < unit)
    (hlength : unit ∣ stop - w.now) (hpause : unit ∣ run.delay.nanos)
    (hlatency : unit ∣ latency.nanos) :
    (∀ number, run.Has number →
      (History.timeline (.worker run.name.group number) out.history).responses.length =
        (stop - w.now - unit) / (run.delay.nanos + latency.nanos)) ∧
    out.history.responses.length =
      run.instances * ((stop - w.now - unit) / (run.delay.nanos + latency.nanos)) ∧
    (latency = .zero →
      (stop - w.now - unit) / (run.delay.nanos + latency.nanos) =
        (stop - w.now + run.delay.nanos - 1) / run.delay.nanos - 1 ∧
      out.history.workCalls = out.history.responses.length) := by
  have hworker : ∀ number, run.Has number →
      (History.timeline (.worker run.name.group number) out.history).responses.length =
          (stop - w.now - unit) / (run.delay.nanos + latency.nanos) ∧
        (latency = .zero →
          (History.timeline (.worker run.name.group number) out.history).workCalls =
            (History.timeline (.worker run.name.group number) out.history).responses.length) := by
    intro number hhas
    rcases perform_lasts hdeadline hstop hclock h hhas with hquits | ⟨hlasts, hstops⟩
    · exact absurd hanswered hquits.not_answered
    · rw [(hstops hlive).1] at hlasts
      exact hlasts.responses_eq hstop hanswered hexact hunit hlength hpause hlatency
  have hresponses : out.history.responses.length =
      run.instances * ((stop - w.now - unit) / (run.delay.nanos + latency.nanos)) := by
    rw [History.length_responses]
    refine History.countP_eq_mul (p := fun event => event.response?.isSome)
      (fun _ => Event.isWork_of_response?) (perform_owns h) fun number hhas => ?_
    rw [← History.length_responses]
    exact (hworker number hhas).1
  refine ⟨fun number hhas => (hworker number hhas).1, hresponses, fun hzero => ⟨?_, ?_⟩⟩
  · rw [hzero, Duration.zero_nanos, Nat.add_zero]
    exact periods_eq_ceil hunit hlength hpause hdelay hstop
  · rw [hresponses]
    exact History.countP_eq_mul (p := Event.isWorkCall) (fun _ => Event.isWork_of_isWorkCall)
      (perform_owns h) fun number hhas =>
        ((hworker number hhas).2 hzero).trans (hworker number hhas).1

/-- A group with a pause before every call comes to its end. Each of its workers starts its first
call when it has paused, and every further call when it has paused since the end of the one before;
none starts from the deadline on. A worker that does not end with a fatal fault, a breakdown or a
cancellation is there when the group stops, at its deadline unless the run is cancelled before,
pausing or with a call that is dropped. If all calls are answered, and take equally long, that
settles how many answers there are. -/
theorem perform_paces (hdelay : 0 < run.delay.nanos)
    (hdeadline : w.within outer run.duration = some stop) (hstop : w.now < stop)
    (hclock : Instant.Exact stop run.delay) (env : Environment σ) (stats : Statistics) :
    (∀ turns, run.instances * (2 * (stop - w.now)) ≤ turns →
      ∃ out, run.perform env turns outer w stats = some out) ∧
    ∀ turns out, run.perform env turns outer w stats = some out →
      (∀ e ∈ out.history, e.event.isWorkCall = true → e.instant < stop) ∧
      stats.Counts out.history out.stats ∧
      (∀ number, run.Has number →
        Worker.Quits env run (.worker run.name.group number) w.now stop
          (History.timeline (.worker run.name.group number) out.history) ∨
        Worker.Lasts env run (.worker run.name.group number) w.now stop out.world.now
          (History.timeline (.worker run.name.group number) out.history) ∧
        ((∀ c ∈ out.world.canceledAt, stop ≤ c) →
          out.world.now = stop ∧ out.exit = .stopped .deadlineExceeded)) ∧
      ∀ latency unit, run.AnsweredAfter env latency → Instant.Exact stop latency →
        (∀ c ∈ out.world.canceledAt, stop ≤ c) → 0 < unit → unit ∣ stop - w.now →
        unit ∣ run.delay.nanos → unit ∣ latency.nanos →
        (∀ number, run.Has number →
          (History.timeline (.worker run.name.group number) out.history).responses.length =
            (stop - w.now - unit) / (run.delay.nanos + latency.nanos)) ∧
        out.history.responses.length =
          run.instances * ((stop - w.now - unit) / (run.delay.nanos + latency.nanos)) ∧
        (latency = .zero →
          (stop - w.now - unit) / (run.delay.nanos + latency.nanos) =
            (stop - w.now + run.delay.nanos - 1) / run.delay.nanos - 1 ∧
          out.history.workCalls = out.history.responses.length) := by
  refine ⟨fun turns hturns => exists_perform (fun _ => Nat.lt_of_lt_of_le hdelay
    (Nat.le_add_right _ _)) hdeadline hturns, fun turns out h => ?_⟩
  refine ⟨fun e he hcall => ?_, (perform_tallies h).1.counts, fun number hhas =>
    perform_lasts hdeadline hstop hclock h hhas, ?_⟩
  · exact (perform_timely h hdeadline).2 e he (Event.opens_of_isWorkCall hcall)
  · intro latency unit hanswered hexact hlive hunit hlength hpause hlatency
    exact perform_answers hdelay hdeadline hstop hclock h hanswered hexact hlive hunit hlength hpause
      hlatency

/-- Two workers that pause for 30 ms before each call, in a group that lasts for 115 ms. -/
def brief : GroupRun := ⟨⟨"load", 1⟩, 2, .ofMillis 115, .ofMillis 30, .ofSecs 1, "ping", .ofSecs 60⟩

/-- With answers after 10 ms, each of the two workers has two of them; its third call is dropped. -/
theorem brief_paces :
    0 < brief.delay.nanos ∧
    (World.start () none).within none brief.duration = some 115000000 ∧
    Instant.Exact 115000000 brief.delay ∧
    ∃ out, brief.perform (.orderly (.steady (.ofMillis 10))) 20 none (.start () none) .empty =
        some out ∧
      out.history.responses.length = 4 ∧ out.history.workCalls = 6 ∧
      ∀ number, brief.Has number → Worker.Lasts (.orderly (.steady (.ofMillis 10))) brief
        (.worker 1 number) 0 115000000 115000000
        (History.timeline (.worker 1 number) out.history) := by
  have hdelay : 0 < brief.delay.nanos := by decide
  have hdeadline : (World.start () none).within none brief.duration = some 115000000 := rfl
  have hexact : ∀ d, Instant.Exact 115000000 d := Instant.exact_of_le_farAway (by decide)
  have hpaces := perform_paces hdelay hdeadline (by decide) (hexact brief.delay)
    (.orderly (.steady (.ofMillis 10))) .empty
  have hcheck : (brief.perform (.orderly (.steady (.ofMillis 10))) 20 none (.start () none)
      .empty).map (fun out => (out.world.canceledAt, out.history.workCalls)) = some (none, 6) := by
    decide +kernel
  obtain ⟨out, hperform, hout⟩ := Option.map_eq_some_iff.mp hcheck
  obtain ⟨hcanceled, hcalls⟩ := Prod.mk.inj hout
  have hlive : ∀ c ∈ out.world.canceledAt, 115000000 ≤ c := by simp [hcanceled]
  have hanswered : brief.AnsweredAfter (.orderly (.steady (.ofMillis 10))) (.ofMillis 10) :=
    fun _ => ⟨⟨200, []⟩, rfl⟩
  obtain ⟨-, -, hworkers, hcount⟩ := hpaces.2 20 out hperform
  obtain ⟨-, hresponses, -⟩ := hcount (.ofMillis 10) (10 ^ 6) hanswered (hexact _) hlive (by decide)
    (by decide) (by decide) (by decide)
  refine ⟨hdelay, hdeadline, hexact _, out, hperform, hresponses, hcalls, fun number hhas => ?_⟩
  rcases hworkers number hhas with hquits | ⟨hlasts, hstops⟩
  · exact absurd hanswered hquits.not_answered
  · rw [(hstops hlive).1] at hlasts
    exact hlasts

end GroupRun

end PhasedLoad
