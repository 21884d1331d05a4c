import Mathlib.Data.List.Perm.Basic
import PhasedLoad.Proofs.Group.Copies

/-! A group of `n` workers whose calls all have the same reply counts `n` times what one of them
counts alone, whoever's turn it is among them. -/

namespace PhasedLoad

theorem Event.isWork_of_isFailure {event : Event} (h : event.isFailure = true) :
    event.isWork = true := by
  unfold isFailure at h
  split at h
  · rfl
  · cases h

namespace History

variable {h one : History} {n : Nat}

theorem count_responses (r : Duration × Response) (h : History) :
    h.responses.count r = h.countP fun e => e.event.response? == some r := by
  rw [List.count, responses, List.countP_filterMap]
  refine List.countP_congr fun e _ => ?_
  cases e.event.response? <;> simp

def times (n : Nat) (h : History) : History := (List.replicate n h).flatten

theorem times_succ (n : Nat) (h : History) : times (n + 1) h = h ++ times n h := by
  rw [times, List.replicate_succ, List.flatten_cons, times]

theorem countP_responses_times (p : Duration × Response → Bool) (n : Nat) (h : History) :
    (times n h).responses.countP p = n * h.responses.countP p := by
  induction n with
  | zero => simp [times, responses]
  | succ n ih =>
    rw [times_succ, responses_append, List.countP_append, ih, Nat.succ_mul, Nat.add_comm]

theorem recorded_times (n : Nat) (h : History) : (times n h).recorded = .ofNat n * h.recorded := by
  induction n with
  | zero => simp [times, recorded, responses]
  | succ n ih =>
    rw [times_succ, recorded_append, ih, UInt64.ofNat_add, UInt64.add_mul, UInt64.add_comm]
    simp

theorem recorded_congr {h' : History} (hperm : h.responses.Perm h'.responses) :
    h.recorded = h'.recorded := by
  have : LeftCommutative fun (r : Duration × Response) total => Statistics.microsOf r.1 + total :=
    ⟨fun a b c => by ac_rfl⟩
  exact hperm.foldr_eq 0

/-- What counts in a history is what counts in `n` of another one, in some order. -/
structure Multiplies (n : Nat) (one h : History) : Prop where
  responses : h.responses.Perm (times n one).responses
  failures : h.failures = n * one.failures
  workCalls : h.workCalls = n * one.workCalls

namespace Multiplies

theorem countP (hm : Multiplies n one h) (p : Duration × Response → Bool) :
    h.responses.countP p = n * one.responses.countP p := by
  rw [hm.responses.countP_eq, countP_responses_times]

theorem length_responses (hm : Multiplies n one h) :
    h.responses.length = n * one.responses.length := by
  have hcount := hm.countP fun _ => true
  simpa only [List.countP_true] using hcount

theorem errors (hm : Multiplies n one h) : h.errors = n * one.errors := by
  rw [History.errors, History.errors, hm.failures, hm.countP, Nat.mul_add]

theorem answers (hm : Multiplies n one h) (p : Nat → Bool) : h.answers p = n * one.answers p :=
  hm.countP _

theorem recorded (hm : Multiplies n one h) : h.recorded = .ofNat n * one.recorded := by
  rw [recorded_congr hm.responses, recorded_times]

end Multiplies

end History

namespace Statistics

variable {s t t₁ : Statistics} {h one : History} {n : Nat}

theorem Counts.multiplies (ht : s.Counts h t) (ht₁ : empty.Counts one t₁)
    (hm : History.Multiplies n one h) :
    t.counters.requests = s.counters.requests + .ofNat n * t₁.counters.requests ∧
    t.counters.errors = s.counters.errors + .ofNat n * t₁.counters.errors ∧
    t.counters.micros = s.counters.micros + .ofNat n * t₁.counters.micros := by
  refine ⟨?_, ?_, ?_⟩
  · rw [ht.requests, ht₁.requests, hm.length_responses, UInt64.ofNat_mul]
    simp [empty, Snapshot.zero]
  · rw [ht.errors, ht₁.errors, hm.errors, UInt64.ofNat_mul]
    simp [empty, Snapshot.zero]
  · rw [ht.micros, ht₁.micros, hm.recorded]
    simp [empty, Snapshot.zero]

end Statistics

namespace GroupState

variable {σ : Type} {env : Environment σ} {run : GroupRun} {deadline : Option Instant}
  {s : GroupState σ} {codes : Histogram} {v : Worker}

/-- Without a response there is no status to hand in. -/
structure Blank (codes : Histogram) (s : GroupState σ) : Prop where
  paced : s.Paced
  codes : History.responses s.past.reverse = [] →
    s.stats.codes = codes ∧ ∀ v ∈ s.workers, v.codes = []

theorem blank_start (run : GroupRun) (w : World σ) (stats : Statistics) :
    Blank stats.codes (startOf run w stats) where
  paced := (sound_start run w stats).paced
  codes := fun _ => ⟨rfl, fun v hv => by
    obtain ⟨i, -, rfl⟩ := List.mem_map.mp hv
    rfl⟩

theorem Blank.advance (hs : Blank codes s) (run : GroupRun) (due : Instant) :
    Blank codes (s.advance run due) := by
  obtain ⟨h, reporter, broken, heq, -, -, hpaced⟩ := advance_eq hs.paced run due
  refine ⟨hpaced, fun hnone => ?_⟩
  rw [heq, List.reverse_append, History.responses_append, List.append_eq_nil_iff] at hnone
  rw [heq]
  exact hs.codes hnone.1

theorem codes_put (hblank : ∀ u ∈ s.workers, u.codes = []) (hv : v.codes = []) :
    ∀ u ∈ (s.put v).workers, u.codes = [] := by
  intro u hu
  obtain ⟨u', hu', rfl⟩ := List.mem_map.mp hu
  split
  · exact hv
  · exact hblank u' hu'

theorem codes_drop (hblank : ∀ u ∈ s.workers, u.codes = []) :
    ∀ u ∈ (s.drop v).workers, u.codes = [] :=
  fun u hu => hblank u (List.mem_of_mem_filter hu)

theorem Acts.blank {t : GroupState σ} (ha : Acts env run deadline s v t)
    (hs : s.stats.codes = codes ∧ ∀ u ∈ s.workers, u.codes = []) (hv : v ∈ s.workers)
    (hnone : History.responses t.past.reverse = []) :
    t.stats.codes = codes ∧ ∀ u ∈ t.workers, u.codes = [] := by
  obtain ⟨hcodes, hblank⟩ := hs
  have hput : ∀ due activity,
      t.workers = (s.put { v with due := due, activity := activity }).workers →
      ∀ u ∈ t.workers, u.codes = [] :=
    fun due activity hworkers => hworkers ▸ codes_put hblank (hblank v hv)
  have hdrop : t.workers = (s.drop v).workers → ∀ u ∈ t.workers, u.codes = [] :=
    fun hworkers => hworkers ▸ codes_drop hblank
  cases ha with
  | called _ _ hstats hworkers => exact ⟨hstats ▸ hcodes, hput _ _ hworkers⟩
  | responded _ houtcome _ _ _ _ hpast =>
    rw [hpast, List.reverse_append, List.reverse_cons, History.responses_append,
      History.responses_append] at hnone
    simp [houtcome] at hnone
  | failed _ _ _ _ _ hstats hworkers => exact ⟨hstats ▸ hcodes, hput _ _ hworkers⟩
  | ended _ _ _ _ hstats hworkers =>
    rw [hstats, Statistics.mergeCodes, hblank v hv]
    exact ⟨hcodes, hdrop hworkers⟩
  | panicked _ _ _ hstats hworkers => exact ⟨hstats ▸ hcodes, hdrop hworkers⟩

theorem Blank.step (env : Environment σ) (hs : Blank codes s)
    (h : s.settled? run deadline = none) : Blank codes (s.step env run deadline) := by
  obtain ⟨v, hv, -, -, hacts, hpaced⟩ := step_cases env hs.paced h
  have ht := hs.advance run v.due
  rw [← advance_workers hs.paced run v.due] at hv
  refine ⟨hpaced, fun hnone => hacts.blank (ht.codes ?_) hv hnone⟩
  obtain ⟨h, e, hpast, -⟩ := hacts.past_eq
  have hpast' : (s.turnAt run v.due).past = (s.advance run v.due).past := rfl
  rw [hpast, List.reverse_append, List.reverse_cons, History.responses_append,
    History.responses_append, hpast'] at hnone
  simp_all

end GroupState

namespace GroupRun

variable {σ : Type} {env : Environment σ} {turns : Nat} {run : GroupRun} {outer : Option Instant}
  {w : World σ} {stats : Statistics} {out : GroupOutcome σ} {reply : Reply} {k : Nat} {now : Instant}

open GroupState

theorem perform_blank (h : run.perform env turns outer w stats = some out)
    (hnone : out.history.responses = []) : out.stats.codes = stats.codes := by
  obtain ⟨u, lines, hu, hhistory, -, hstats⟩ := perform_induction (P := Blank stats.codes)
    (blank_start run w stats) (fun _ hs hn => hs.step env hn) (fun _ due hs => hs.advance run due) h
  rw [hhistory, History.responses_append, List.append_eq_nil_iff] at hnone
  obtain ⟨hcodes, hblank⟩ := hu.codes hnone.1
  have hmerge : ∀ (l : List Worker) (st : Statistics), (∀ v ∈ l, v.codes = []) →
      (l.foldl (fun st v => st.mergeCodes v.codes) st).codes = st.codes := by
    intro l
    induction l with
    | nil => exact fun _ _ => rfl
    | cons v l ih =>
      intro st hl
      rw [List.foldl_cons, ih _ fun u hu => hl u (List.mem_cons_of_mem v hu), Statistics.mergeCodes,
        hl v List.mem_cons_self]
      rfl
  rw [hstats]
  exact (hmerge _ _ hblank).trans hcodes

def alone (run : GroupRun) : GroupRun := { run with instances := 1 }

theorem gives_alone {target : Target σ} (h : target.Gives run.call reply) :
    target.Gives run.alone.call reply :=
  h

theorem exists_perform_of_spends (hgives : env.target.Gives run.call reply)
    (hstays : reply.cancels = false)
    (hk : Stage.Spends run.delay reply w.now (w.stopAt (w.within outer run.duration)) k now)
    (stats : Statistics) (hturns : run.instances * k ≤ turns) :
    ∃ out, run.perform env turns outer w stats = some out := by
  cases hperform : run.perform env turns outer w stats with
  | some out => exact ⟨out, rfl⟩
  | none =>
    have hnone := play_eq_none_iff.mp (perform_eq_none_iff.mp hperform)
    obtain ⟨hs, hcopying, hcount⟩ := (underway_start run w stats).after (n := turns + 1)
      (copying_start run reply w stats)
      (fun _ _ _ _ _ hs hP ht => hP.turn hgives hstays hs ht)
      fun m hm => hnone m (Nat.le_of_lt_succ hm)
    have hle := hcopying.countP_isWork_le hs hk
    omega

section

variable {env₁ : Environment σ} {turns₁ : Nat} {one : GroupOutcome σ}

/-- A group of copies and one of them alone take equally long, and each worker does the same. -/
theorem perform_deeds (hgives : env.target.Gives run.call reply)
    (hgives₁ : env₁.target.Gives run.call reply) (hstays : reply.cancels = false)
    (hpositive : 0 < run.instances) (h : run.perform env turns outer w stats = some out)
    (hone : run.alone.perform env₁ turns₁ outer w .empty = some one) :
    out.world.canceledAt = one.world.canceledAt ∧ out.world.now = one.world.now ∧
    ∃ k, (∀ number, run.Has number →
        History.timeline (.worker run.name.group number) out.history =
          Stage.deeds run reply w.now (.worker run.name.group number) k) ∧
      History.timeline (.worker run.name.group 1) one.history =
        Stage.deeds run reply w.now (.worker run.name.group 1) k := by
  obtain ⟨hcanceled, k, hspends, hall⟩ := perform_spends hgives hstays hpositive h
  obtain ⟨hcanceled₁, k₁, hspends₁, hall₁⟩ :=
    perform_spends (gives_alone hgives₁) hstays Nat.one_pos hone
  obtain ⟨rfl, hnow⟩ := hspends.unique hspends₁
  exact ⟨hcanceled.trans hcanceled₁.symm, hnow, k, hall,
    hall₁ 1 ⟨Nat.le_refl 1, Nat.le_refl 1⟩⟩

/-- Of what does not depend on who does it, a group of copies does as many times as much. -/
theorem countP_of_deeds {p : Event → Bool} (hp : ∀ event, p event = true → event.isWork = true)
    (hcalled : ∀ group a b call,
      p (.called (.worker group a) call) = p (.called (.worker group b) call))
    (hanswered : ∀ group a b took reply stopped,
      p (.answered (.worker group a) took reply stopped) =
        p (.answered (.worker group b) took reply stopped))
    (h : run.perform env turns outer w stats = some out)
    (hone : run.alone.perform env₁ turns₁ outer w .empty = some one)
    (hall : ∀ number, run.Has number →
      History.timeline (.worker run.name.group number) out.history =
        Stage.deeds run reply w.now (.worker run.name.group number) k)
    (halone : History.timeline (.worker run.name.group 1) one.history =
      Stage.deeds run reply w.now (.worker run.name.group 1) k) :
    out.history.countP (fun e => p e.event) =
      run.instances * one.history.countP (fun e => p e.event) := by
  have hblind : ∀ number stage, p (Stage.deed run (.worker run.name.group number) stage).event =
      p (Stage.deed run (.worker run.name.group 1) stage).event := by
    intro number stage
    rw [Stage.deed, Stage.deed]
    cases stage.activity with
    | pausing => exact hcalled _ _ _ _
    | awaiting since reply => exact hanswered _ _ _ _ _ _
  have hsame : ∀ number, (Stage.deeds run reply w.now (.worker run.name.group number) k).countP
      (fun e => p e.event) = one.history.countP fun e => p e.event := by
    intro number
    have halone' := History.countP_eq_mul hp (perform_owns hone) fun i hi => by
      obtain rfl : i = 1 := Nat.le_antisymm hi.2 hi.1
      exact congrArg (List.countP fun e => p e.event) halone
    rw [halone', alone, Nat.one_mul]
    simp only [Stage.deeds, List.countP_map, Function.comp_def, hblind number]
  exact History.countP_eq_mul hp (perform_owns h) fun number hhas => by
    rw [hall number hhas, hsame]

theorem perform_multiplies (hgives : env.target.Gives run.call reply)
    (hgives₁ : env₁.target.Gives run.call reply) (hstays : reply.cancels = false)
    (hpositive : 0 < run.instances) (h : run.perform env turns outer w stats = some out)
    (hone : run.alone.perform env₁ turns₁ outer w .empty = some one) :
    History.Multiplies run.instances one.history out.history := by
  obtain ⟨-, -, k, hall, halone⟩ := perform_deeds hgives hgives₁ hstays hpositive h hone
  refine ⟨List.perm_iff_count.mpr fun r => ?_, ?_, ?_⟩
  · have hcount := countP_of_deeds (p := fun event => event.response? == some r)
      (fun event hr => Event.isWork_of_response? (by simp [eq_of_beq hr]))
      (fun _ _ _ _ => rfl) (fun _ _ _ _ _ _ => rfl) h hone hall halone
    rw [History.count_responses, hcount, ← History.count_responses]
    exact (History.countP_responses_times _ _ _).symm
  · exact countP_of_deeds (fun _ => Event.isWork_of_isFailure) (fun _ _ _ _ => rfl)
      (fun _ _ _ _ _ _ => rfl) h hone hall halone
  · exact countP_of_deeds (fun _ => Event.isWork_of_isWorkCall) (fun _ _ _ _ => rfl)
      (fun _ _ _ _ _ _ => rfl) h hone hall halone

end

theorem perform_replies (hgives : env.target.Gives run.call reply) (hstays : reply.cancels = false)
    (hpositive : 0 < run.instances) (h : run.perform env turns outer w stats = some out) {e : Entry}
    (he : e ∈ out.history) {who : Caller} {took : Duration} {r : Reply} {stopped : Option StopReason}
    (hanswered : e.event = .answered who took r stopped) : r = reply := by
  obtain ⟨-, k, -, hall⟩ := perform_spends hgives hstays hpositive h
  obtain ⟨number, hhas, hwho⟩ : ∃ number, run.Has number ∧
      e.event.who? = some (.worker run.name.group number) := by
    rcases perform_owns h e he with hline | ⟨number, hhas, hcalled | ⟨took, r, stopped, hmine⟩⟩
    · rw [hanswered] at hline
      cases hline
    · rw [hanswered] at hcalled
      cases hcalled
    · exact ⟨number, hhas, by rw [hmine]; rfl⟩
  have hmem : e ∈ History.timeline (.worker run.name.group number) out.history :=
    List.mem_filter.mpr ⟨he, decide_eq_true hwho⟩
  rw [hall number hhas] at hmem
  obtain ⟨j, -, rfl⟩ := List.mem_map.mp hmem
  rw [Stage.deed] at hanswered
  split at hanswered
  · cases hanswered
  · next hawaiting =>
    cases hanswered
    exact Stage.reply_of_nth hawaiting

theorem perform_responses_eq_nil (hgives : env.target.Gives run.call reply)
    (hstays : reply.cancels = false) (hpositive : 0 < run.instances)
    (h : run.perform env turns outer w stats = some out) {text : String}
    (hpanic : reply.outcome = .panic text) : out.history.responses = [] := by
  refine List.filterMap_eq_nil_iff.mpr fun e he => ?_
  unfold Event.response?
  split
  · next hevent =>
    obtain rfl := perform_replies hgives hstays hpositive h he hevent
    rw [hpanic]
  · rfl

theorem perform_breaksDown_eq_false (hgives : env.target.Gives run.call reply)
    (hstays : reply.cancels = false) (hpositive : 0 < run.instances)
    (h : run.perform env turns outer w stats = some out)
    (hpanic : ¬ ∃ text, reply.outcome = .panic text) : out.history.breaksDown = false := by
  refine List.any_eq_false.mpr fun e he => ?_
  unfold Event.isBreakdown
  split
  · next hevent =>
    obtain rfl := perform_replies hgives hstays hpositive h he hevent
    split
    · next houtcome => exact absurd ⟨_, houtcome⟩ hpanic
    · exact Bool.false_ne_true
  · exact Bool.false_ne_true

theorem perform_codes {env₁ : Environment σ} {turns₁ : Nat} {one : GroupOutcome σ}
    (hgives : env.target.Gives run.call reply)
    (hgives₁ : env₁.target.Gives run.call reply) (hstays : reply.cancels = false)
    (hpositive : 0 < run.instances) (h : run.perform env turns outer w stats = some out)
    (hone : run.alone.perform env₁ turns₁ outer w .empty = some one)
    (hascending : stats.codes.Ascending) (status : Nat) :
    out.stats.codes.count status =
      stats.codes.count status + .ofNat run.instances * one.stats.codes.count status := by
  by_cases hpanic : ∃ text, reply.outcome = .panic text
  · -- No worker lives to hand in its statuses, but there are none.
    obtain ⟨text, hpanic⟩ := hpanic
    have hnone := perform_responses_eq_nil hgives hstays hpositive h hpanic
    have hnone₁ := perform_responses_eq_nil (gives_alone hgives₁) hstays Nat.one_pos hone hpanic
    rw [perform_blank h hnone, perform_blank hone hnone₁]
    simp [Statistics.empty, Histogram.count]
  · obtain ⟨ht, -⟩ := perform_tallies h
    obtain ⟨ht₁, -⟩ := perform_tallies hone
    have hlive := perform_breaksDown_eq_false hgives hstays hpositive h hpanic
    have hlive₁ := perform_breaksDown_eq_false (gives_alone hgives₁) hstays Nat.one_pos hone
      hpanic
    have hempty : Statistics.empty.codes.Ascending := List.Pairwise.nil
    rw [(ht.ascending hascending).count_eq_weight, (ht₁.ascending hempty).count_eq_weight,
      hascending.count_eq_weight, ht.codes hlive, ht₁.codes hlive₁,
      (perform_multiplies hgives hgives₁ hstays hpositive h hone).answers, UInt64.ofNat_mul]
    simp [Statistics.empty]

theorem perform_spends_iff (target : Target σ) (order : Nat → Nat)
    (hgives : target.Gives run.call reply) (hstays : reply.cancels = false)
    (hpositive : 0 < run.instances) (outer : Option Instant) (w : World σ) (stats : Statistics) :
    (∃ turns out, run.perform ⟨target, order⟩ turns outer w stats = some out) ↔
      ∃ k now, Stage.Spends run.delay reply w.now (w.stopAt (w.within outer run.duration)) k now := by
  constructor
  · rintro ⟨turns, out, h⟩
    obtain ⟨-, k, hspends, -⟩ := perform_spends hgives hstays hpositive h
    exact ⟨k, _, hspends⟩
  · rintro ⟨k, now, hspends⟩
    exact ⟨_, exists_perform_of_spends hgives hstays hspends stats (Nat.le_refl _)⟩

/-- A group of `n` workers is `n` single workers, if all their calls have the same reply. It comes
to an end just if one worker alone does, which is so if the group has an instant at which it stops
and a pause with a call takes time. Then the counters and the histogram have grown `n` times as
much, and there were `n` times as many calls. The group has the same exit at the same instant. All
this is so whoever's turn it is among workers that are due at once. -/
theorem perform_like_alone {target : Target σ} (order order₁ : Nat → Nat)
    (hgives : target.Gives run.call reply) (hstays : reply.cancels = false)
    (hpositive : 0 < run.instances) (hascending : stats.codes.Ascending) (outer : Option Instant)
    (w : World σ) :
    ((∃ turns out, run.perform ⟨target, order⟩ turns outer w stats = some out) ↔
      ∃ turns one, run.alone.perform ⟨target, order₁⟩ turns outer w .empty = some one) ∧
    (0 < run.delay.nanos + reply.latency.nanos → ∀ x ∈ w.stopAt (w.within outer run.duration),
      ∃ turns out, run.perform ⟨target, order⟩ turns outer w stats = some out) ∧
    ∀ turns turns₁ out one, run.perform ⟨target, order⟩ turns outer w stats = some out →
      run.alone.perform ⟨target, order₁⟩ turns₁ outer w .empty = some one →
      out.stats.counters.requests =
        stats.counters.requests + .ofNat run.instances * one.stats.counters.requests ∧
      out.stats.counters.errors =
        stats.counters.errors + .ofNat run.instances * one.stats.counters.errors ∧
      out.stats.counters.micros =
        stats.counters.micros + .ofNat run.instances * one.stats.counters.micros ∧
      (∀ status, out.stats.codes.count status =
        stats.codes.count status + .ofNat run.instances * one.stats.codes.count status) ∧
      out.history.workCalls = run.instances * one.history.workCalls ∧
      out.exit = one.exit ∧ out.world.now = one.world.now := by
  have hends := perform_spends_iff target order hgives hstays hpositive outer w stats
  have hends₁ := perform_spends_iff target order₁ (gives_alone hgives) hstays Nat.one_pos outer w
    .empty
  refine ⟨hends.trans hends₁.symm, fun htakes x hx => ?_, fun turns turns₁ out one h hone => ?_⟩
  · exact hends.mpr (Stage.exists_spends htakes hx)
  · have hm := perform_multiplies hgives hgives hstays hpositive h hone
    obtain ⟨hcanceled, hnow, -⟩ := perform_deeds hgives hgives hstays hpositive h hone
    obtain ⟨hrequests, herrors, hmicros⟩ :=
      (perform_tallies h).1.counts.multiplies (perform_tallies hone).1.counts hm
    refine ⟨hrequests, herrors, hmicros,
      perform_codes hgives hgives hstays hpositive h hone hascending, hm.workCalls, ?_, hnow⟩
    have hdeadline : w.within outer run.alone.duration = w.within outer run.duration := rfl
    rw [perform_exit h, perform_exit hone, hdeadline, World.stopReason, hcanceled, hnow,
      World.stopReason]

/-- With answers after 10 ms, one worker has two of them within 115 ms; its third call is dropped.
Two have twice as many, also if the second goes first. -/
theorem brief_like_alone :
    ∃ out one, brief.perform ⟨.steady (.ofMillis 10), fun n => n + 1⟩ 20 none (.start () none) .empty =
        some out ∧
      brief.alone.perform ⟨.steady (.ofMillis 10), fun _ => 0⟩ 20 none (.start () none) .empty =
        some one ∧
      one.stats.counters = ⟨2, 0, 20000⟩ ∧ out.stats.counters = ⟨4, 0, 40000⟩ ∧
      one.history.workCalls = 3 ∧ out.history.workCalls = 6 ∧ out.exit = one.exit ∧
      out.world.now = one.world.now := by
  have hgives : (Target.steady (.ofMillis 10)).Gives brief.call (.ofResponse (.ofMillis 10) 200 []) :=
    fun _ => rfl
  have hascending : Statistics.empty.codes.Ascending := List.Pairwise.nil
  obtain ⟨-, -, hlike⟩ := perform_like_alone (fun n => n + 1) (fun _ => 0) hgives rfl (by decide)
    hascending none (.start () none)
  have hcheck : (brief.alone.perform ⟨.steady (.ofMillis 10), fun _ => 0⟩ 20 none (.start () none)
      .empty).map (fun one => (one.stats.counters, one.history.workCalls)) =
        some (⟨2, 0, 20000⟩, 3) := by
    decide +kernel
  have hsome : (brief.perform ⟨.steady (.ofMillis 10), fun n => n + 1⟩ 20 none (.start () none)
      .empty).isSome = true := by
    decide +kernel
  obtain ⟨one, hone, hcounts⟩ := Option.map_eq_some_iff.mp hcheck
  obtain ⟨hcounters, hcalls⟩ := Prod.mk.inj hcounts
  obtain ⟨out, hout⟩ := Option.isSome_iff_exists.mp hsome
  obtain ⟨hrequests, herrors, hmicros, -, hwork, hexit, hnow⟩ := hlike 20 20 out one hout hone
  rw [hcounters] at hrequests herrors hmicros
  refine ⟨out, one, hout, hone, hcounters, ?_, hcalls, ?_, hexit, hnow⟩
  · calc
      out.stats.counters = ⟨_, _, _⟩ := rfl
      _ = ⟨4, 0, 40000⟩ := by rw [hrequests, herrors, hmicros]; rfl
  · rw [hwork, hcalls]
    rfl

end GroupRun

end PhasedLoad
