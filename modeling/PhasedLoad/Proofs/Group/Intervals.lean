import PhasedLoad.Proofs.Group.Moves
import PhasedLoad.Proofs.Intervals
import PhasedLoad.Target.Script

/-! The reporter of a group: it watches the statistics that the workers update, ticks at its
instants up to the end of the group, and what it tells stands in the history. -/

namespace PhasedLoad

open Statistics (Update)

namespace Event

def interval? : Event → Option IntervalReport
  | logged (.interval _ report) => some report
  | _ => none

def updates (event : Event) : List Update :=
  match event.response? with
  | some (took, r) => if r.isError then [.request took, .error] else [.request took]
  | none => if event.isFailure then [.error] else []

end Event

namespace History

variable {h : History}

def intervals (h : History) : List (Instant × IntervalReport) :=
  h.filterMap fun e => e.event.interval?.map (e.instant, ·)

def updates (h : History) : List Update := h.flatMap (·.event.updates)

@[simp] theorem intervals_append (h h' : History) :
    intervals (h ++ h') = intervals h ++ intervals h' := List.filterMap_append

@[simp] theorem updates_append (h h' : History) : updates (h ++ h') = updates h ++ updates h' :=
  List.flatMap_append

theorem NoWork.updates (hh : NoWork h) : updates h = [] := by
  refine List.flatMap_eq_nil_iff.mpr fun e he => ?_
  have hwork := hh e he
  have hresponse : e.event.response? = none := by
    unfold Event.response?
    split <;> simp_all [Event.isWork]
  have hfailure : e.event.isFailure = false := by
    unfold Event.isFailure
    split <;> simp_all [Event.isWork]
  simp [Event.updates, hresponse, hfailure]

end History

namespace GroupState

variable {σ : Type} {env : Environment σ} {run : GroupRun} {deadline : Option Instant}
  {s t u : GroupState σ} {v : Worker} {b : Instant}

def intervals (s : GroupState σ) : List (Instant × IntervalReport) :=
  History.intervals s.past.reverse

def updates (s : GroupState σ) : List Update := History.updates s.past.reverse

structure Silent (s t : GroupState σ) : Prop where
  reporter : t.reporter = s.reporter
  intervals : t.intervals = s.intervals

/-- The reporter makes reports due before `b`, all of the same counters. -/
def Ticks (s t : GroupState σ) (b : Instant) : Prop :=
  ∃ n, t.reporter = s.reporter.map (fun r => (r.reportsBefore b s.stats.counters n).2) ∧
    t.intervals = s.intervals ++
      s.reporter.elim [] fun r => (r.reportsBefore b s.stats.counters n).1

theorem Silent.refl (s : GroupState σ) : Silent s s := ⟨rfl, rfl⟩

theorem Silent.trans (hst : Silent s t) (htu : Silent t u) : Silent s u :=
  ⟨htu.reporter.trans hst.reporter, htu.intervals.trans hst.intervals⟩

theorem Silent.ticks (h : Silent s t) (b : Instant) : Ticks s t b := by
  refine ⟨0, ?_, ?_⟩
  · rw [h.reporter]
    exact Option.map_id'.symm
  · rw [h.intervals]
    cases s.reporter <;> exact (List.append_nil _).symm

theorem Silent.trans_ticks (hst : Silent s t) (hcounters : t.stats.counters = s.stats.counters)
    (htu : Ticks t u b) : Ticks s u b := by
  obtain ⟨n, hreporter, hintervals⟩ := htu
  rw [hcounters, hst.reporter] at hreporter hintervals
  exact ⟨n, hreporter, by rw [hintervals, hst.intervals]⟩

theorem Ticks.trans_silent (hst : Ticks s t b) (htu : Silent t u) : Ticks s u b := by
  obtain ⟨n, hreporter, hintervals⟩ := hst
  exact ⟨n, htu.reporter.trans hreporter, htu.intervals.trans hintervals⟩

theorem silent_note (s : GroupState σ) {event : Event} (h : event.interval? = none) :
    Silent s (s.note event) :=
  ⟨rfl, by simp [intervals, note, History.intervals, h]⟩

theorem silent_log (s : GroupState σ) {line : LogEvent} (h : (Event.logged line).interval? = none) :
    Silent s (s.log line) := silent_note s h

theorem silent_notice (run : GroupRun) (s : GroupState σ) : Silent s (s.notice run) := by
  have hfold : ∀ (whys : List Breakdown) (s : GroupState σ),
      Silent s (whys.foldl (fun s why => s.log (.workerBroken run.name why)) s) := by
    intro whys
    induction whys with
    | nil => exact .refl
    | cons why whys ih => exact fun s => (silent_log s rfl).trans (ih _)
  have h := hfold s.broken s
  exact ⟨h.reporter, h.intervals⟩

theorem silent_count (run : GroupRun) (s : GroupState σ) (took : Duration) (r : Response) :
    Silent s (s.count run took r) := by
  have hrequest : Silent s { s with stats := s.stats.recordRequest took } := ⟨rfl, rfl⟩
  unfold count
  dsimp only
  split
  · exact hrequest.trans (silent_log _ rfl)
  · split <;> exact ⟨rfl, rfl⟩

theorem silent_call (env : Environment σ) (run : GroupRun) (s : GroupState σ) (v : Worker) :
    Silent s (s.call env run v) := by
  have hposted : Silent s { s with world := (s.world.post env run.call).2 } := ⟨rfl, rfl⟩
  exact (hposted.trans (silent_note _ rfl)).trans ⟨rfl, rfl⟩

theorem silent_answer (run : GroupRun) (deadline : Option Instant) (s : GroupState σ) (v : Worker)
    (since : Instant) (reply : Reply) : Silent s (s.answer run deadline v since reply) := by
  have hreceived : Silent s { s with world := s.world.receive reply } := ⟨rfl, rfl⟩
  exact hreceived.trans (silent_note _ rfl)

theorem silent_conclude (run : GroupRun) (deadline : Option Instant) (s : GroupState σ) :
    Silent s (s.conclude run deadline).2 := by
  have hreporter : Silent s (if run.reportInterval.isZero then
      (s.notice run).log (.reporterBroken run.name .zeroInterval) else s.notice run) := by
    split
    · exact (silent_notice run s).trans (silent_log _ rfl)
    · exact silent_notice run s
  unfold conclude
  dsimp only
  split
  · exact hreporter.trans (silent_log _ rfl)
  · exact hreporter.trans (silent_log _ rfl)

theorem ticks_report (run : GroupRun) (b : Instant) (s : GroupState σ) :
    Ticks s (s.report run b) b := by
  unfold report
  split
  · exact (Silent.refl s).ticks b
  · next r hr =>
    have hmade : ∀ reports : List (Instant × IntervalReport),
        History.intervals (reports.map fun p => ⟨p.1, .logged (.interval run.name p.2)⟩) =
          reports := by
      intro reports
      rw [History.intervals, List.filterMap_map]
      exact List.filterMap_some
    refine ⟨r.ticksBefore b, by simp [hr], ?_⟩
    simp only [intervals, hr, List.reverse_append, List.map_reverse, List.reverse_reverse,
      History.intervals_append, hmade, Option.elim]

theorem ticks_advance (run : GroupRun) (due : Instant) (s : GroupState σ) :
    Ticks s (s.advance run due) due := by
  unfold advance
  split
  · have hcounters : (s.notice run).stats.counters = s.stats.counters := by
      rw [(writes_notice run s).stats]
    exact (silent_notice run s).trans_ticks hcounters
      ((ticks_report run due _).trans_silent ⟨rfl, rfl⟩)
  · exact (Silent.refl s).ticks due

theorem ticks_act (env : Environment σ) (run : GroupRun) (deadline : Option Instant)
    (s : GroupState σ) (v : Worker) : Ticks s (s.act env run deadline v) (s.world.now + 1) := by
  unfold act
  split
  · exact (silent_call env run s v).ticks _
  · next since reply _ =>
    have hanswer := silent_answer run deadline s v since reply
    have hstats : (s.answer run deadline v since reply).stats.counters = s.stats.counters := rfl
    have hnow : (s.answer run deadline v since reply).world.now = s.world.now := by
      simp [answer_eq]
    have hreport : Ticks s ((s.answer run deadline v since reply).reportDue run)
        (s.world.now + 1) := by
      rw [reportDue, hnow]
      exact hanswer.trans_ticks hstats (ticks_report run _ _)
    unfold receive
    dsimp only
    split
    · exact (hreport.trans_silent (silent_count _ _ _ _)).trans_silent ⟨rfl, rfl⟩
    · split
      · exact ((hanswer.trans (silent_log _ rfl)).trans ⟨rfl, rfl⟩).ticks _
      · split
        · exact (hanswer.trans ⟨rfl, rfl⟩).ticks _
        · exact hreport.trans_silent ⟨rfl, rfl⟩
    · exact (hanswer.trans ⟨rfl, rfl⟩).ticks _

/-- What the passing of time, each turn and the end keep holds of a group when it is settled. -/
theorem play_keeps {P : GroupState σ → Prop} (hadvance : ∀ s due, P s → P (s.advance run due))
    (hturn : ∀ s v steps, P s → P ({ s with steps := steps }.act env run deadline v))
    (hretire : ∀ s, P s → P s.retireAll) {n : Nat} (hs : P s)
    (h : s.play env run deadline n = some t) : P t := by
  have hstep : ∀ s, P s → s.settled? run deadline = none → P (s.step env run deadline) := by
    intro s hs _
    unfold step
    split
    · exact hs
    · next due _ =>
      dsimp only
      split
      · exact hadvance s due hs
      · exact hturn _ _ _ (hadvance s due hs)
  obtain ⟨u, hu, hsettled⟩ := play_induction hstep hs h
  rcases settled_cases hsettled with ⟨-, rfl⟩ | ⟨stop, -, -, -, -, rfl⟩
  · exact hu
  · exact hretire _ (hadvance u stop hu)

theorem updates_of_lines {h : History} (hpast : t.past = h ++ s.past)
    (hlines : ∀ e ∈ h, e.event.isLine = true) : t.updates = s.updates := by
  have hidle : History.NoWork h.reverse := History.noWork_of_lines fun e he =>
    hlines e (List.mem_reverse.mp he)
  rw [updates, hpast, List.reverse_append, History.updates_append, hidle.updates, List.append_nil,
    updates]

theorem updates_of_event {h : History} {e : Entry} (hpast : t.past = h ++ e :: s.past)
    (hlines : s.LinesNow h) : t.updates = s.updates ++ e.event.updates := by
  have hevent : ({ s with past := e :: s.past } : GroupState σ).updates =
      s.updates ++ e.event.updates := by
    simp [updates, History.updates]
  exact (updates_of_lines hpast fun d hd => (hlines d hd).1).trans hevent

theorem Acts.records (ha : Acts env run deadline s v t) :
    ∃ us, t.updates = s.updates ++ us ∧
      t.stats.counters = (s.stats.after us).counters := by
  cases ha with
  | called _ _ hstats _ hpast =>
    exact ⟨_, updates_of_event (h := []) hpast (by simp [LinesNow]), by rw [hstats]; rfl⟩
  | @responded since reply r lines _ hreply _ hstats _ hlines hpast =>
    refine ⟨_, updates_of_event hpast hlines, ?_⟩
    rw [hstats, Event.updates, answerOf_response?, hreply, Statistics.recordResponse]
    dsimp only
    split <;> rfl
  | @failed since reply f lines _ hreply hmild hlive _ hstats _ hlines hpast =>
    refine ⟨_, updates_of_event hpast hlines, ?_⟩
    rw [hstats, Event.updates, answerOf_response?, answerOf_isFailure, hreply]
    simp only [hmild, hlive]
    rfl
  | @ended since reply f lines _ hreply hends _ hstats _ hlines hpast =>
    refine ⟨_, updates_of_event hpast hlines, ?_⟩
    have hfailure : (!f.isFatal && ((s.world.receive reply).stopReason deadline).isNone) = false := by
      cases hends with
      | inl hfatal => simp [hfatal]
      | inr hstopped => simp [Option.isNone_eq_false_iff, Option.isSome_iff_ne_none.mpr hstopped]
    rw [hstats, Event.updates, answerOf_response?, answerOf_isFailure, hreply]
    simp only [hfailure]
    rfl
  | @panicked since reply text _ hreply _ hstats _ hpast =>
    refine ⟨_, updates_of_event (h := []) hpast (by simp [LinesNow]), ?_⟩
    rw [hstats, Event.updates, answerOf_response?, answerOf_isFailure, hreply]
    rfl

variable {o : Watch} {xs : List Occasion}

structure Watched (o : Watch) (xs : List Occasion) (s : GroupState σ) : Prop where
  reporter : s.reporter = some (o.after xs).reporter
  intervals : s.intervals = (o.after xs).reports
  counters : s.stats.counters = (o.after xs).stats.counters
  updates : s.updates = Watch.updates xs
  looks : ∀ look ∈ o.looks xs, look.2 ≤ s.world.now

theorem Watched.ticks (hs : Watched o xs s) (ht : Ticks s t b) (us : List Update)
    (hcounters : t.stats.counters = (s.stats.after us).counters)
    (hupdates : t.updates = s.updates ++ us)
    (hnow : s.world.now ≤ t.world.now) (hb : ∀ x < b, x ≤ t.world.now) :
    ∃ ys, Watched o ys t := by
  obtain ⟨n, hreporter, hintervals⟩ := ht
  obtain ⟨k, hafter, hlooks⟩ := (o.after xs).exists_ticks b n
  have hys : o.after (xs ++ List.replicate k .tick ++ us.map .update) =
      { (o.after xs).after (List.replicate k .tick) with
        stats := (o.after xs).stats.after us } := by
    rw [Watch.after_append, Watch.after_append, Watch.after_updates, hafter]
  rw [hs.reporter, hs.counters] at hreporter hintervals
  refine ⟨xs ++ List.replicate k .tick ++ us.map .update, ?_, ?_, ?_, ?_, ?_⟩
  · rw [hreporter, hys, hafter]
    rfl
  · rw [hintervals, hys, hafter, hs.intervals]
    rfl
  · rw [hcounters, hys, Statistics.counters_after, Statistics.counters_after, hs.counters]
  · simp [hupdates, hs.updates]
  · intro look hlook
    rw [Watch.looks_append, Watch.looks_append, Watch.looks_updates, List.append_nil] at hlook
    rcases List.mem_append.mp hlook with hlook | hlook
    · exact Nat.le_trans (hs.looks look hlook) hnow
    · exact hb _ (hlooks look hlook)

theorem Watched.advance (hp : s.Paced) (hs : Watched o xs s) (due : Instant) :
    ∃ ys, Watched o ys (s.advance run due) := by
  obtain ⟨h, reporter, broken, heq, hlines, -⟩ := advance_eq hp run due
  have hnow : (s.advance run due).world.now = max s.world.now due := by rw [heq]; rfl
  have hpast : (s.advance run due).past = h ++ s.past := by rw [heq]
  refine hs.ticks (ticks_advance run due s) [] (by rw [heq]; rfl) ?_ ?_ ?_
  · rw [updates_of_lines hpast hlines, List.append_nil]
  · rw [hnow]
    exact Nat.le_max_left _ _
  · intro x hx
    rw [hnow]
    exact Nat.le_trans (Nat.le_of_lt hx) (Nat.le_max_right _ _)

/-- A group whose reporter has seen all of what was recorded and no tick too late. -/
def Overseen (o : Watch) (s : GroupState σ) : Prop := s.Paced ∧ ∃ xs, Watched o xs s

theorem Overseen.advance (hs : Overseen o s) (run : GroupRun) (due : Instant) :
    Overseen o (s.advance run due) := by
  obtain ⟨hp, xs, hxs⟩ := hs
  obtain ⟨-, -, -, -, -, -, hpaced⟩ := advance_eq hp run due
  exact ⟨hpaced, hxs.advance hp due⟩

theorem Overseen.act (env : Environment σ) (deadline : Option Instant) (hs : Overseen o s)
    (v : Worker) : Overseen o (s.act env run deadline v) := by
  obtain ⟨hp, xs, hxs⟩ := hs
  obtain ⟨hacts, hpaced⟩ := act_acts env run deadline hp v
  obtain ⟨us, hupdates, hcounters⟩ := hacts.records
  refine ⟨hpaced, hxs.ticks (ticks_act env run deadline s v) us hcounters hupdates
    (Nat.le_of_eq hacts.now.symm) fun x hx => ?_⟩
  rw [hacts.now]
  exact Nat.le_of_lt_succ hx

theorem Overseen.retireAll (hs : Overseen o s) : Overseen o s.retireAll := by
  obtain ⟨hp, xs, hxs⟩ := hs
  exact ⟨hp, xs, hxs.reporter, hxs.intervals, (mergeAll s.workers _).1.trans hxs.counters,
    hxs.updates, hxs.looks⟩

theorem Overseen.congr {steps : Nat} (hs : Overseen o s) : Overseen o { s with steps := steps } := by
  obtain ⟨hp, xs, hxs⟩ := hs
  exact ⟨hp, xs, { hxs with }⟩

theorem Overseen.play {n : Nat} (hs : Overseen o s) (h : s.play env run deadline n = some t) :
    Overseen o t :=
  play_keeps (fun _ due hs => hs.advance run due) (fun _ v _ hs => hs.congr.act env deadline v)
    (fun _ hs => hs.retireAll) hs h

def Unreported (s : GroupState σ) : Prop := s.reporter = none ∧ s.intervals = []

theorem Unreported.ticks (hs : Unreported s) (ht : Ticks s t b) : Unreported t := by
  obtain ⟨n, hreporter, hintervals⟩ := ht
  rw [hs.1] at hreporter hintervals
  exact ⟨hreporter, by rw [hintervals, hs.2]; rfl⟩

theorem Unreported.play {n : Nat} (hs : Unreported s) (h : s.play env run deadline n = some t) :
    Unreported t := by
  refine play_keeps (fun s due hs => hs.ticks (ticks_advance run due s)) (fun s v steps hs => ?_)
    (fun _ hs => hs) hs h
  have hsame : Unreported { s with steps := steps } := hs
  exact hsame.ticks (ticks_act env run deadline _ v)

end GroupState

namespace GroupRun

variable {σ : Type} {env : Environment σ} {turns : Nat} {run : GroupRun} {outer : Option Instant}
  {w : World σ} {stats : Statistics} {out : GroupOutcome σ}

open GroupState

theorem perform_silent (h : run.perform env turns outer w stats = some out) :
    ∃ u : GroupState σ, (startOf run w stats).play env run (w.within outer run.duration) turns =
        some u ∧
      out.history.intervals = u.intervals ∧ out.history.updates = u.updates ∧
      out.stats = u.stats ∧ out.world = u.world := by
  unfold perform at h
  dsimp only at h
  split at h
  · cases h
  · next u hplay =>
    have hsilent := silent_conclude run (w.within outer run.duration) u
    have hwrites := writes_conclude run (w.within outer run.duration) u
    obtain ⟨lines, hpast, hlines⟩ := hwrites.past
    cases h
    exact ⟨u, hplay, hsilent.intervals, updates_of_lines hpast fun e he => (hlines e he).1,
      hwrites.stats, hwrites.world⟩

theorem overseen_start (hinterval : run.reportInterval.isZero = false) (w : World σ)
    (stats : Statistics) :
    Overseen (.start run.reportInterval w.now stats) (startOf run w stats) where
  left := (sound_start run w stats).paced
  right := by
    refine ⟨[], ?_, rfl, rfl, rfl, nofun⟩
    simp [startOf, log, note, start, hinterval, Watch.start, Watch.after]

theorem perform_unreported (hinterval : run.reportInterval.isZero = true)
    (h : run.perform env turns outer w stats = some out) : out.history.intervals = [] := by
  obtain ⟨u, hplay, hintervals, -⟩ := perform_silent h
  have hstart : Unreported (startOf run w stats) := by
    constructor
    · simp [startOf, log, note, start, hinterval]
    · rfl
  rw [hintervals]
  exact (hstart.play hplay).2

theorem perform_overseen (hinterval : run.reportInterval.isZero = false)
    (h : run.perform env turns outer w stats = some out) :
    ∃ xs, Watch.updates xs = out.history.updates ∧
      ((Watch.start run.reportInterval w.now stats).after xs).reports = out.history.intervals ∧
      ((Watch.start run.reportInterval w.now stats).after xs).stats.counters = out.stats.counters ∧
      ∀ k, (k < ((Watch.start run.reportInterval w.now stats).looks xs).length →
          (Reporter.start run.reportInterval w.now).due k ≤ out.world.now) ∧
        ((Reporter.start run.reportInterval w.now).due k < out.world.now →
          k < ((Watch.start run.reportInterval w.now stats).looks xs).length) := by
  obtain ⟨u, hplay, hintervals, hupdates, hstats, hworld⟩ := perform_silent h
  obtain ⟨hpaced, xs, hxs⟩ := (overseen_start hinterval w stats).play hplay
  obtain ⟨hinstants, hnext⟩ := (Watch.start run.reportInterval w.now stats).looks_due xs
  refine ⟨xs, hxs.updates.symm.trans hupdates.symm, hxs.intervals.symm.trans hintervals.symm,
    hxs.counters.symm.trans (congrArg _ hstats.symm), fun k => ⟨fun hk => ?_, fun hk => ?_⟩⟩
  · have hmem : (Reporter.start run.reportInterval w.now).due k ∈
        ((Watch.start run.reportInterval w.now stats).looks xs).map (·.2) := by
      rw [hinstants]
      exact List.mem_map_of_mem (List.mem_range.mpr hk)
    obtain ⟨look, hlook, hdue⟩ := List.mem_map.mp hmem
    rw [← hdue, hworld]
    exact hxs.looks look hlook
  · refine Nat.lt_of_not_le fun hlate => ?_
    have hdue := (Reporter.start run.reportInterval w.now).due_mono hlate
    have hbefore := (hpaced _ hxs.reporter).1
    rw [hnext, ← hworld] at hbefore
    exact Nat.not_lt_of_le (Nat.le_trans hbefore hdue) hk

/-- However ticks come between updates of counters that do not wrap, and whatever is counted before:
the reports follow the ticks but the first at which something is counted, one each; the gains from
tick to tick add up to what is counted between the first and the last; so do the errors that are
reported; and each report is about its own interval. A group's reporter is of this kind. It ticks at
its start and then once in every interval, up to the end of the group, and what it watches is what
the workers record; without an interval it tells nothing. -/
theorem perform_tells_all (run : GroupRun) (w : World σ) (stats : Statistics) :
    (∀ (interval : Duration) (now : Instant) (s : Statistics) (xs : List Occasion),
      s.HasRoom (Watch.updates xs) →
      Watch.Tells ((Watch.start interval now s).looks xs)
        ((Watch.start interval now s).after xs).reports) ∧
    ∀ env turns outer out, run.perform env turns outer w stats = some out →
      (run.reportInterval.isZero = true → out.history.intervals = []) ∧
      (run.reportInterval.isZero = false → ∃ xs, ∀ o,
        o = Watch.start run.reportInterval w.now stats →
        Watch.updates xs = out.history.updates ∧
        (o.after xs).reports = out.history.intervals ∧
        (o.after xs).stats.counters = out.stats.counters ∧
        (stats.HasRoom out.history.updates → Watch.Tells (o.looks xs) out.history.intervals) ∧
        (o.looks xs).map (·.2) = (List.range (o.looks xs).length).map o.reporter.due ∧
        ∀ k, (k < (o.looks xs).length → o.reporter.due k ≤ out.world.now) ∧
          (o.reporter.due k < out.world.now → k < (o.looks xs).length)) := by
  refine ⟨fun _ _ _ _ hroom => Watch.tells_of_hasRoom hroom, fun env turns outer out h =>
    ⟨fun hinterval => perform_unreported hinterval h, fun hinterval => ?_⟩⟩
  obtain ⟨xs, hupdates, hreports, hcounters, hticks⟩ := perform_overseen hinterval h
  refine ⟨xs, ?_⟩
  rintro o rfl
  refine ⟨hupdates, hreports, hcounters, fun hroom => ?_, (Watch.looks_due _ _).1, hticks⟩
  rw [← hupdates] at hroom
  rw [← hreports]
  exact Watch.tells_of_hasRoom hroom

/-- Two workers that pause for 30 ms, at work for 115 ms, with a report every 40 ms. -/
def reported : GroupRun :=
  ⟨⟨"load", 1⟩, 2, .ofMillis 115, .ofMillis 30, .ofSecs 1, "ping", .ofMillis 40⟩

/-- Success, an error and a timeout in turn, each after 10 ms. -/
def wavering : Target.Script := .ofRules [⟨"ping".toList, [.ofResponse (.ofMillis 10) 200 [],
  .ofResponse (.ofMillis 10) 503 [], ⟨.ofMillis 10, false, .failure (.timeout (.ofMillis 10))⟩]⟩]

/-- What was counted before the first tick is in no report, and at a tick at which nothing is
counted nothing is told. In the group the first report tells of nothing, the second of two requests.
-/
theorem reported_tells_all :
    Look.errors ((Watch.start (.ofMillis 40) 0 .empty).after [.tick, .tick,
      .update (.request (.ofMillis 5)), .update .error, .tick, .update .error, .tick]).reports = 2 ∧
    ∃ out, reported.perform (.orderly Target.scripted) 20 none (.start wavering none)
        (.after .empty [.request (.ofMillis 7), .error]) = some out ∧
      out.history.intervals.map (fun p => (p.1, p.2.ok.toNat, p.2.errors.toNat)) =
        [(40000000, 0, 0), (80000000, 1, 1)] ∧
      ∃ looks, Watch.Tells looks out.history.intervals := by
  have hroom : Statistics.HasRoom .empty [.request (.ofMillis 5), .error, .error] := by
    intro c
    cases c <;> decide
  have hcheck : (reported.perform (.orderly Target.scripted) 20 none (.start wavering none)
      (.after .empty [.request (.ofMillis 7), .error])).map (fun out =>
        (out.history.intervals.map fun p => (p.1, p.2.ok.toNat, p.2.errors.toNat),
          out.history.updates)) =
      some ([(40000000, 0, 0), (80000000, 1, 1)],
        [.request (.ofMillis 10), .request (.ofMillis 10), .error, .error,
          .request (.ofMillis 10)]) := by
    decide +kernel
  obtain ⟨out, hperform, hout⟩ := Option.map_eq_some_iff.mp hcheck
  obtain ⟨hintervals, hupdates⟩ := Prod.mk.inj hout
  obtain ⟨htells, hgroup⟩ := perform_tells_all reported (.start wavering none)
    (.after .empty [.request (.ofMillis 7), .error])
  have herrors := (htells (.ofMillis 40) 0 .empty [.tick, .tick, .update (.request (.ofMillis 5)),
    .update .error, .tick, .update .error, .tick] hroom).errors (.zero, 0)
    (⟨1, 2, 5000⟩, 120000000) rfl rfl
  obtain ⟨xs, hxs⟩ := (hgroup _ _ _ out hperform).2 rfl
  obtain ⟨-, -, -, hgrouptells, -⟩ := hxs _ rfl
  have hgrouproom : (Statistics.after .empty [.request (.ofMillis 7), .error]).HasRoom
      out.history.updates := by
    rw [hupdates]
    intro c
    cases c <;> decide
  refine ⟨?_, out, hperform, hintervals, _, hgrouptells hgrouproom⟩
  simpa [Snapshot.zero] using herrors

end GroupRun

end PhasedLoad
