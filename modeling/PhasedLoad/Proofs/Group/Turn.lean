import PhasedLoad.Group.Play
import PhasedLoad.Proofs.Passage

/-! What a turn of a worker does to its group: one event of the worker's, and lines of the log. -/

namespace PhasedLoad

theorem Instant.add_min_le_wake (t : Instant) (d : Duration) :
    t + min d.nanos farAway ≤ wake t d := by
  unfold wake after?
  split
  · simp only [Option.getD_some]; grind
  · simp only [Option.getD_none]; grind

/-- With a response counted, and an error if its status tells of one. -/
def Statistics.recordResponse (s : Statistics) (took : Duration) (r : Response) : Statistics :=
  if r.isError then (s.recordRequest took).recordError else s.recordRequest took

namespace Reporter

variable {r : Reporter} {t : Instant}

theorem next_lt_tick (h : 0 < r.interval.nanos) (current : Snapshot) :
    r.next + min r.interval.nanos Instant.farAway ≤ (r.tick current).next ∧
      r.next < (r.tick current).next := by
  have hwake := Instant.add_min_le_wake r.next r.interval
  have hfar : 0 < Instant.farAway := by decide
  simp only [tick]
  grind

theorem reportsBefore_spec (h : 0 < r.interval.nanos) (t : Instant) (current : Snapshot) (n : Nat) :
    (∀ p ∈ (r.reportsBefore t current n).1, r.next ≤ p.1 ∧ p.1 < t) ∧
      ((r.reportsBefore t current n).1.Pairwise fun p q => p.1 ≤ q.1) ∧
      r.next ≤ (r.reportsBefore t current n).2.next ∧
      (r.reportsBefore t current n).2.interval = r.interval := by
  induction n generalizing r with
  | zero => simp [reportsBefore]
  | succ n ih =>
    simp only [reportsBefore]
    split
    · next hlt =>
      have hnext := (next_lt_tick h current).2
      obtain ⟨hmem, hordered, hle, hinterval⟩ := ih (r := r.tick current) h
      refine ⟨?_, ?_, by grind, hinterval⟩
      · intro p hp
        rcases List.mem_append.mp hp with hp | hp
        · obtain ⟨report, -, rfl⟩ := List.mem_map.mp hp
          exact ⟨Nat.le_refl _, hlt⟩
        · have := hmem p hp
          grind
      · refine List.pairwise_append.mpr ⟨?_, hordered, ?_⟩
        · cases r.report? current <;> simp
        · intro p hp q hq
          obtain ⟨report, -, rfl⟩ := List.mem_map.mp hp
          have := hmem q hq
          grind
    · simp

theorem le_next_reportsBefore (h : 0 < r.interval.nanos) (current : Snapshot) {n : Nat}
    (hn : t ≤ r.next ∨ (t - r.next) / min r.interval.nanos Instant.farAway + 1 ≤ n) :
    t ≤ (r.reportsBefore t current n).2.next := by
  induction n generalizing r with
  | zero =>
    simp only [reportsBefore]
    grind
  | succ n ih =>
    simp only [reportsBefore]
    split
    · next hlt =>
      apply ih (r := r.tick current) h
      have hnext := (next_lt_tick h current).1
      have hfar : 0 < Instant.farAway := by decide
      generalize hm : min r.interval.nanos Instant.farAway = m at hnext hn
      have hpos : 0 < m := by grind
      have hinterval : (r.tick current).interval = r.interval := rfl
      rw [hinterval, hm]
      by_cases hdone : t ≤ (r.tick current).next
      · exact .inl hdone
      · right
        have hstep : (t - r.next - m) / m + 1 = (t - r.next) / m :=
          (Nat.div_eq_sub_div hpos (by grind)).symm
        have hmono : (t - (r.tick current).next) / m ≤ (t - r.next - m) / m :=
          Nat.div_le_div_right (by grind)
        grind
    · grind

end Reporter

namespace GroupState

variable {σ : Type} {env : Environment σ} {run : GroupRun} {deadline : Option Instant}
  {s : GroupState σ}

/-- The next report is due at no earlier time than now. -/
def Paced (s : GroupState σ) : Prop :=
  ∀ r ∈ s.reporter, s.world.now ≤ r.next ∧ 0 < r.interval.nanos

theorem report_eq (hp : s.Paced) (run : GroupRun) (t : Instant) :
    ∃ (h : History) (reporter : Option Reporter),
      s.report run t = { s with reporter := reporter, past := h ++ s.past } ∧
      (∀ e ∈ h, e.event.isLine = true ∧ s.world.now ≤ e.instant ∧ e.instant < t) ∧
      History.Ordered h.reverse ∧
      (∀ r ∈ reporter, t ≤ r.next ∧ s.world.now ≤ r.next ∧ 0 < r.interval.nanos) := by
  unfold report
  split
  · next hnone =>
    exact ⟨[], s.reporter, rfl, by simp, List.Pairwise.nil, by simp [hnone]⟩
  · next r hr =>
    obtain ⟨hnow, hinterval⟩ := hp r hr
    obtain ⟨hmem, hordered, hle, heq⟩ :=
      Reporter.reportsBefore_spec hinterval t s.stats.counters (r.ticksBefore t)
    have hnext := Reporter.le_next_reportsBefore (t := t) hinterval s.stats.counters
      (n := r.ticksBefore t) (.inr (Nat.le_refl _))
    generalize r.reportsBefore t s.stats.counters (r.ticksBefore t) = reports at *
    refine ⟨_, _, rfl, ?_, ?_, ?_⟩
    · intro e he
      obtain ⟨p, hp, rfl⟩ := List.mem_map.mp he
      have := hmem p (List.mem_reverse.mp hp)
      exact ⟨rfl, by grind, this.2⟩
    · rw [← List.map_reverse, List.reverse_reverse]
      exact List.pairwise_map.mpr hordered
    · intro r' hr'
      cases hr'
      exact ⟨hnext, Nat.le_trans hnow hle, by rw [heq]; exact hinterval⟩

theorem notice_eq (run : GroupRun) (s : GroupState σ) :
    ∃ h : History, s.notice run = { s with broken := [], past := h ++ s.past } ∧
      ∀ e ∈ h, e.event.isLine = true ∧ e.instant = s.world.now := by
  have hfold : ∀ (whys : List Breakdown) (s : GroupState σ), ∃ h : History,
      whys.foldl (fun s why => s.log (.workerBroken run.name why)) s =
          { s with past := h ++ s.past } ∧
        ∀ e ∈ h, e.event.isLine = true ∧ e.instant = s.world.now := by
    intro whys
    induction whys with
    | nil => exact fun s => ⟨[], rfl, by simp⟩
    | cons why whys ih =>
      intro s
      obtain ⟨h, heq, hlines⟩ := ih (s.log (.workerBroken run.name why))
      refine ⟨h ++ [⟨s.world.now, .logged (.workerBroken run.name why)⟩], ?_, ?_⟩
      · rw [List.foldl_cons, heq]
        simp [log, note]
      · intro e he
        rcases List.mem_append.mp he with he | he
        · exact hlines e he
        · obtain rfl := List.mem_singleton.mp he
          exact ⟨rfl, rfl⟩
  obtain ⟨h, heq, hlines⟩ := hfold s.broken s
  exact ⟨h, by rw [notice, heq], hlines⟩

theorem advance_eq (hp : s.Paced) (run : GroupRun) (t : Instant) :
    ∃ (h : History) (reporter : Option Reporter) (broken : List Breakdown),
      s.advance run t =
        { s with
          world := s.world.advance t, reporter := reporter, broken := broken,
          past := h ++ s.past } ∧
      (∀ e ∈ h, e.event.isLine = true) ∧
      Passage s.world h.reverse (s.world.advance t) ∧ (s.advance run t).Paced := by
  unfold advance
  split
  · next hlt =>
    obtain ⟨h₁, heq₁, hlines₁⟩ := notice_eq run s
    have hp₁ : (s.notice run).Paced := by rw [heq₁]; exact hp
    obtain ⟨h₂, reporter, heq₂, hlines₂, hordered, hnext⟩ := report_eq hp₁ run t
    have hnow : (s.notice run).world.now = s.world.now := by rw [heq₁]
    have p₁ : Passage s.world h₁.reverse s.world :=
      .linesNow s.world (fun e he => (hlines₁ e (List.mem_reverse.mp he)).1)
        (fun e he => (hlines₁ e (List.mem_reverse.mp he)).2)
    have p₂ : Passage s.world h₂.reverse (s.world.advance t) :=
      .lines (fun e he => (hlines₂ e (List.mem_reverse.mp he)).1)
        (fun e he => hnow ▸ (hlines₂ e (List.mem_reverse.mp he)).2.1)
        (fun e he => Nat.le_of_lt (hlines₂ e (List.mem_reverse.mp he)).2.2) hordered
    refine ⟨h₂ ++ h₁, reporter, [], ?_, ?_, ?_, ?_⟩
    · rw [heq₂, heq₁]
      simp
    · intro e he
      rcases List.mem_append.mp he with he | he
      · exact (hlines₂ e he).1
      · exact (hlines₁ e he).1
    · rw [List.reverse_append]
      exact p₁.trans p₂
    · intro r hr
      rw [heq₂] at hr
      obtain ⟨hle, hsince, hinterval⟩ := hnext r hr
      rw [heq₂]
      refine ⟨?_, hinterval⟩
      change max (s.notice run).world.now t ≤ r.next
      rw [hnow] at hsince ⊢
      exact Nat.max_le.mpr ⟨hsince, hle⟩
  · next hge =>
    have hworld : s.world.advance t = s.world := by
      simp [World.advance, Nat.max_eq_left (Nat.le_of_not_lt hge)]
    refine ⟨[], s.reporter, s.broken, by rw [hworld]; rfl, by simp, ?_, hp⟩
    rw [hworld]
    exact .refl _

def LinesNow (s : GroupState σ) (h : History) : Prop :=
  ∀ e ∈ h, e.event.isLine = true ∧ e.instant = s.world.now

theorem reportDue_eq (hp : s.Paced) (run : GroupRun) :
    ∃ (h : History) (reporter : Option Reporter),
      s.reportDue run = { s with reporter := reporter, past := h ++ s.past } ∧ s.LinesNow h ∧
      (s.reportDue run).Paced := by
  obtain ⟨h, reporter, heq, hlines, -, hnext⟩ := report_eq hp run (s.world.now + 1)
  refine ⟨h, reporter, heq, ?_, ?_⟩
  · intro e he
    have hline := hlines e he
    exact ⟨hline.1, Nat.le_antisymm (Nat.le_of_lt_succ hline.2.2) hline.2.1⟩
  · intro r hr
    rw [reportDue, heq] at hr ⊢
    exact ⟨(hnext r hr).2.1, (hnext r hr).2.2⟩

theorem count_eq (run : GroupRun) (s : GroupState σ) (took : Duration) (r : Response) :
    ∃ h : History, s.LinesNow h ∧ s.count run took r =
      { s with stats := s.stats.recordResponse took r, past := h ++ s.past } := by
  unfold count Statistics.recordResponse Response.isError
  by_cases hrejection : r.isRejection = true
  · have hstatus : r.status = 400 := by simpa [Response.isRejection] using hrejection
    refine ⟨[⟨s.world.now, .logged (.requestRejected run.name.phase r.text)⟩], ?_, ?_⟩
    · intro e he
      obtain rfl := List.mem_singleton.mp he
      exact ⟨rfl, rfl⟩
    · simp [hrejection, hstatus, log, note]
  · refine ⟨[], by simp [LinesNow], ?_⟩
    by_cases herror : 400 < r.status <;> simp [hrejection, herror]

def answerOf (run : GroupRun) (deadline : Option Instant) (s : GroupState σ) (w : Worker)
    (since : Instant) (reply : Reply) : Entry :=
  ⟨s.world.now, .answered (run.caller w) (Instant.elapsed since s.world.now) reply
    ((s.world.receive reply).stopReason deadline)⟩

/-- What the turn of worker `w` does. -/
inductive Acts (env : Environment σ) (run : GroupRun) (deadline : Option Instant)
    (s : GroupState σ) (w : Worker) (t : GroupState σ) : Prop
  | called (pausing : w.activity = .pausing)
      (world : t.world = (s.world.post env run.call).2)
      (stats : t.stats = s.stats)
      (workers : t.workers = (s.put { w with
        due := Instant.wake s.world.now (s.world.post env run.call).1.latency
        activity := .awaiting s.world.now (s.world.post env run.call).1 }).workers)
      (past : t.past = ⟨s.world.now, .called (run.caller w) run.call⟩ :: s.past)
  | responded {since : Instant} {reply : Reply} {r : Response} {h : History}
      (awaiting : w.activity = .awaiting since reply) (outcome : reply.outcome = .response r)
      (world : t.world = s.world.receive reply)
      (stats : t.stats = s.stats.recordResponse (Instant.elapsed since s.world.now) r)
      (workers : t.workers = (s.put { w with
        due := Instant.wake s.world.now run.delay
        activity := .pausing
        codes := w.codes.add r.status 1 }).workers)
      (lines : s.LinesNow h)
      (past : t.past = h ++ answerOf run deadline s w since reply :: s.past)
  | failed {since : Instant} {reply : Reply} {f : TargetFault} {h : History}
      (awaiting : w.activity = .awaiting since reply) (outcome : reply.outcome = .failure f)
      (mild : f.isFatal = false) (live : (s.world.receive reply).stopReason deadline = none)
      (world : t.world = s.world.receive reply)
      (stats : t.stats = s.stats.recordError)
      (workers : t.workers = (s.put { w with
        due := Instant.wake s.world.now run.delay
        activity := .pausing }).workers)
      (lines : s.LinesNow h)
      (past : t.past = h ++ answerOf run deadline s w since reply :: s.past)
  | ended {since : Instant} {reply : Reply} {f : TargetFault} {h : History}
      (awaiting : w.activity = .awaiting since reply) (outcome : reply.outcome = .failure f)
      (ends : f.isFatal = true ∨ (s.world.receive reply).stopReason deadline ≠ none)
      (world : t.world = s.world.receive reply)
      (stats : t.stats = s.stats.mergeCodes w.codes)
      (workers : t.workers = (s.drop w).workers)
      (lines : s.LinesNow h)
      (past : t.past = h ++ answerOf run deadline s w since reply :: s.past)
  | panicked {since : Instant} {reply : Reply} {text : String}
      (awaiting : w.activity = .awaiting since reply) (outcome : reply.outcome = .panic text)
      (world : t.world = s.world.receive reply)
      (stats : t.stats = s.stats)
      (workers : t.workers = (s.drop w).workers)
      (past : t.past = answerOf run deadline s w since reply :: s.past)

theorem Paced.congr {t : GroupState σ} (hp : s.Paced) (hnow : t.world.now = s.world.now)
    (hreporter : t.reporter = s.reporter) : t.Paced := by
  intro r hr
  rw [hnow]
  exact hp r (hreporter ▸ hr)

theorem LinesNow.congr {t : GroupState σ} {h : History} (hh : s.LinesNow h)
    (hnow : t.world.now = s.world.now) : t.LinesNow h :=
  fun e he => ⟨(hh e he).1, (hh e he).2.trans hnow.symm⟩

theorem LinesNow.append {h h' : History} (hh : s.LinesNow h) (hh' : s.LinesNow h') :
    s.LinesNow (h ++ h') := by
  intro e he
  rcases List.mem_append.mp he with he | he
  · exact hh e he
  · exact hh' e he

theorem answer_eq (run : GroupRun) (deadline : Option Instant) (s : GroupState σ) (w : Worker)
    (since : Instant) (reply : Reply) :
    s.answer run deadline w since reply =
      { s with
        world := s.world.receive reply
        past := answerOf run deadline s w since reply :: s.past } := by
  simp [answer, answerOf, note]

theorem receive_acts (hp : s.Paced) {w : Worker} {since : Instant} {reply : Reply}
    (hw : w.activity = .awaiting since reply) :
    Acts env run deadline s w (s.receive run deadline w since reply) ∧
      (s.receive run deadline w since reply).Paced := by
  have hnow : (s.answer run deadline w since reply).world.now = s.world.now := by
    simp [answer_eq]
  have hpa : (s.answer run deadline w since reply).Paced :=
    hp.congr hnow (by rw [answer_eq])
  obtain ⟨h₁, reporter, hreport, hlines₁, hpr⟩ := reportDue_eq hpa run
  have hlines : s.LinesNow h₁ := hlines₁.congr hnow.symm
  unfold receive
  cases hout : reply.outcome with
  | response r =>
    obtain ⟨h₂, hlines₂, hcount⟩ := count_eq run ((s.answer run deadline w since reply).reportDue run)
      (Instant.elapsed since (s.answer run deadline w since reply).world.now) r
    have hnow₂ : ((s.answer run deadline w since reply).reportDue run).world.now = s.world.now := by
      rw [hreport]
      exact hnow
    simp only [hcount]
    refine ⟨.responded hw hout ?_ ?_ ?_ ((hlines₂.congr hnow₂.symm).append hlines) ?_,
      hpr.congr rfl rfl⟩
    all_goals
      simp only [pause, put, hreport]
      simp [answer_eq]
  | failure f =>
    simp only
    by_cases hfatal : f.isFatal = true
    · rw [if_pos hfatal]
      refine ⟨.ended (h := [⟨s.world.now, .logged (.requestImpossible run.name f)⟩]) hw hout
        (.inl hfatal) ?_ ?_ ?_ ?_ ?_, hpa.congr rfl rfl⟩
      · simp [retire, drop, log, note, answer_eq]
      · simp [retire, drop, log, note, answer_eq]
      · simp [retire, drop, log, note, answer_eq]
      · intro e he
        obtain rfl := List.mem_singleton.mp he
        exact ⟨rfl, rfl⟩
      · simp [retire, drop, log, note, answer_eq]
    · rw [if_neg hfatal]
      by_cases hstop : (s.answer run deadline w since reply).world.stopReason deadline = none
      · rw [if_neg (by simp [hstop])]
        refine ⟨.failed hw hout (by simpa using hfatal) (by simpa [answer_eq] using hstop) ?_ ?_ ?_
          hlines ?_, hpr.congr rfl rfl⟩
        all_goals
          simp only [pause, put, hreport]
          simp [answer_eq]
      · rw [if_pos (by simpa [Option.isSome_iff_ne_none] using hstop)]
        refine ⟨.ended (h := []) hw hout (.inr (by simpa [answer_eq] using hstop)) ?_ ?_ ?_
          (by simp [LinesNow]) ?_, hpa.congr rfl rfl⟩
        all_goals simp [retire, drop, answer_eq]
  | panic text =>
    refine ⟨.panicked hw hout ?_ ?_ ?_ ?_, hpa.congr rfl rfl⟩
    all_goals simp [drop, answer_eq]

theorem act_acts (env : Environment σ) (run : GroupRun) (deadline : Option Instant)
    (hp : s.Paced) (w : Worker) :
    Acts env run deadline s w (s.act env run deadline w) ∧ (s.act env run deadline w).Paced := by
  unfold act
  cases hw : w.activity with
  | pausing =>
    refine ⟨.called hw ?_ ?_ ?_ ?_, hp.congr rfl rfl⟩
    all_goals simp [call, put, note]
  | awaiting since reply => exact receive_acts hp hw

end GroupState

end PhasedLoad
