import PhasedLoad.Proofs.Lifecycle

/-! How a run ends: with what its last execution brings, if that ends it, and otherwise between two
executions, complete, timed out or cancelled. -/

namespace PhasedLoad

/-- No call breaks its caller down. -/
def Target.Calm {σ : Type} (target : Target σ) : Prop :=
  ∀ call st text, (target.post call st).1.outcome ≠ .panic text

/-- The start of an execution that a line tells of: the phase, from one, its name, and which
execution of it. -/
def LogEvent.started? : LogEvent → Option (Nat × String × Nat)
  | phaseStarting phase name execution _ => some (phase, name, execution)
  | _ => none

def LogEvent.starts (log : List LogEvent) : List (Nat × String × Nat) := log.filterMap started?

def PhaseSummary.start (s : PhaseSummary) : Nat × String × Nat := (s.phase + 1, s.name, s.execution)

/-- No execution follows one that ends so. -/
def PhaseEnd.isLast : PhaseEnd → Bool
  | canceled | setupFailed => true
  | _ => false

def Event.started? : Event → Option (Nat × String × Nat)
  | logged line => line.started?
  | _ => none

theorem Event.isMark_of_started? {event : Event} (h : event.started?.isSome = true) :
    event.isMark = true := by
  cases event with
  | logged line => cases line <;> simp_all [started?, LogEvent.started?, isMark]
  | _ => cases h

structure Execution.Tells (x : Execution) : Prop where
  phase : x.summary.phase = x.phase
  setupFailed : x.summary.ending = .setupFailed ↔ x.setupFault.isSome = true
  starts : x.history.marks.filterMap Event.started? = [x.summary.start]

theorem Execution.Tells.goesOn {x : Execution} (h : x.Tells) (hnone : RunState.concludedBy x = none) :
    x.summary.ending.isLast = false := by
  unfold RunState.concludedBy at hnone
  split at hnone
  · cases hnone
  · next hfault =>
    have hsetup : x.summary.ending ≠ .setupFailed := by
      rw [Ne, h.setupFailed, hfault]
      nofun
    cases hending : x.summary.ending with
    | canceled => simp [hending] at hnone
    | setupFailed => exact absurd hending hsetup
    | _ => rfl

theorem History.starts_logs (h : History) :
    LogEvent.starts h.logs = h.marks.filterMap Event.started? := by
  have hmarks : ∀ event : Event,
      (if event.isMark then event.started? else none) = event.started? := by
    intro event
    split
    · rfl
    · next hmark =>
      exact (Option.not_isSome_iff_eq_none.mp fun hsome =>
        hmark (Event.isMark_of_started? hsome)).symm
  calc
    LogEvent.starts h.logs = h.filterMap fun e => e.event.started? := by
      rw [LogEvent.starts, logs, List.filterMap_filterMap]
      congr
      funext e
      cases e.event <;> rfl
    _ = h.marks.filterMap Event.started? := by
      rw [marks, List.filterMap_filter, List.filterMap_map]
      simp only [hmarks, Function.comp_def]

section

variable {σ : Type} {env : Environment σ} {deadline : Option Instant} {w : World σ}
  {body : Option String}

theorem setUp_calm (hcalm : env.target.Calm) (text : String) :
    (setUp env body deadline w).result ≠ .panicked text := by
  cases body with
  | none => exact nofun
  | some body =>
    have houtcome := hcalm (setupCall body) w.target
    unfold setUp
    dsimp only
    split
    · exact nofun
    · split
      · exact nofun
      · intro hpanicked
        cases hreply : (w.post env (setupCall body)).1.outcome with
        | panic text => exact houtcome text hreply
        | _ => simp [Part.called, hreply, SetupResult.ofOutcome] at hpanicked

theorem tearDown_calm (hcalm : env.target.Calm) (phase : Nat) :
    (tearDown env phase body w).result = none := by
  cases body with
  | none => rfl
  | some body =>
    have houtcome := hcalm (setupCall body) w.target
    cases hreply : (w.post env (setupCall body)).1.outcome with
    | panic text => exact absurd hreply (houtcome text)
    | _ => simp [tearDown, Part.called, hreply]

end

theorem Repeats.Within.sum_add_remaining {r : Repeats} {e : Executions} (h : r.Within e) :
    e.sum + r.remaining e = r.total e.length := by
  have hfrom : ∀ i, (∀ j, e.getD j 0 ≤ r.count (i + j)) →
      e.sum + r.remainingFrom i e =
        ((List.range' i e.length).map r.count).sum := by
    clear h
    induction e with
    | nil => simp [remainingFrom]
    | cons done rest ih =>
      intro i hle
      have hfirst : done ≤ r.count i := hle 0
      have hrest := ih (i + 1) fun j => by
        have hj := hle (j + 1)
        rwa [List.getD_cons_succ, Nat.add_comm j, ← Nat.add_assoc] at hj
      simp only [List.sum_cons, remainingFrom, List.length_cons, List.range'_succ, List.map_cons]
      omega
  rw [remaining, hfrom 0 fun j => by rw [Nat.zero_add]; exact h j, total_eq_sum,
    List.range_eq_range']

namespace RunState

variable {σ : Type} {env : Environment σ} {turns : Nat} {c : Campaign} {deadline : Option Instant}
  {s t : RunState σ} {conclusion : Conclusion}

theorem Counted.sum_eq (h : Counted c s) : s.executions.sum = s.past.length := by
  have hall := h.within.sum_add_remaining
  have hcounted := h.counted
  rw [h.length] at hall
  rw [Campaign.executions] at hcounted
  omega

theorem Proceeds.goesOn (h : Proceeds env turns c deadline s (.next t))
    (hpast : ∀ x ∈ s.past, concludedBy x = none) : ∀ x ∈ t.past, concludedBy x = none := by
  generalize hr : Round.next t = r at h
  cases h with
  | @turned x world _ _ hcontinues =>
    obtain ⟨current, selector, hturn⟩ | ⟨selector, hturn⟩ :=
      turn_cases c (s.record s.current x s.selector world)
    · rw [hturn] at hr
      cases hr
      exact List.forall_mem_cons.mpr ⟨hcontinues, hpast⟩
    · rw [hturn] at hr
      cases hr
  | _ => cases hr

/-- The executions before the last round did not end the run. -/
theorem Due.goesOn (h : Due c s) (hpast : ∀ x ∈ s.past, concludedBy x = none)
    (ht : Reaches env turns c deadline s t) : ∀ x ∈ t.past, concludedBy x = none := by
  induction ht with
  | refl => exact hpast
  | next hu hround ih => exact ((h.reaches hu).proceeds hround).goesOn ih

end RunState

namespace Campaign

variable {σ : Type} {env : Environment σ} {turns : Nat} {c : Campaign} {i number : Nat}
  {outer deadline : Option Instant} {w after : World σ} {result : ExecutionResult} {x : Execution}
  {selector : Selector}

open RunState

theorem execute_calm (hcalm : env.target.Calm)
    (h : c.execute env turns i number outer w = some (result, after)) : result.panic? = none := by
  unfold execute at h
  dsimp only at h
  split at h
  · next text htext => exact absurd htext (setUp_calm hcalm text)
  · obtain ⟨work, -, h⟩ := Option.bind_eq_some_iff.mp h
    rw [tearDown_calm hcalm] at h
    cases h
    rfl

theorem tells_of_execute (hlive : w.stopReason (c.phaseDeadline i outer w) = none)
    (h : c.execute env turns i number outer w = some (result, after))
    (hx : result.execution? = some x) : x.Tells := by
  cases execute_cases hlive h with
  | setupPanicked _ _ => cases hx
  | @summarized setup work _ hsets hpursues hexecution =>
    rw [hx] at hexecution
    cases hexecution
    refine ⟨rfl, ?_, ?_⟩
    · cases hpursues with
      | @stopped reason hresult =>
        cases reason <;> simp [assemble, summaryOf, hresult, PhaseEnd.ofReason]
      | failed _ hresult => simp [assemble, summaryOf, hresult]
      | ready hresult hworks =>
        obtain ⟨reason, hending, -⟩ | ⟨hending, -⟩ := hworks.ending
        · cases reason <;> simp [assemble, summaryOf, hresult, hending, PhaseEnd.ofReason]
        · simp [assemble, summaryOf, hresult, hending]
    · have hwork : work.history.marks.filterMap Event.started? = [] := by
        refine List.filterMap_eq_nil_iff.mpr fun event hevent => ?_
        obtain ⟨-, run, -, number, -, rfl⟩ := hpursues.marks event hevent
        rfl
      simp only [Execution.history, History.marks_append, account_marks, List.filterMap_append]
      simp only [assemble, History.marks_cons, hsets.marks, tearDown_marks, hwork]
      simp [Part.logged, startEvent, Event.isMark, Event.started?, LogEvent.started?,
        List.filterMap_map, Function.comp_def, PhaseSummary.start, summaryOf]

theorem Ready.tells (hc : c.Ready) {o : RunOutcome σ}
    (h : c.run env turns selector outer w = some o) : ∀ x ∈ o.executions, x.Tells := by
  intro x hx
  obtain ⟨earlier, later, hsplit⟩ := List.append_of_mem hx
  refine hc.forall_executions (P := fun _ x => x.Tells) ?_ h earlier x later hsplit
  intro s result x after _ _ hstarts hexecute hexecution
  exact tells_of_execute (hc.live_of_starts hstarts) hexecute hexecution

theorem run_calm (hc : c.Ready) (hcalm : env.target.Calm) {o : RunOutcome σ}
    (h : c.run env turns selector outer w = some o) (text : String) : o.ending ≠ .panicked text := by
  obtain ⟨s, -, -, ⟨-, -, hreturns, -⟩ | ⟨-, result, hexecute, ⟨text', hpanic, -⟩ |
    ⟨x, -, -, hreturns, -⟩⟩⟩ := hc.run_cases h
  · exact hreturns text
  · rw [execute_calm hcalm hexecute] at hpanic
    cases hpanic
  · exact hreturns text

theorem Ready.starts_logs (hc : c.Ready) {o : RunOutcome σ}
    (h : c.run env turns selector outer w = some o) (hreturns : ∀ text, o.ending ≠ .panicked text) :
    LogEvent.starts o.history.logs = o.summaries.map PhaseSummary.start := by
  have hstarts : ∀ xs : List Execution, (∀ x ∈ xs, x.Tells) →
      (xs.flatMap fun x => x.history.marks).filterMap Event.started? =
        xs.map fun x => x.summary.start := by
    intro xs hxs
    induction xs with
    | nil => rfl
    | cons x xs ih =>
      simp only [List.forall_mem_cons] at hxs
      rw [List.flatMap_cons, List.filterMap_append, hxs.1.starts, ih hxs.2, List.singleton_append,
        List.map_cons]
  rw [History.starts_logs, hc.run_marks h hreturns, hstarts _ (hc.tells h), RunOutcome.summaries,
    List.map_map]
  rfl

structure Reports (c : Campaign) (ss : List PhaseSummary) (report : RunReport) : Prop where
  length : report.executions.length = c.phaseCount
  counts : ∀ i, report.executions.getD i 0 = ss.countP (·.phase = i)
  total : report.total = ss.length
  completed : report.ending = .completed →
    report.executions = (List.range c.phaseCount).map c.repeats.count ∧
      report.total = c.budget.executions

/-- How a run ends after the executions with these summaries, of which only the last may end it. -/
inductive Concludes (c : Campaign) : List PhaseSummary → RunEnding → Prop
  | finished {ss : List PhaseSummary} {report : RunReport}
      (goesOn : ∀ s ∈ ss, s.ending.isLast = false) (reports : c.Reports ss report) :
      Concludes c ss (.finished report)
  /-- The run is cancelled between two executions. -/
  | canceled {ss : List PhaseSummary} (goesOn : ∀ s ∈ ss, s.ending.isLast = false) :
      Concludes c ss (.failed .canceled)
  | cut {ss : List PhaseSummary} {s : PhaseSummary} (goesOn : ∀ s ∈ ss, s.ending.isLast = false)
      (canceled : s.ending = .canceled) : Concludes c (ss ++ [s]) (.failed .canceled)
  | setupFailed {ss : List PhaseSummary} {s : PhaseSummary} {f : TargetFault}
      (goesOn : ∀ s ∈ ss, s.ending.isLast = false) (failed : s.ending = .setupFailed) :
      Concludes c (ss ++ [s]) (.failed (c.setupFault s.phase f))

theorem Ready.reports_of_counted (hc : c.Ready) {s : RunState σ} (hs : Counted c s)
    (htells : ∀ x ∈ s.past, x.Tells) (elapsed : Duration) {ending : RunEnd}
    (hcompleted : ending = .completed →
      s.executions = (List.range c.phaseCount).map c.repeats.count) :
    c.Reports (s.past.reverse.map (·.summary)) (.ofExecutions s.executions elapsed ending) where
  length := hs.length
  counts := fun i => by
    rw [List.countP_map, List.countP_reverse]
    refine (hs.counts i).trans (List.countP_congr fun x hx => ?_)
    simp [(htells x hx).phase]
  total := by
    rw [List.length_map, List.length_reverse]
    exact hs.sum_eq
  completed := fun hending => by
    have hall := hcompleted hending
    refine ⟨hall, ?_⟩
    rw [hc.executions_eq, executions, Repeats.total_eq_sum, ← hall]
    rfl

theorem concludes_of_concludedBy (c : Campaign) (hx : x.Tells) {ss : List PhaseSummary}
    (hgoes : ∀ s ∈ ss, s.ending.isLast = false) {conclusion : Conclusion}
    (h : concludedBy x = some conclusion) (started : Instant) (s : RunState σ) :
    c.Concludes (ss ++ [x.summary]) (c.conclude started s conclusion).1 := by
  rcases concludedBy_cases h with ⟨f, hf, rfl⟩ | ⟨-, hcanceled, rfl⟩
  · rw [conclude, ← hx.phase]
    exact .setupFailed hgoes (hx.setupFailed.mpr (by rw [hf]; rfl))
  · exact .cut hgoes hcanceled

theorem goesOn_of_tells {xs : List Execution} (htells : ∀ x ∈ xs, x.Tells)
    (hnone : ∀ x ∈ xs, concludedBy x = none) :
    ∀ s ∈ xs.reverse.map (·.summary), s.ending.isLast = false := by
  intro s hs
  obtain ⟨x, hx, rfl⟩ := List.mem_map.mp hs
  have hmem := List.mem_reverse.mp hx
  exact (htells x hmem).goesOn (hnone x hmem)

theorem Ready.concludes (hc : c.Ready) (hcalm : env.target.Calm) {o : RunOutcome σ}
    (h : c.run env turns selector outer w = some o) : c.Concludes o.summaries o.ending := by
  have hreturns := run_calm hc hcalm h
  have htells := hc.tells h
  obtain ⟨s, conclusion, t, hs, hlast, rfl⟩ := run_eq_some h
  simp only [List.mem_reverse] at htells
  have hstart := due_start hc selector w
  have hdue := hstart.reaches hs
  have hnone : ∀ x ∈ s.past, concludedBy x = none :=
    hstart.goesOn (fun _ hmem => absurd hmem List.not_mem_nil) hs
  generalize hr : Round.last conclusion t = r at hlast
  -- The last round either comes to nothing more or to one more execution.
  cases hdue.proceeds hlast with
  | canceled _ =>
    cases hr
    exact .canceled (goesOn_of_tells htells hnone)
  | timedOut _ =>
    cases hr
    exact .finished (goesOn_of_tells htells hnone)
      (hc.reports_of_counted hdue.toCounted htells _ nofun)
  | panicked =>
    cases hr
    exact absurd rfl (hreturns _)
  | @concluded x world conclusion _ _ hconcludes =>
    cases hr
    have hpast : ∀ y ∈ s.past, y.Tells := fun y hy => htells y (List.mem_cons_of_mem _ hy)
    have hsummaries : (s.record s.current x s.selector world).past.reverse.map (·.summary) =
        s.past.reverse.map (·.summary) ++ [x.summary] := by
      simp [record]
    rw [RunOutcome.summaries, hsummaries]
    exact concludes_of_concludedBy c (htells x List.mem_cons_self) (goesOn_of_tells hpast hnone)
      hconcludes _ _
  | @turned x world _ hexecute hcontinues =>
    have hrecord := hdue.record (place_of_execute hexecute x rfl).1 world
    obtain ⟨u, hturn, -⟩ | ⟨u, hturn, hexecutions, hpast, hall⟩ := hrecord.turn
    · rw [hturn] at hr
      cases hr
    · rw [hturn] at hr
      cases hr
      rw [hpast] at htells
      have hcounts : (s.record s.current x s.selector world).executions =
          (List.range c.phaseCount).map c.repeats.count := by
        rw [← hrecord.length]
        exact hrecord.within.eq_map_count hall
      have hreports : c.Reports _ (.ofExecutions _ (Instant.elapsed w.now t.world.now) .completed) :=
        hc.reports_of_counted hrecord htells _ fun _ => hcounts
      have hgoes : ∀ y ∈ (s.record s.current x s.selector world).past, concludedBy y = none :=
        List.forall_mem_cons.mpr ⟨hcontinues, hnone⟩
      rw [← hexecutions] at hreports
      rw [RunOutcome.summaries, hpast]
      exact .finished (goesOn_of_tells htells hgoes) hreports

end Campaign

end PhasedLoad
