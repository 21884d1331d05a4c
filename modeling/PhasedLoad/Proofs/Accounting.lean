import PhasedLoad.Proofs.Group.Traces
import PhasedLoad.Proofs.Lifecycle

/-! What the summary of an execution says: its numbers are those of the calls of its own workers,
and a call of a worker that is in none of them is the last one of this worker. -/

namespace PhasedLoad

theorem Part.noWork_logged {σ : Type} (w : World σ) (lines : List LogEvent) :
    History.NoWork (lines.map (Part.logged w)) := by
  intro e he
  obtain ⟨line, -, rfl⟩ := List.mem_map.mp he
  rfl

section Parts

variable {σ : Type} {env : Environment σ} {turns : Nat} {name : String}
  {deadline : Option Instant} {w : World σ} {runs : List GroupRun} {stats : Statistics}
  {body : Option String} {setup : Part SetupResult σ} {work : Part (PhaseEnd × Statistics) σ}

theorem SetsUp.noWork (hs : SetsUp env deadline w body setup) : setup.history.NoWork := by
  cases hs with
  | absent => exact History.noWork_nil
  | stopped body _ _ => exact .cons rfl (.cons rfl History.noWork_nil)
  | answered body _ harrives =>
    obtain ⟨-, rfl⟩ := Part.arrived_cases harrives
    exact .cons rfl (.cons rfl (.cons rfl (Part.noWork_logged _ _)))

theorem tearDown_noWork {phase : Nat} : (tearDown env phase body w).history.NoWork := by
  cases body with
  | none => exact History.noWork_nil
  | some body =>
    obtain ⟨due, reply, entry, after, harrives, -, hhistory⟩ := tearDown_some env phase body w
    obtain ⟨-, rfl⟩ := Part.arrived_cases harrives
    rw [hhistory]
    exact .cons rfl (.cons rfl (.cons rfl (Part.noWork_logged _ _)))

def workerCount (runs : List GroupRun) : Nat := runs.foldr (fun run n => run.instances + n) 0

theorem Works.tallies (hw : Works env turns name deadline runs w stats work) :
    stats.Tallies work.history work.result.2 ∧
      work.history.workCalls ≤
        work.history.responses.length + work.history.failures + workerCount runs := by
  induction hw with
  | nil w stats => exact ⟨.of_noWork stats History.noWork_nil, Nat.zero_le _⟩
  | @stopped run _ _ out reason runs hperform _ =>
    obtain ⟨htallies, hcalls⟩ := GroupRun.perform_tallies hperform
    have hidle := Part.noWork_logged out.world [.phaseStopped name reason]
    rw [List.map_singleton] at hidle
    refine ⟨htallies.trans (.of_noWork _ hidle), ?_⟩
    simp only [workerCount, History.workCalls_append, History.responses_append,
      History.failures_append, hidle.workCalls, hidle.responses, hidle.failures, List.length_append,
      List.length_nil, List.foldr_cons]
    omega
  | next hperform _ _ ih =>
    obtain ⟨htallies, hcalls⟩ := GroupRun.perform_tallies hperform
    refine ⟨htallies.trans ih.1, ?_⟩
    have hrest := ih.2
    simp only [workerCount, History.workCalls_append, History.responses_append,
      History.failures_append, List.length_append, List.foldr_cons] at hrest ⊢
    omega

theorem Works.trace_eq_nil (hw : Works env turns name deadline runs w stats work) {who : Caller}
    (hwho : ∀ run ∈ runs, ∀ number, who ≠ .worker run.name.group number) :
    History.trace who work.history = [] := by
  induction hw with
  | nil => rfl
  | stopped runs hperform _ =>
    rw [History.trace_append,
      GroupRun.perform_trace_eq_nil hperform fun number _ => hwho _ List.mem_cons_self number]
    rfl
  | next hperform _ _ ih =>
    rw [History.trace_append,
      GroupRun.perform_trace_eq_nil hperform fun number _ => hwho _ List.mem_cons_self number,
      ih fun run hrun => hwho run (List.mem_cons_of_mem _ hrun)]
    rfl

/-- Groups of different numbers do not share workers, so that what a worker did is what it did in
its group. -/
theorem Works.served (hw : Works env turns name deadline runs w stats work)
    (hnodup : (runs.map (·.name.group)).Nodup) (group number : Nat) :
    Served (.worker group number) (History.trace (.worker group number) work.history) := by
  induction hw with
  | nil => exact .idle .nil
  | @stopped run _ _ out reason runs hperform _ =>
    have hline : History.trace (.worker group number)
        [Part.logged out.world (.phaseStopped name reason)] = [] := rfl
    rw [History.trace_append, hline, List.append_nil]
    by_cases hgroup : run.name.group = group
    · exact hgroup ▸ GroupRun.perform_served hperform number
    · rw [GroupRun.perform_trace_eq_nil hperform fun k => by simp [Ne.symm hgroup]]
      exact .idle .nil
  | @next run runs _ _ out rest hperform _ hworks ih =>
    simp only [List.map_cons, List.nodup_cons, List.mem_map, not_exists, not_and] at hnodup
    rw [History.trace_append]
    by_cases hgroup : run.name.group = group
    · have hrest : History.trace (.worker group number) rest.history = [] :=
        hworks.trace_eq_nil fun other hother k => by
          simpa [← hgroup] using fun h => (hnodup.1 other hother h.symm).elim
      rw [hrest, List.append_nil]
      exact hgroup ▸ GroupRun.perform_served hperform number
    · rw [GroupRun.perform_trace_eq_nil hperform fun k => by simp [Ne.symm hgroup]]
      exact ih hnodup.2

theorem Pursues.tallies (h : Pursues env turns name deadline runs setup work) :
    Statistics.empty.Tallies work.history work.result.2 ∧
      work.history.workCalls ≤
        work.history.responses.length + work.history.failures + workerCount runs := by
  cases h with
  | stopped _ => exact ⟨.of_noWork _ History.noWork_nil, Nat.zero_le _⟩
  | @failed fault place _ =>
    have hidle := Part.noWork_logged setup.world [.setupFailed place name fault]
    exact ⟨.of_noWork _ hidle, hidle.workCalls ▸ Nat.zero_le _⟩
  | ready _ hworks => exact hworks.tallies

theorem Pursues.served (h : Pursues env turns name deadline runs setup work)
    (hnodup : (runs.map (·.name.group)).Nodup) (group number : Nat) :
    Served (.worker group number) (History.trace (.worker group number) work.history) := by
  cases h with
  | stopped _ => exact .idle .nil
  | failed _ _ => exact .idle .nil
  | ready _ hworks => exact hworks.served hnodup group number

end Parts

def History.micros (h : History) : Nat :=
  h.responses.foldr (fun r total => r.1.micros + total) 0

theorem History.recorded_eq_ofNat {h : History} (hlt : h.micros < 2 ^ 64) :
    h.recorded = .ofNat h.micros := by
  unfold micros at hlt
  unfold recorded micros
  generalize h.responses = l at hlt ⊢
  induction l with
  | nil => rfl
  | cons r l ih =>
    simp only [List.foldr_cons] at hlt ⊢
    have hmicros : Statistics.microsOf r.1 = .ofNat r.1.micros := by
      rw [Statistics.microsOf, Nat.min_eq_left (by omega)]
    rw [ih (by omega), hmicros, UInt64.ofNat_add]

/-- What the summary of an execution says of the calls of its workers: each response is a request,
and nothing else is. Counters have 64 bits. -/
structure Execution.Accounted (c : Campaign) (x : Execution) : Prop where
  requests : x.summary.requests = .ofNat x.history.responses.length
  errors : x.summary.errors = .ofNat (x.history.failures + x.history.answers (400 < ·))
  meanLatency : x.history.responses.length < 2 ^ 64 → x.history.micros < 2 ^ 64 →
    x.summary.meanLatency.nanos = 1000 * (x.history.micros / x.history.responses.length)
  ascending : x.summary.codes.Ascending
  /-- The statuses of a worker that breaks down are lost. -/
  codes : x.history.breaksDown = false → ∀ status,
    x.summary.codes.count status = .ofNat (x.history.answers (· == status))
  total : x.history.breaksDown = false → x.summary.codes.total = x.summary.requests
  served : ∀ group number,
    Served (.worker group number) (History.trace (.worker group number) x.history)
  calls : x.history.workCalls ≤
    x.history.responses.length + x.history.failures + workerCount (c.groups x.phase)

theorem Execution.noWork_account (x : Execution) : x.account.NoWork := by
  intro e he
  simp only [account, List.mem_append, List.mem_map, List.mem_singleton] at he
  rcases he with ⟨line, -, rfl⟩ | rfl <;> rfl

namespace Statistics.Tallies

variable {h : History} {t : Statistics}

theorem meanLatency_nanos (ht : empty.Tallies h t) (hlength : h.responses.length < 2 ^ 64)
    (hmicros : h.micros < 2 ^ 64) :
    t.counters.meanLatency.nanos = 1000 * (h.micros / h.responses.length) := by
  have hrequests : t.counters.requests.toNat = h.responses.length := by
    rw [ht.counts.requests]
    simp [empty, Snapshot.zero, Nat.mod_eq_of_lt hlength]
  have htotal : t.counters.micros.toNat = h.micros := by
    rw [ht.counts.micros, History.recorded_eq_ofNat hmicros]
    simp [empty, Snapshot.zero, Nat.mod_eq_of_lt hmicros]
  have hmean : h.micros / h.responses.length < 2 ^ 64 :=
    Nat.lt_of_le_of_lt (Nat.div_le_self _ _) hmicros
  rw [Snapshot.meanLatency, hrequests, htotal, Duration.ofMicros, Duration.ofNanos_nanos_of_lt,
    Nat.mul_comm]
  rw [Duration.limit]
  omega

theorem weight_eq (ht : empty.Tallies h t) (hbreaks : h.breaksDown = false) (p : Nat → Bool) :
    t.codes.weight p = .ofNat (h.answers p) := by
  rw [ht.codes hbreaks]
  simp [empty]

theorem ascending_codes (ht : empty.Tallies h t) : t.codes.Ascending :=
  ht.ascending List.Pairwise.nil

end Statistics.Tallies

/-- The setup, the summary and the teardown are nothing to count, so the numbers are those of the
groups. -/
theorem Execution.Accounted.of_work {c : Campaign} {x : Execution} {stats : Statistics}
    {name : String} {number : Nat} {elapsed : Duration} {ending : PhaseEnd}
    (hopening : x.opening.NoWork) (hclosing : x.closing.NoWork)
    (htallies : Statistics.empty.Tallies x.work stats)
    (hsummary : x.summary = summaryOf x.phase name number elapsed stats ending)
    (hserved : ∀ group number,
      Served (.worker group number) (History.trace (.worker group number) x.work))
    (hcalls : x.work.workCalls ≤
      x.work.responses.length + x.work.failures + workerCount (c.groups x.phase)) :
    x.Accounted c := by
  have haccount := x.noWork_account
  have hwhole : Statistics.empty.Tallies x.history stats :=
    (((Statistics.Tallies.of_noWork _ hopening).trans htallies).trans
      (.of_noWork _ haccount)).trans (.of_noWork _ hclosing)
  have hrequests : x.summary.requests = .ofNat x.history.responses.length := by
    rw [hsummary]
    exact hwhole.counts.requests.trans (UInt64.zero_add _)
  refine ⟨hrequests, ?_, ?_, ?_, ?_, ?_, ?_, ?_⟩
  · rw [hsummary]
    exact hwhole.counts.errors.trans (UInt64.zero_add _)
  · rw [hsummary]
    exact hwhole.meanLatency_nanos
  · rw [hsummary]
    exact hwhole.ascending_codes
  · intro hbreaks status
    rw [hsummary]
    exact (hwhole.ascending_codes.count_eq_weight status).trans (hwhole.weight_eq hbreaks _)
  · intro hbreaks
    rw [hrequests, hsummary]
    refine (hwhole.weight_eq hbreaks _).trans ?_
    simp [History.answers]
  · intro group k
    simp only [Execution.history, History.trace_append, hopening.trace, hclosing.trace,
      haccount.trace, List.nil_append, List.append_nil]
    exact hserved group k
  · simp only [Execution.history, History.workCalls_append, History.responses_append,
      History.failures_append, hopening.workCalls, hopening.responses, hopening.failures,
      hclosing.workCalls, hclosing.responses, hclosing.failures, haccount.workCalls,
      haccount.responses, haccount.failures, List.nil_append, List.append_nil, Nat.zero_add,
      Nat.add_zero]
    exact hcalls

namespace Campaign

variable {σ : Type} {env : Environment σ} {turns : Nat} {c : Campaign} {i number : Nat}
  {outer : Option Instant} {w after : World σ} {result : ExecutionResult} {x : Execution}
  {plan : Plan} {settings : RunSettings} {events : List LogEvent}

open RunState

theorem nodup_groups (c : Campaign) (i : Nat) : ((c.groups i).map (·.name.group)).Nodup := by
  refine List.pairwise_iff_getElem.mpr fun j k hj hk hlt => ?_
  simp only [groups, groupRun, List.getElem_map, List.getElem_mapIdx]
  omega

theorem accounted_of_execute (hlive : w.stopReason (c.phaseDeadline i outer w) = none)
    (h : c.execute env turns i number outer w = some (result, after))
    (hx : result.execution? = some x) : x.Accounted c := by
  cases execute_cases hlive h with
  | setupPanicked _ _ => cases hx
  | @summarized setup work _ hsets hpursues hexecution =>
    rw [hx] at hexecution
    cases hexecution
    have hopening : History.NoWork (Part.logged w (c.startEvent i number) :: setup.history) :=
      .cons rfl hsets.noWork
    obtain ⟨htallies, hcalls⟩ := hpursues.tallies
    exact .of_work hopening tearDown_noWork htallies rfl (hpursues.served (c.nodup_groups i)) hcalls

/-- Whatever the workers of an execution get, whenever they get it and however the execution ends,
its summary counts their responses and their failures and no other call. Each of them goes on only
after a call that counts, so that no more calls than there are workers do not. -/
theorem run_counts_calls (hprepare : prepare plan settings = (events, .ok c))
    (env : Environment σ) (turns : Nat) (selector : Selector) (outer : Option Instant)
    (w : World σ) :
    (∀ s i result after x,
      Reaches env turns c (c.deadline outer w) (start c selector w) s →
      s.Starts c (c.deadline outer w) i →
      c.execute env turns i (s.executions.getD i 0 + 1) (c.deadline outer w) s.world =
        some (result, after) →
      result.execution? = some x → x.Accounted c) ∧
    ∀ o, c.run env turns selector outer w = some o → ∀ x ∈ o.executions, x.Accounted c := by
  have hc := ready_of_prepare hprepare
  refine ⟨?_, ?_⟩
  · intro s i result after x _ hi hexecute hx
    exact accounted_of_execute (hc.live_of_starts hi) hexecute hx
  · intro o hrun x hx
    obtain ⟨earlier, later, hsplit⟩ := List.append_of_mem hx
    refine hc.forall_executions (P := fun _ x => x.Accounted c) ?_ hrun earlier x later hsplit
    intro s result x after _ _ hstarts hexecute hexecution
    exact accounted_of_execute (hc.live_of_starts hstarts) hexecute hexecution

/-- A worker of the pair gets a success, an error and a failure in turn. -/
def mixed : Target.Script :=
  .ofRules [⟨"\x7b\x7d".toList,
    [.ofResponse (.ofMillis 3) 200 [], .ofResponse (.ofMillis 2) 500 [],
      ⟨.ofMillis 1, false, .failure (.timeout (.ofMillis 1))⟩]⟩]

theorem pair_counts_calls :
    (∃ events, prepare pair .standard = (events, .ok pairReady)) ∧
    ∃ o, pairReady.run (.orderly Target.scripted) 100 .cycle none (.start mixed none) = some o ∧
      ∃ x ∈ o.executions, x.Accounted pairReady ∧ x.summary.requests = 3 ∧ x.summary.errors = 2 ∧
        x.history.workCalls = 4 := by
  obtain ⟨events, hprepare⟩ := prepare_pair
  have hcheck : (pairReady.run (.orderly Target.scripted) 100 .cycle none (.start mixed none)).any
      (fun o => o.executions.any fun x =>
        x.summary.requests == 3 && x.summary.errors == 2 && x.history.workCalls == 4) = true := by
    decide +kernel
  obtain ⟨o, hrun, ho⟩ := (Option.any_eq_true _ _).mp hcheck
  obtain ⟨x, hx, hnumbers⟩ := List.any_eq_true.mp ho
  simp only [Bool.and_eq_true, beq_iff_eq] at hnumbers
  obtain ⟨⟨hrequests, herrors⟩, hcalls⟩ := hnumbers
  have hcounts := run_counts_calls hprepare (.orderly Target.scripted) 100 .cycle none
    (.start mixed none)
  exact ⟨⟨events, hprepare⟩, o, hrun, x, hx, hcounts.2 o hrun x hx, hrequests, herrors, hcalls⟩

end Campaign

end PhasedLoad
