import PhasedLoad.Proofs.Group.Roster
import PhasedLoad.Proofs.Histogram

/-! What a group counts: every response of its workers and every failure that is not fatal and comes
before the group stops, each once, whoever's turn it is. -/

namespace PhasedLoad

namespace Event

def response? : Event → Option (Duration × Response)
  | answered (.worker _ _) took reply _ =>
    match reply.outcome with
    | .response r => some (took, r)
    | _ => none
  | _ => none

/-- A worker's call failed, not fatally and before its group had stopped. -/
def isFailure : Event → Bool
  | answered (.worker _ _) _ reply stopped =>
    match reply.outcome with
    | .failure f => !f.isFatal && stopped.isNone
    | _ => false
  | _ => false

def isBreakdown : Event → Bool
  | answered (.worker _ _) _ reply _ =>
    match reply.outcome with
    | .panic _ => true
    | _ => false
  | _ => false

def isWorkCall : Event → Bool
  | called (.worker _ _) _ => true
  | _ => false

def isWork : Event → Bool
  | called (.worker _ _) _ | answered (.worker _ _) _ _ _ => true
  | _ => false

theorem isWork_of_isLine {event : Event} (h : event.isLine = true) : event.isWork = false := by
  cases event <;> simp_all [isLine, isWork]

theorem isWork_of_isWorkCall {event : Event} (h : event.isWorkCall = true) :
    event.isWork = true := by
  unfold isWorkCall at h
  split at h
  · rfl
  · cases h

theorem isWork_of_response? {event : Event} (h : event.response?.isSome = true) :
    event.isWork = true := by
  unfold response? at h
  split at h
  · rfl
  · cases h

theorem opens_of_isWorkCall {event : Event} (h : event.isWorkCall = true) :
    event.opens = true := by
  unfold isWorkCall at h
  split at h
  · rfl
  · cases h

end Event

namespace History

variable {h h' : History} {e : Entry}

def responses (h : History) : List (Duration × Response) := h.filterMap (·.event.response?)

def failures (h : History) : Nat := h.countP (·.event.isFailure)

def workCalls (h : History) : Nat := h.countP (·.event.isWorkCall)

theorem length_responses (h : History) :
    h.responses.length = h.countP fun e => e.event.response?.isSome :=
  List.length_filterMap_eq_countP

def breaksDown (h : History) : Bool := h.any (·.event.isBreakdown)

/-- The failures, and the responses that tell of an error. -/
def errors (h : History) : Nat := h.failures + h.responses.countP (·.2.isError)

/-- The responses whose status has property `p`. -/
def answers (p : Nat → Bool) (h : History) : Nat := h.responses.countP fun r => p r.2.status

/-- The microseconds of the responses as they are recorded. -/
def recorded (h : History) : UInt64 :=
  h.responses.foldr (fun r total => Statistics.microsOf r.1 + total) 0

@[simp] theorem responses_append (h h' : History) :
    responses (h ++ h') = responses h ++ responses h' := List.filterMap_append

@[simp] theorem failures_append (h h' : History) :
    failures (h ++ h') = failures h + failures h' := List.countP_append

@[simp] theorem workCalls_append (h h' : History) :
    workCalls (h ++ h') = workCalls h + workCalls h' := List.countP_append

@[simp] theorem breaksDown_append (h h' : History) :
    breaksDown (h ++ h') = (breaksDown h || breaksDown h') := List.any_append

theorem errors_append (h h' : History) : errors (h ++ h') = errors h + errors h' := by
  simp only [errors, failures_append, responses_append, List.countP_append]
  omega

@[simp] theorem answers_append (p : Nat → Bool) (h h' : History) :
    answers p (h ++ h') = answers p h + answers p h' := by
  simp [answers]

theorem recorded_append (h h' : History) : recorded (h ++ h') = recorded h + recorded h' := by
  have hfold : ∀ l : List (Duration × Response), ∀ n : UInt64,
      l.foldr (fun r total => Statistics.microsOf r.1 + total) n =
        l.foldr (fun r total => Statistics.microsOf r.1 + total) 0 + n := by
    intro l n
    induction l with
    | nil => simp
    | cons r l ih => rw [List.foldr_cons, List.foldr_cons, ih, UInt64.add_assoc]
  rw [recorded, responses_append, List.foldr_append, hfold]
  rfl

@[simp] theorem responses_singleton (e : Entry) : responses [e] = e.event.response?.toList := by
  cases h : e.event.response? <;> simp [responses, h]

@[simp] theorem failures_singleton (e : Entry) :
    failures [e] = if e.event.isFailure then 1 else 0 := by simp [failures]

@[simp] theorem workCalls_singleton (e : Entry) :
    workCalls [e] = if e.event.isWorkCall then 1 else 0 := by simp [workCalls]

@[simp] theorem breaksDown_singleton (e : Entry) : breaksDown [e] = e.event.isBreakdown := by
  simp [breaksDown]

theorem weigh_trans {a b c : (Nat → Bool) → UInt64}
    (hab : breaksDown h = false → ∀ p, b p = a p + .ofNat (answers p h))
    (hbc : breaksDown h' = false → ∀ p, c p = b p + .ofNat (answers p h')) :
    breaksDown (h ++ h') = false → ∀ p, c p = a p + .ofNat (answers p (h ++ h')) := by
  intro hbreaks p
  rw [breaksDown_append, Bool.or_eq_false_iff] at hbreaks
  rw [hbc hbreaks.2, hab hbreaks.1, answers_append, UInt64.ofNat_add, UInt64.add_assoc]

/-- No worker does anything in this history. -/
def NoWork (h : History) : Prop := ∀ e ∈ h, e.event.isWork = false

theorem noWork_of_lines (hh : ∀ e ∈ h, e.event.isLine = true) : NoWork h :=
  fun e he => Event.isWork_of_isLine (hh e he)

theorem noWork_nil : NoWork [] := fun _ he => absurd he List.not_mem_nil

theorem NoWork.cons (he : e.event.isWork = false) (hh : NoWork h) : NoWork (e :: h) :=
  List.forall_mem_cons.mpr ⟨he, hh⟩

theorem NoWork.responses (hh : NoWork h) : responses h = [] := by
  refine List.filterMap_eq_nil_iff.mpr fun e he => ?_
  have hwork := hh e he
  unfold Event.response?
  split <;> simp_all [Event.isWork]

theorem NoWork.failures (hh : NoWork h) : failures h = 0 := by
  refine List.countP_eq_zero.mpr fun e he => ?_
  have hwork := hh e he
  unfold Event.isFailure
  split <;> simp_all [Event.isWork]

theorem NoWork.workCalls (hh : NoWork h) : workCalls h = 0 := by
  refine List.countP_eq_zero.mpr fun e he => ?_
  have hwork := hh e he
  unfold Event.isWorkCall
  split <;> simp_all [Event.isWork]

end History

structure Statistics.Counts (s : Statistics) (h : History) (t : Statistics) : Prop where
  requests : t.counters.requests = s.counters.requests + .ofNat h.responses.length
  errors : t.counters.errors = s.counters.errors + .ofNat h.errors
  micros : t.counters.micros = s.counters.micros + h.recorded

namespace Statistics.Counts

variable {s t u : Statistics} {h h' : History} {e : Entry}

theorem trans (hst : Counts s h t) (htu : Counts t h' u) : Counts s (h ++ h') u where
  requests := by
    rw [htu.requests, hst.requests, History.responses_append, List.length_append,
      UInt64.ofNat_add, UInt64.add_assoc]
  errors := by
    rw [htu.errors, hst.errors, History.errors_append, UInt64.ofNat_add, UInt64.add_assoc]
  micros := by rw [htu.micros, hst.micros, History.recorded_append, UInt64.add_assoc]

theorem of_nothing (hresponses : h.responses = []) (hfailures : h.failures = 0)
    (hcounters : t.counters = s.counters) : Counts s h t where
  requests := by simp [hresponses, hcounters]
  errors := by simp [History.errors, hresponses, hfailures, hcounters]
  micros := by simp [History.recorded, hresponses, hcounters]

theorem of_noWork (hh : h.NoWork) (hcounters : t.counters = s.counters) : Counts s h t :=
  of_nothing hh.responses hh.failures hcounters

theorem of_response {took : Duration} {r : Response} (he : e.event.response? = some (took, r))
    (hfailure : e.event.isFailure = false) : Counts s [e] (s.recordResponse took r) := by
  have hresponses : History.responses [e] = [(took, r)] := by simp [he]
  have hfailures : History.failures [e] = 0 := by simp [hfailure]
  unfold recordResponse
  constructor
  · rw [hresponses]
    split <;> rfl
  · rw [History.errors, hresponses, hfailures]
    cases hr : r.isError <;> simp [hr, recordRequest, recordError]
  · rw [History.recorded, hresponses]
    split <;> simp [recordRequest, recordError]

theorem of_failure (he : e.event.isFailure = true) (hresponse : e.event.response? = none) :
    Counts s [e] s.recordError where
  requests := by simp [hresponse, recordError]
  errors := by simp [History.errors, he, hresponse, recordError]
  micros := by simp [History.recorded, hresponse, recordError]

end Statistics.Counts

def Worker.isPausing (v : Worker) : Bool :=
  match v.activity with
  | .pausing => true
  | .awaiting _ _ => false

namespace GroupState

variable {σ : Type} {env : Environment σ} {run : GroupRun} {deadline : Option Instant}
  {s t u : GroupState σ} {h h' : History} {v : Worker} {p : Nat → Bool}

/-- The statuses with property `p` that workers have yet to hand in. -/
def held (p : Nat → Bool) (workers : List Worker) : UInt64 :=
  workers.foldr (fun v total => v.codes.weight p + total) 0

theorem held_append (p : Nat → Bool) (l r : List Worker) : held p (l ++ r) = held p l + held p r := by
  induction l with
  | nil => simp [held]
  | cons v l ih =>
    simp only [held, List.cons_append, List.foldr_cons] at ih ⊢
    rw [ih, UInt64.add_assoc]

theorem held_cons (p : Nat → Bool) (v : Worker) (l : List Worker) :
    held p (v :: l) = v.codes.weight p + held p l := rfl

/-- The statuses with property `p` that came back, handed in or not. -/
def weight (p : Nat → Bool) (s : GroupState σ) : UInt64 := s.stats.codes.weight p + held p s.workers

def pausing (s : GroupState σ) : Nat := s.workers.countP (·.isPausing)

/-- From one state of a group to another, with what happened on the way counted. -/
structure Gains (s : GroupState σ) (h : History) (t : GroupState σ) : Prop where
  counts : s.stats.Counts h t.stats
  codes : h.breaksDown = false → ∀ p, t.weight p = s.weight p + .ofNat (h.answers p)
  ascending : s.stats.codes.Ascending → t.stats.codes.Ascending
  /-- A worker pauses after every call that was counted. -/
  calls : t.pausing + h.workCalls = s.pausing + h.responses.length + h.failures

theorem Gains.trans (hst : Gains s h t) (htu : Gains t h' u) : Gains s (h ++ h') u where
  counts := hst.counts.trans htu.counts
  codes := History.weigh_trans hst.codes htu.codes
  ascending := htu.ascending ∘ hst.ascending
  calls := by
    have hs := hst.calls
    have ht := htu.calls
    simp only [History.workCalls_append, History.responses_append, History.failures_append,
      List.length_append]
    omega

theorem Gains.of_noWork (hh : h.NoWork) (hstats : t.stats = s.stats)
    (hworkers : t.workers = s.workers) : Gains s h t where
  counts := .of_noWork hh (by rw [hstats])
  codes := by
    intro _ p
    simp [weight, hstats, hworkers, History.answers, hh.responses]
  ascending := by rw [hstats]; exact id
  calls := by simp [pausing, hworkers, hh.workCalls, hh.responses, hh.failures]

theorem gains_advance (hp : s.Paced) (run : GroupRun) (due : Instant) :
    ∃ h, (s.advance run due).past.reverse = s.past.reverse ++ h ∧ Gains s h (s.advance run due) := by
  obtain ⟨h, reporter, broken, heq, hlines, -⟩ := advance_eq hp run due
  refine ⟨h.reverse, by simp [heq], .of_noWork (History.noWork_of_lines ?_) (by rw [heq])
    (by rw [heq])⟩
  exact fun e he => hlines e (List.mem_reverse.mp he)

theorem Gains.of_turn {l r : List Worker} (vs : List Worker) (hs : s.workers = l ++ v :: r)
    (ht : t.workers = l ++ (vs ++ r)) (counts : s.stats.Counts h t.stats)
    (codes : h.breaksDown = false → ∀ p, t.stats.codes.weight p + held p vs =
      s.stats.codes.weight p + v.codes.weight p + .ofNat (h.answers p))
    (ascending : s.stats.codes.Ascending → t.stats.codes.Ascending)
    (calls : vs.countP (·.isPausing) + h.workCalls =
      [v].countP (·.isPausing) + h.responses.length + h.failures) : Gains s h t where
  counts := counts
  codes := by
    intro hbreaks p
    calc
      t.weight p = t.stats.codes.weight p + held p vs + (held p l + held p r) := by
        rw [weight, ht, held_append, held_append]
        ac_rfl
      _ = s.stats.codes.weight p + v.codes.weight p + .ofNat (h.answers p) +
          (held p l + held p r) := by rw [codes hbreaks p]
      _ = s.weight p + .ofNat (h.answers p) := by
        rw [weight, hs, held_append, held_cons]
        ac_rfl
  ascending := ascending
  calls := by
    rw [List.countP_singleton] at calls
    simp only [pausing, hs, ht, List.countP_append, List.countP_cons]
    omega

theorem recordResponse_codes (st : Statistics) (took : Duration) (r : Response) :
    (st.recordResponse took r).codes = st.codes := by
  unfold Statistics.recordResponse
  split <;> rfl

section

variable (run : GroupRun) (deadline : Option Instant) (s : GroupState σ) (v : Worker)
  (since : Instant) (reply : Reply)

@[simp] theorem answerOf_response? : (answerOf run deadline s v since reply).event.response? =
    match reply.outcome with
    | .response r => some (Instant.elapsed since s.world.now, r)
    | _ => none :=
  rfl

@[simp] theorem answerOf_isFailure : (answerOf run deadline s v since reply).event.isFailure =
    match reply.outcome with
    | .failure f => !f.isFatal && ((s.world.receive reply).stopReason deadline).isNone
    | _ => false :=
  rfl

@[simp] theorem answerOf_isBreakdown : (answerOf run deadline s v since reply).event.isBreakdown =
    match reply.outcome with
    | .panic _ => true
    | _ => false :=
  rfl

@[simp] theorem answerOf_isWorkCall :
    (answerOf run deadline s v since reply).event.isWorkCall = false :=
  rfl

end

/-- A turn counts the reply that is here, if there is one and it counts. -/
theorem Acts.gains (ha : Acts env run deadline s v t) (hnodup : s.numbers.Nodup)
    (hv : v ∈ s.workers) :
    ∃ h, t.past.reverse = s.past.reverse ++ h ∧ Gains s h t := by
  obtain ⟨l, r, hsplit, -, hput, hdrop⟩ := exists_split hnodup hv
  -- The lines that are written in the turn count for nothing.
  have hgains : ∀ (e : Entry) (lines : History), s.LinesNow lines →
      t.past = lines ++ e :: s.past → Gains s [e] t →
      ∃ h, t.past.reverse = s.past.reverse ++ h ∧ Gains s h t := by
    intro e lines hlines hpast hgains
    have hidle : History.NoWork lines.reverse := History.noWork_of_lines fun d hd =>
      (hlines d (List.mem_reverse.mp hd)).1
    exact ⟨[e] ++ lines.reverse, by simp [hpast], hgains.trans (.of_noWork hidle rfl rfl)⟩
  cases ha with
  | called hpausing _ hstats hworkers hpast =>
    have ht := hworkers.trans (hput _ rfl)
    refine hgains _ [] (by simp [LinesNow]) hpast (.of_turn [_] hsplit ht ?_ ?_ ?_ ?_)
    · exact .of_nothing rfl rfl (by rw [hstats])
    · simp [hstats, held, History.answers, Event.response?]
    · exact fun h => hstats ▸ h
    · simp [Worker.isPausing, hpausing, Event.isWorkCall, GroupRun.caller, Event.response?,
        Event.isFailure]
  | @responded since reply response lines hawaiting hreply _ hstats hworkers hlines hpast =>
    have ht := hworkers.trans (hput _ rfl)
    refine hgains _ lines hlines hpast (.of_turn [_] hsplit ht ?_ ?_ ?_ ?_)
    · rw [hstats]
      exact .of_response (by simp [hreply]) (by simp [hreply])
    · intro _ p
      rw [hstats, recordResponse_codes]
      by_cases hp : p response.status <;>
        simp [held, Histogram.weight_add, History.answers, hreply, hp, UInt64.add_assoc]
    · rw [hstats, recordResponse_codes]
      exact id
    · simp [Worker.isPausing, hawaiting, hreply]
  | @failed since reply f lines hawaiting hreply hmild hlive _ hstats hworkers hlines hpast =>
    have ht := hworkers.trans (hput _ rfl)
    refine hgains _ lines hlines hpast (.of_turn [_] hsplit ht ?_ ?_ ?_ ?_)
    · rw [hstats]
      exact .of_failure (by simp [hreply, hmild, hlive]) (by simp [hreply])
    · simp [hstats, held, History.answers, hreply]
    · rw [hstats]
      exact id
    · simp [Worker.isPausing, hawaiting, hreply, hmild, hlive]
  | @ended since reply f lines hawaiting hreply hends _ hstats hworkers hlines hpast =>
    have ht := hworkers.trans hdrop
    have hfailure : (answerOf run deadline s v since reply).event.isFailure = false := by
      simp only [answerOf_isFailure, hreply]
      cases hends with
      | inl hfatal => simp [hfatal]
      | inr hstopped => simp [Option.isNone_eq_false_iff, Option.isSome_iff_ne_none.mpr hstopped]
    refine hgains _ lines hlines hpast (.of_turn [] hsplit ht ?_ ?_ ?_ ?_)
    · exact .of_nothing (by simp [hreply]) (by simp [hfailure]) (by rw [hstats]; rfl)
    · simp [hstats, Statistics.mergeCodes, Histogram.weight_merge, held, History.answers, hreply]
    · rw [hstats]
      exact fun h => h.merge _
    · rw [History.failures_singleton, hfailure]
      simp [Worker.isPausing, hawaiting, hreply]
  | @panicked since reply text hawaiting hreply _ hstats hworkers hpast =>
    have ht := hworkers.trans hdrop
    refine hgains _ [] (by simp [LinesNow]) hpast (.of_turn [] hsplit ht ?_ ?_ ?_ ?_)
    · exact .of_nothing (by simp [hreply]) (by simp [hreply]) (by rw [hstats])
    · simp [hreply]
    · rw [hstats]
      exact id
    · simp [Worker.isPausing, hawaiting, hreply]

structure Ledger (run : GroupRun) (s₀ s : GroupState σ) : Prop where
  roster : Roster run s
  gains : Gains s₀ s.past.reverse s

theorem held_startOf (run : GroupRun) (w : World σ) (stats : Statistics) (p : Nat → Bool) :
    held p (startOf run w stats).workers = 0 := by
  have hall : ∀ l : List Nat, held p (l.map fun i => run.worker w.now (i + 1)) = 0 := by
    intro l
    induction l with
    | nil => rfl
    | cons i l ih => simpa [held, GroupRun.worker] using ih
  exact hall _

theorem ledger_start (run : GroupRun) (w : World σ) (stats : Statistics) :
    Ledger run (startOf run w stats) (startOf run w stats) where
  roster := roster_start run w stats
  gains := .of_noWork (History.noWork_of_lines
    (by simp [startOf, log, note, start, Event.isLine])) rfl rfl

theorem Ledger.advance {s₀ : GroupState σ} (hs : Ledger run s₀ s) (due : Instant) :
    Ledger run s₀ (s.advance run due) := by
  obtain ⟨h, hpast, hgains⟩ := gains_advance hs.roster.paced run due
  exact ⟨hs.roster.advance due, hpast ▸ hs.gains.trans hgains⟩

theorem Ledger.step (env : Environment σ) {s₀ : GroupState σ} (hs : Ledger run s₀ s)
    (h : s.settled? run deadline = none) : Ledger run s₀ (s.step env run deadline) := by
  obtain ⟨v, hv, -, -, hacts, -⟩ := step_cases env hs.roster.paced h
  have ht := hs.advance v.due
  have hv' : v ∈ (s.turnAt run v.due).workers := by
    rwa [← advance_workers hs.roster.paced run v.due] at hv
  obtain ⟨new, hpast, hgains⟩ := hacts.gains ht.roster.nodup hv'
  have hturn : Gains s₀ (s.turnAt run v.due).past.reverse (s.turnAt run v.due) :=
    ⟨ht.gains.counts, ht.gains.codes, ht.gains.ascending, ht.gains.calls⟩
  exact ⟨hs.roster.step env h, hpast ▸ hturn.trans hgains⟩

end GroupState

/-- The statistics `s` with the replies and statuses of a history counted. -/
structure Statistics.Tallies (s : Statistics) (h : History) (t : Statistics) : Prop where
  counts : s.Counts h t
  codes : h.breaksDown = false → ∀ p, t.codes.weight p = s.codes.weight p + .ofNat (h.answers p)
  ascending : s.codes.Ascending → t.codes.Ascending

namespace Statistics.Tallies

variable {s t u : Statistics} {h h' : History}

theorem trans (hst : Tallies s h t) (htu : Tallies t h' u) : Tallies s (h ++ h') u where
  counts := hst.counts.trans htu.counts
  codes := History.weigh_trans hst.codes htu.codes
  ascending := htu.ascending ∘ hst.ascending

theorem of_noWork (s : Statistics) (hh : h.NoWork) : Tallies s h s where
  counts := .of_noWork hh rfl
  codes := by simp [History.answers, hh.responses]
  ascending := id

end Statistics.Tallies

namespace GroupState

variable {σ : Type} {s : GroupState σ}

theorem mergeAll (workers : List Worker) (st : Statistics) :
    (workers.foldl (fun st v => st.mergeCodes v.codes) st).counters = st.counters ∧
      (∀ p, (workers.foldl (fun st v => st.mergeCodes v.codes) st).codes.weight p =
        st.codes.weight p + held p workers) ∧
      (st.codes.Ascending →
        (workers.foldl (fun st v => st.mergeCodes v.codes) st).codes.Ascending) := by
  induction workers generalizing st with
  | nil => exact ⟨rfl, by simp [held], id⟩
  | cons v workers ih =>
    obtain ⟨hcounters, hcodes, hascending⟩ := ih (st.mergeCodes v.codes)
    refine ⟨hcounters, ?_, fun h => hascending (h.merge _)⟩
    intro p
    rw [List.foldl_cons, hcodes, held_cons, Statistics.mergeCodes, Histogram.weight_merge,
      UInt64.add_assoc]

theorem Ledger.tallies {run : GroupRun} {s₀ : GroupState σ} (hs : Ledger run s₀ s)
    (hstart : ∀ p, held p s₀.workers = 0) :
    s₀.stats.Tallies s.past.reverse s.retireAll.stats := by
  obtain ⟨hcounters, hcodes, hascending⟩ := mergeAll s.workers s.stats
  have hcounts := hs.gains.counts
  refine ⟨⟨?_, ?_, ?_⟩, ?_, fun h => hascending (hs.gains.ascending h)⟩
  · exact (congrArg Snapshot.requests hcounters).trans hcounts.requests
  · exact (congrArg Snapshot.errors hcounters).trans hcounts.errors
  · exact (congrArg Snapshot.micros hcounters).trans hcounts.micros
  · intro hbreaks p
    have hweight := hs.gains.codes hbreaks p
    rw [weight, weight, hstart, UInt64.add_zero] at hweight
    exact (hcodes p).trans hweight

end GroupState

namespace GroupRun

variable {σ : Type} {env : Environment σ} {turns : Nat} {run : GroupRun} {outer : Option Instant}
  {w : World σ} {stats : Statistics} {out : GroupOutcome σ}

open GroupState

/-- What a group adds to the statistics is what is in its history; each worker makes at most one
call that is not counted. -/
theorem perform_tallies (h : run.perform env turns outer w stats = some out) :
    stats.Tallies out.history out.stats ∧
      out.history.workCalls ≤
        out.history.responses.length + out.history.failures + run.instances := by
  obtain ⟨u, lines, hu, hhistory, hlines, hstats⟩ :=
    perform_induction (P := Ledger run (startOf run w stats)) (ledger_start run w stats)
      (fun _ hs hn => hs.step env hn) (fun _ due hs => hs.advance due) h
  have hidle : lines.NoWork := History.noWork_of_lines hlines
  have hpausing : (startOf run w stats).pausing = run.instances := by
    simp [pausing, startOf, log, note, start, GroupRun.worker, Worker.isPausing, List.countP_map,
      Function.comp_def]
  have hcalls := hu.gains.calls
  rw [hhistory, hstats]
  refine ⟨(hu.tallies (held_startOf run w stats)).trans (.of_noWork _ hidle), ?_⟩
  simp only [History.workCalls_append, History.responses_append, History.failures_append,
    hidle.workCalls, hidle.responses, hidle.failures, List.length_append, List.length_nil]
  omega

end GroupRun

end PhasedLoad
