import PhasedLoad.Proofs.Group.Moves

/-! What each worker does: it calls again only after a reply that was counted, so that a call which
is not counted is its last. -/

namespace PhasedLoad

namespace History

variable {who : Caller} {h h' : History} {e : Entry}

def trace (who : Caller) (h : History) : List Event :=
  (h.map (·.event)).filter fun event => event.who? = some who

theorem trace_eq (who : Caller) (h : History) :
    trace who h = (timeline who h).map (·.event) := by
  simp [trace, timeline, List.filter_map, Function.comp_def]

@[simp] theorem trace_append (who : Caller) (h h' : History) :
    trace who (h ++ h') = trace who h ++ trace who h' := by
  simp [trace]

theorem trace_eq_nil (hh : ∀ e ∈ h, e.event.who? ≠ some who) : trace who h = [] := by
  simp only [trace, List.filter_eq_nil_iff, List.forall_mem_map]
  exact fun e he => by simpa using hh e he

theorem trace_of_lines (hh : ∀ e ∈ h, e.event.isLine = true) : trace who h = [] :=
  trace_eq_nil fun e he => by simp [Event.who?_of_isLine (hh e he)]

theorem NoWork.trace (hh : NoWork h) (group number : Nat) : trace (.worker group number) h = [] := by
  refine trace_eq_nil fun e he hwho => ?_
  have hwork := hh e he
  cases hevent : e.event <;> simp_all [Event.who?, Event.isWork]

end History

/-- Calls that were all counted. -/
inductive Idle (who : Caller) : List Event → Prop
  | nil : Idle who []
  | snoc {t : List Event} {call : Call} {event : Event} (idle : Idle who t)
      (counted : event.isCounted = true) : Idle who (t ++ [.called who call, event])

/-- Calls of which all but the last were counted. -/
inductive Served (who : Caller) : List Event → Prop
  | idle {t : List Event} (idle : Idle who t) : Served who t
  /-- No reply comes to the last call. -/
  | cut {t : List Event} (call : Call) (idle : Idle who t) : Served who (t ++ [.called who call])
  /-- The reply to the last call is not counted. -/
  | ended {t : List Event} (call : Call) {event : Event} (idle : Idle who t)
      (uncounted : event.isCounted = false) : Served who (t ++ [.called who call, event])

def Worker.Did (who : Caller) (v : Worker) (t : List Event) : Prop :=
  match v.activity with
  | .pausing => Idle who t
  | .awaiting _ _ => ∃ t' call, Idle who t' ∧ t = t' ++ [.called who call]

theorem Worker.Did.served {who : Caller} {v : Worker} {t : List Event} (h : v.Did who t) :
    Served who t := by
  unfold Worker.Did at h
  split at h
  · exact .idle h
  · obtain ⟨t', call, hidle, rfl⟩ := h
    exact .cut call hidle

namespace GroupState

variable {σ : Type} {env : Environment σ} {run : GroupRun} {deadline : Option Instant}
  {s t : GroupState σ} {v : Worker} {v' : Option Worker} {e : Entry}

def Traced (run : GroupRun) (s : GroupState σ) : Prop :=
  Told run (fun v h => v.Did (run.caller v) (h.map (·.event)))
    (fun who h => Served who (h.map (·.event))) s

theorem traced_start (run : GroupRun) (w : World σ) (stats : Statistics) :
    Traced run (startOf run w stats) := told_start stats fun _ => .nil

theorem Traced.turn (hs : Traced run s) (ht : Turn env run deadline s t v e v') : Traced run t := by
  have hdid : v.Did (run.caller v) _ := hs.stands v ht.mem
  unfold Worker.Did at hdid
  refine Told.turn hs ht ?_ ?_
  all_goals
    have hmoves := ht.moves
    rw [List.map_append]
  · intro u hu
    cases hmoves with
    | calls hpausing =>
      cases hu
      rw [hpausing] at hdid
      exact ⟨_, _, hdid, rfl⟩
    | goesOn codes hawaiting hcounted =>
      cases hu
      rw [hawaiting] at hdid
      obtain ⟨t', call, hidle, htrace⟩ := hdid
      rw [htrace, List.append_assoc]
      exact .snoc hidle hcounted
    | ends => cases hu
  · intro hnone
    subst hnone
    cases hmoves with
    | ends hawaiting huncounted =>
      rw [hawaiting] at hdid
      obtain ⟨t', call, hidle, htrace⟩ := hdid
      rw [htrace, List.append_assoc]
      exact .ended call hidle huncounted

theorem Traced.all_served (hs : Traced run s) {number : Nat} (hhas : run.Has number) :
    Served (.worker run.name.group number)
      (History.trace (.worker run.name.group number) s.past.reverse) := by
  rw [History.trace_eq]
  by_cases hnumber : number ∈ s.numbers
  · obtain ⟨v, hv, rfl⟩ := List.mem_map.mp hnumber
    exact (hs.stands v hv).served
  · exact hs.ended number hhas hnumber

end GroupState

namespace GroupRun

variable {σ : Type} {env : Environment σ} {turns : Nat} {run : GroupRun} {outer : Option Instant}
  {w : World σ} {stats : Statistics} {out : GroupOutcome σ}

open GroupState

theorem perform_trace_eq_nil (h : run.perform env turns outer w stats = some out) {who : Caller}
    (hwho : ∀ number, run.Has number → who ≠ .worker run.name.group number) :
    History.trace who out.history = [] := by
  refine History.trace_eq_nil fun e he => ?_
  rcases perform_owns h e he with hline | ⟨number, hhas, hcalled | ⟨took, reply, stopped, hanswered⟩⟩
  · simp [Event.who?_of_isLine hline]
  · simpa [hcalled, Event.who?] using (hwho number hhas).symm
  · simpa [hanswered, Event.who?] using (hwho number hhas).symm

theorem perform_served (h : run.perform env turns outer w stats = some out) (number : Nat) :
    Served (.worker run.name.group number)
      (History.trace (.worker run.name.group number) out.history) := by
  by_cases hhas : run.Has number
  · obtain ⟨s, -, hs, hends⟩ := perform_settles (P := Traced run) (traced_start run w stats)
      (fun _ _ _ _ _ _ hs ht => hs.turn ht) h
    obtain ⟨lines, hhistory, hlines⟩ := hends.history
    rw [hhistory, History.trace_append, History.trace_of_lines hlines, List.append_nil]
    exact hs.all_served hhas
  · have hnone : ∀ k, run.Has k → (.worker run.name.group number : Caller) ≠
        .worker run.name.group k := by
      rintro k hk heq
      cases heq
      exact hhas hk
    rw [perform_trace_eq_nil h hnone]
    exact .idle .nil

end GroupRun

end PhasedLoad
