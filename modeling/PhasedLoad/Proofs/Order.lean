import PhasedLoad.Proofs.Completion

/-! The order in which a run executes the phases of its plan: that in which its selector picks them
when nothing stops the run. -/

namespace PhasedLoad

namespace Selector

variable {s s' : Selector} {r : Repeats} {current : Nat} {e : Executions}

/-- The phases that are picked from a phase on, until none has repeats left. -/
def coming (s : Selector) (r : Repeats) (current : Nat) (e : Executions) : List Nat :=
  (drain r (r.remaining e) s current e).1

theorem coming_of_none (h : (s.nextPhase current r e).1 = none) : s.coming r current e = [] := by
  unfold coming
  cases r.remaining e with
  | zero => rfl
  | succ turns =>
    rw [drain]
    generalize s.nextPhase current r e = next at h
    obtain ⟨i, s'⟩ := next
    cases h
    rfl

theorem coming_of_some {i : Nat} (h : s.nextPhase current r e = (some i, s')) :
    s.coming r current e = i :: s'.coming r i (e.record i) := by
  have hremaining := Repeats.remaining_record (hasBudget_of_nextPhase h)
  rw [coming, ← hremaining, drain, h]
  rfl

end Selector

namespace RunState

variable {σ : Type} {env : Environment σ} {turns : Nat} {c : Campaign} {deadline : Option Instant}
  {s t : RunState σ}

theorem next_eq_nextPhase (c : Campaign) (s : RunState σ) :
    s.next c = s.selector.nextPhase s.current c.repeats s.executions := by
  unfold next
  split
  · rfl
  · next hkeeps =>
    cases hs : s.selector <;> simp [Selector.shouldAdvance, hs] at hkeeps
    have hlt := Repeats.lt_length_of_hasBudget hkeeps
    have hdrop : (List.range s.executions.length).drop s.current =
        s.current :: (List.range s.executions.length).drop (s.current + 1) := by
      rw [List.drop_eq_getElem_cons (by simpa using hlt), List.getElem_range]
    simp [Selector.nextPhase, hdrop, hkeeps]

/-- The phases that a run executes from a state on if nothing stops it. -/
def course (c : Campaign) (s : RunState σ) : List Nat :=
  s.current :: s.selector.coming c.repeats s.current (s.executions.record s.current)

theorem Due.course_of_next (h : Due c s) (hround : s.round env turns c deadline = some (.next t)) :
    s.course c = s.current :: t.course c ∧ ∃ x, t.past = x :: s.past ∧ x.phase = s.current := by
  generalize hr : Round.next t = r at hround
  cases h.proceeds hround with
  | @turned x world _ hexecute _ =>
    have hx := (Campaign.place_of_execute hexecute x rfl).1
    unfold turn at hr
    split at hr
    · cases hr
    · next i selector hnext =>
      cases hr
      rw [next_eq_nextPhase] at hnext
      exact ⟨congrArg _ (Selector.coming_of_some hnext), x, rfl, hx⟩
  | _ => cases hr

theorem Due.course_of_completed (h : Due c s)
    (hround : s.round env turns c deadline = some (.last .completed t)) :
    s.course c = [s.current] ∧ ∃ x, t.past = x :: s.past ∧ x.phase = s.current := by
  generalize hr : Round.last .completed t = r at hround
  cases h.proceeds hround with
  | @concluded x world conclusion _ _ hx =>
    cases hr
    rcases concludedBy_cases hx with ⟨f, -, hf⟩ | ⟨-, -, hcanceled⟩
    · cases hf
    · cases hcanceled
  | @turned x world _ hexecute _ =>
    have hx := (Campaign.place_of_execute hexecute x rfl).1
    unfold turn at hr
    split at hr
    · next selector hnext =>
      cases hr
      rw [next_eq_nextPhase] at hnext
      exact ⟨congrArg _ (Selector.coming_of_none (congrArg Prod.fst hnext)), x, rfl, hx⟩
    · cases hr
  | _ => cases hr

theorem Due.past_of_last (h : Due c s) {conclusion : Conclusion}
    (hround : s.round env turns c deadline = some (.last conclusion t)) :
    t.past = s.past ∨ ∃ x, t.past = x :: s.past ∧ x.phase = s.current := by
  obtain ⟨rfl, -⟩ | ⟨-, result, hexecute, ⟨text, -, -, hpast⟩ | ⟨x, rfl, hpast, -⟩⟩ :=
    (h.proceeds hround).last_cases
  · exact .inl rfl
  · exact .inl hpast
  · exact .inr ⟨x, hpast, (Campaign.place_of_execute hexecute x rfl).1⟩

def phases (s : RunState σ) : List Nat := s.past.reverse.map (·.phase)

theorem phases_of_past {x : Execution} {i : Nat} (hpast : t.past = x :: s.past)
    (hx : x.phase = i) : t.phases = s.phases ++ [i] := by
  simp [phases, hpast, hx]

/-- What a run has executed and what it would go on with are its course from the start. -/
theorem Due.course_eq (h : Due c s) (ht : Reaches env turns c deadline s t) (hs : s.past = []) :
    s.course c = t.phases ++ t.course c := by
  induction ht with
  | refl => simp [phases, hs]
  | @next t u ht hround ih =>
    obtain ⟨hcourse, x, hpast, hx⟩ := (h.reaches ht).course_of_next hround
    rw [ih, hcourse, phases_of_past hpast hx, List.append_assoc, List.singleton_append]

end RunState

namespace Campaign

open RunState

variable {σ : Type} {c : Campaign}

/-- The executions of a run follow the course of its selector: those that start are a first part of
it, and all of it if the run is complete. -/
theorem run_follows_course (hphases : c.plan.phases ≠ []) (env : Environment σ) (turns : Nat)
    (selector : Selector) (outer : Option Instant) (w : World σ) :
    (∀ s i, Reaches env turns c (c.deadline outer w) (start c selector w) s →
      s.Starts c (c.deadline outer w) i →
      s.phases ++ [i] <+: (start c selector w).course c) ∧
    ∀ o, c.run env turns selector outer w = some o →
      o.executions.map (·.phase) <+: (start c selector w).course c ∧
      ∀ report, o.ending = .finished report → report.ending = .completed →
        o.executions.map (·.phase) = (start c selector w).course c := by
  have hstart : Due c (start c selector w) := due_start_of_phases hphases selector w
  refine ⟨?_, ?_⟩
  · intro s i hs hi
    have hpick := hi.2
    rw [(hstart.reaches hs).pick_eq] at hpick
    cases hpick
    rw [hstart.course_eq hs rfl, course]
    exact List.prefix_append_right_inj _ |>.mpr (List.prefix_append [s.current] _)
  · intro o hrun
    obtain ⟨s, conclusion, t, hs, hlast, rfl⟩ := run_eq_some hrun
    have hdue := hstart.reaches hs
    rw [hstart.course_eq hs rfl]
    refine ⟨?_, ?_⟩
    · change t.phases <+: _
      obtain hpast | ⟨x, hpast, hx⟩ := hdue.past_of_last hlast
      · rw [phases, hpast]
        exact List.prefix_append _ _
      · rw [phases_of_past hpast hx, course]
        exact List.prefix_append_right_inj _ |>.mpr (List.prefix_append [s.current] _)
    · intro report hreport hending
      change t.phases = _
      obtain ⟨-, -, ⟨rfl, -⟩ | ⟨-, htimedOut⟩⟩ := conclude_eq_finished hreport
      · obtain ⟨hcourse, x, hpast, hx⟩ := hdue.course_of_completed hlast
        rw [hcourse, phases_of_past hpast hx]
      · rw [hending] at htimedOut
        cases htimedOut

end Campaign

end PhasedLoad
