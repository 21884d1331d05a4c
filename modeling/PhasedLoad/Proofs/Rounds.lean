import PhasedLoad.Proofs.Ready
import PhasedLoad.Proofs.Repeats
import PhasedLoad.Run.Basic

/-! The rounds of a run. Between two rounds the phase whose turn it is has repeats left, so a run
picks it at once, and a run that is complete has used up every repeat. -/

namespace PhasedLoad

theorem Campaign.place_of_execute {σ : Type} {env : Environment σ} {turns : Nat} {c : Campaign}
    {i number : Nat} {outer : Option Instant} {w after : World σ} {result : ExecutionResult}
    (h : c.execute env turns i number outer w = some (result, after)) :
    ∀ x ∈ result.execution?, x.phase = i ∧ x.number = number := by
  unfold execute at h
  dsimp only at h
  split at h
  · cases h
    simp [ExecutionResult.execution?]
  · obtain ⟨work, -, h⟩ := Option.bind_eq_some_iff.mp h
    split at h
    all_goals
      cases h
      simp [ExecutionResult.execution?, assemble]

namespace RunState

variable {σ : Type} {env : Environment σ} {turns : Nat} {c : Campaign}
  {deadline : Option Instant}

/-- The states between rounds that a run comes to from another one. -/
inductive Reaches (env : Environment σ) (turns : Nat) (c : Campaign) (deadline : Option Instant) :
    RunState σ → RunState σ → Prop
  | refl (s : RunState σ) : Reaches env turns c deadline s s
  | next {s t u : RunState σ} : Reaches env turns c deadline s t →
      t.round env turns c deadline = some (.next u) → Reaches env turns c deadline s u

def Starts (c : Campaign) (deadline : Option Instant) (s : RunState σ) (i : Nat) : Prop :=
  s.world.stopReason deadline = none ∧ (s.pick c).1 = some i

theorem Reaches.head {s t u : RunState σ} (h : s.round env turns c deadline = some (.next t))
    (hu : Reaches env turns c deadline t u) : Reaches env turns c deadline s u := by
  induction hu with
  | refl => exact .next (.refl s) h
  | next _ hround ih => exact .next ih hround

theorem play_eq_some_iff {s t : RunState σ} {conclusion : Conclusion} :
    s.play env turns c deadline = some (conclusion, t) ↔
      ∃ u, Reaches env turns c deadline s u ∧
        u.round env turns c deadline = some (.last conclusion t) := by
  constructor
  · intro h
    fun_induction play env turns c deadline s with
    | case1 => cases h
    | case2 s conclusion' t' hround => cases h; exact ⟨s, .refl s, hround⟩
    | case3 s t' hround ih =>
      obtain ⟨u, hu, hlast⟩ := ih h
      exact ⟨u, hu.head hround, hlast⟩
  · rintro ⟨u, hu, hlast⟩
    have hplay : s.play env turns c deadline = u.play env turns c deadline := by
      clear hlast
      induction hu with
      | refl => rfl
      | next _ hround ih => rw [ih, play, hround]
    rw [hplay, play, hlast]

theorem exists_round_eq_none {s : RunState σ} (h : s.play env turns c deadline = none) :
    ∃ u, Reaches env turns c deadline s u ∧ u.round env turns c deadline = none := by
  fun_induction play env turns c deadline s with
  | case1 s hround => exact ⟨s, .refl s, hround⟩
  | case2 => cases h
  | case3 s t hround ih =>
    obtain ⟨u, hu, hnone⟩ := ih h
    exact ⟨u, hu.head hround, hnone⟩

theorem round_cases {s : RunState σ} {r : Round σ} (h : s.round env turns c deadline = some r) :
    (s.world.stopReason deadline = some .canceled ∧ r = .last .canceled s) ∨
    (s.world.stopReason deadline = some .deadlineExceeded ∧ r = .last .timedOut s) ∨
    (∃ selector, s.pick c = (none, selector) ∧
      r = .last .completed { s with selector := selector }) ∨
    ∃ i selector result world, s.Starts c deadline i ∧ s.pick c = (some i, selector) ∧
      c.execute env turns i (s.executions.getD i 0 + 1) deadline s.world = some (result, world) ∧
      r = s.follow c i selector world result := by
  unfold round at h
  split at h
  · next hstop => exact .inl ⟨hstop, by simpa using h.symm⟩
  · next hstop => exact .inr (.inl ⟨hstop, by simpa using h.symm⟩)
  · next hstop =>
    split at h
    · next selector hpick => exact .inr (.inr (.inl ⟨selector, hpick, by simpa using h.symm⟩))
    · next i selector hpick =>
      simp only [Option.bind_eq_bind, Option.bind_eq_some_iff, Option.some.injEq] at h
      obtain ⟨⟨result, world⟩, hexecute, hr⟩ := h
      exact .inr (.inr (.inr ⟨i, selector, result, world, ⟨hstop, by rw [hpick]⟩, hpick, hexecute,
        hr.symm⟩))

/-- A round in which an execution starts goes on from what comes of it. -/
theorem round_of_execute {s : RunState σ} {i : Nat} {result : ExecutionResult} {world : World σ}
    (hi : s.Starts c deadline i)
    (h : c.execute env turns i (s.executions.getD i 0 + 1) deadline s.world =
      some (result, world)) :
    s.round env turns c deadline = some (s.follow c i (s.pick c).2 world result) := by
  obtain ⟨hstop, hpick⟩ := hi
  unfold round
  simp only [hstop]
  split
  · next selector hnone =>
    rw [hnone] at hpick
    cases hpick
  · next j selector hsome =>
    rw [hsome] at hpick ⊢
    cases hpick
    rw [h]
    rfl

theorem starts_of_round_eq_none {s : RunState σ} (h : s.round env turns c deadline = none) :
    ∃ i, s.Starts c deadline i ∧
      c.execute env turns i (s.executions.getD i 0 + 1) deadline s.world = none := by
  unfold round at h
  split at h
  · cases h
  · cases h
  · next hstop =>
    split at h
    · cases h
    · next i selector hpick =>
      refine ⟨i, ⟨hstop, by rw [hpick]⟩, ?_⟩
      cases hexecute : c.execute env turns i (s.executions.getD i 0 + 1) deadline s.world with
      | none => rfl
      | some p => rw [hexecute] at h; cases h

theorem concludedBy_cases {x : Execution} {conclusion : Conclusion}
    (h : concludedBy x = some conclusion) :
    (∃ f, x.setupFault = some f ∧ conclusion = .setupFailed x.phase f) ∨
      x.setupFault = none ∧ x.summary.ending = .canceled ∧ conclusion = .canceled := by
  unfold concludedBy at h
  split at h
  · next f hf => exact .inl ⟨f, hf, by simpa using h.symm⟩
  · next hf =>
    split at h
    · next hending => exact .inr ⟨hf, hending, by simpa using h.symm⟩
    · cases h

structure Counted (c : Campaign) (s : RunState σ) : Prop where
  length : s.executions.length = c.phaseCount
  within : c.repeats.Within s.executions
  counted : s.past.length + c.repeats.remaining s.executions = c.executions
  counts : ∀ j, s.executions.getD j 0 = s.past.countP (·.phase = j)
  /-- In sequence, earlier phases are used up. -/
  passed : s.selector = .sequence → ∀ j < s.current, c.repeats.hasBudget s.executions j = false

/-- What holds between rounds: the phase whose turn it is has repeats left. -/
structure Due (c : Campaign) (s : RunState σ) : Prop extends Counted c s where
  due : c.repeats.hasBudget s.executions s.current = true

theorem due_start_of_phases (hphases : c.plan.phases ≠ []) (selector : Selector)
    (world : World σ) : Due c (start c selector world) where
  length := List.length_replicate
  within := Repeats.within_replicate _ _
  counted := by simp [start, Repeats.remaining_replicate, Campaign.executions]
  counts := by
    intro j
    by_cases hj : j < c.phaseCount <;> simp [start, List.getD_eq_getElem?_getD, hj]
  passed := by intro _ j hj; simp [start] at hj
  due := Repeats.hasBudget_replicate (List.length_pos_iff.mpr hphases)

theorem due_start (hc : c.Ready) (selector : Selector) (world : World σ) :
    Due c (start c selector world) :=
  due_start_of_phases hc.phases_ne_nil selector world

theorem Due.pick_eq {s : RunState σ} (h : Due c s) : s.pick c = (some s.current, s.selector) := by
  simp [pick, h.due]

theorem Due.record {s : RunState σ} (h : Due c s) {x : Execution} (hx : x.phase = s.current)
    (world : World σ) : Counted c (s.record s.current x s.selector world) where
  length := by simpa [RunState.record, Executions.record] using h.length
  within := h.within.record h.due
  counted := by
    have hrecord := Repeats.remaining_record h.due
    have hcounted := h.counted
    simp only [RunState.record, List.length_cons]
    omega
  counts := by
    intro j
    have hlt := Repeats.lt_length_of_hasBudget h.due
    have hcounts := h.counts j
    by_cases hj : s.current = j
    · subst hj
      simpa [RunState.record, Executions.record, hx, List.getD_eq_getElem?_getD, hlt] using hcounts
    · simpa [RunState.record, Executions.record, hx, List.getD_eq_getElem?_getD, hj] using hcounts
  passed := by
    intro hs j hj
    have hne : s.current ≠ j := Nat.ne_of_gt hj
    exact (Repeats.hasBudget_record_of_ne hne).trans (h.passed hs j hj)

theorem Counted.next_eq_none {s : RunState σ} (h : Counted c s) (hnext : (s.next c).1 = none)
    (i : Nat) : c.repeats.hasBudget s.executions i = false := by
  unfold next at hnext
  split at hnext
  · exact Selector.hasBudget_of_nextPhase_none hnext h.passed i
  · cases hnext

theorem hasBudget_of_next {s : RunState σ} {i : Nat} {selector : Selector}
    (h : s.next c = (some i, selector)) : c.repeats.hasBudget s.executions i = true := by
  unfold next at h
  split at h
  · exact Selector.hasBudget_of_nextPhase h
  · next hadvance =>
    cases h
    cases hs : s.selector <;> simp [Selector.shouldAdvance, hs] at hadvance
    exact hadvance

theorem Counted.passed_of_next {s : RunState σ} {i : Nat} {selector : Selector} (h : Counted c s)
    (hnext : s.next c = (some i, selector)) (hs : selector = .sequence) :
    ∀ j < i, c.repeats.hasBudget s.executions j = false := by
  intro j hj
  unfold next at hnext
  split at hnext
  · have hsequence : s.selector = .sequence := by
      apply Selector.eq_sequence_of_nextPhase
      rw [hnext, hs]
    by_cases hcurrent : s.current ≤ j
    · rw [hsequence] at hnext
      exact Selector.passed_of_nextPhase (by rw [hnext]) hcurrent hj
    · exact h.passed hsequence j (by omega)
  · cases hnext
    exact h.passed hs j hj

theorem Counted.turn {s : RunState σ} (h : Counted c s) :
    (∃ t, s.turn c = .next t ∧ Due c t) ∨
      ∃ t, s.turn c = .last .completed t ∧ t.executions = s.executions ∧ t.past = s.past ∧
        ∀ i, c.repeats.hasBudget s.executions i = false := by
  unfold RunState.turn
  split
  · next selector hnext =>
    exact .inr ⟨_, rfl, rfl, rfl, h.next_eq_none (by rw [hnext])⟩
  · next i selector hnext =>
    exact .inl ⟨_, rfl,
      { length := h.length
        within := h.within
        counted := h.counted
        counts := h.counts
        passed := h.passed_of_next hnext
        due := (hasBudget_of_next hnext : c.repeats.hasBudget s.executions i = true) }⟩

/-- The ways a round goes in which the current phase is due. -/
inductive Proceeds (env : Environment σ) (turns : Nat) (c : Campaign) (deadline : Option Instant)
    (s : RunState σ) : Round σ → Prop
  | canceled (stopped : s.world.stopReason deadline = some .canceled) :
      Proceeds env turns c deadline s (.last .canceled s)
  | timedOut (stopped : s.world.stopReason deadline = some .deadlineExceeded) :
      Proceeds env turns c deadline s (.last .timedOut s)
  /-- The setup or the teardown breaks the run down. -/
  | panicked {text : String} {result : ExecutionResult} {world : World σ}
      (starts : s.Starts c deadline s.current)
      (executed : c.execute env turns s.current (s.executions.getD s.current 0 + 1) deadline
        s.world = some (result, world))
      (breaks : result.panic? = some text) :
      Proceeds env turns c deadline s (.last (.panicked text result.history) { s with world := world })
  | concluded {x : Execution} {world : World σ} {conclusion : Conclusion}
      (starts : s.Starts c deadline s.current)
      (executed : c.execute env turns s.current (s.executions.getD s.current 0 + 1) deadline
        s.world = some (.done x, world))
      (concludes : concludedBy x = some conclusion) :
      Proceeds env turns c deadline s
        (.last conclusion (s.record s.current x s.selector world))
  | turned {x : Execution} {world : World σ}
      (starts : s.Starts c deadline s.current)
      (executed : c.execute env turns s.current (s.executions.getD s.current 0 + 1) deadline
        s.world = some (.done x, world))
      (continues : concludedBy x = none) :
      Proceeds env turns c deadline s ((s.record s.current x s.selector world).turn c)

theorem Due.proceeds {s : RunState σ} {r : Round σ} (h : Due c s)
    (hround : s.round env turns c deadline = some r) : Proceeds env turns c deadline s r := by
  rcases round_cases hround with ⟨hstop, rfl⟩ | ⟨hstop, rfl⟩ | ⟨selector, hpick, -⟩ |
    ⟨i, selector, result, world, hstarts, hpick, hexecute, rfl⟩
  · exact .canceled hstop
  · exact .timedOut hstop
  · rw [h.pick_eq] at hpick
    cases hpick
  · rw [h.pick_eq] at hpick
    cases hpick
    cases result with
    | done x =>
      simp only [follow]
      split
      · next conclusion hx => exact .concluded hstarts hexecute hx
      · next hx => exact .turned hstarts hexecute hx
    | setupPanicked text history => exact .panicked hstarts hexecute rfl
    | teardownPanicked text x => exact .panicked hstarts hexecute rfl

theorem Due.next {s t : RunState σ} (h : Due c s)
    (hround : s.round env turns c deadline = some (.next t)) : Due c t := by
  generalize hr : Round.next t = r at hround
  cases h.proceeds hround with
  | @turned x world _ hexecute _ =>
    have hx := (Campaign.place_of_execute hexecute x rfl).1
    obtain ⟨u, hturn, hdue⟩ | ⟨u, hturn, -⟩ := (h.record hx world).turn
    · rw [hturn] at hr
      cases hr
      exact hdue
    · rw [hturn] at hr
      cases hr
  | _ => cases hr

theorem Due.reaches {s t : RunState σ} (h : Due c s) (ht : Reaches env turns c deadline s t) :
    Due c t := by
  induction ht with
  | refl => exact h
  | next _ hround ih => exact ih.next hround

theorem turn_cases (c : Campaign) (s : RunState σ) :
    (∃ current selector,
      s.turn c = .next { s with selector := selector, current := current }) ∨
      ∃ selector, s.turn c = .last .completed { s with selector := selector } := by
  unfold RunState.turn
  split
  · exact .inr ⟨_, rfl⟩
  · exact .inl ⟨_, _, rfl⟩

theorem Proceeds.next_cases {s t : RunState σ} (h : Proceeds env turns c deadline s (.next t)) :
    s.Starts c deadline s.current ∧ ∃ x,
      c.execute env turns s.current (s.executions.getD s.current 0 + 1) deadline s.world =
        some (.done x, t.world) ∧
      t.past = x :: s.past := by
  generalize hr : Round.next t = r at h
  cases h with
  | @turned x world hstarts hexecute _ =>
    obtain ⟨current, selector, hturn⟩ | ⟨selector, hturn⟩ :=
      turn_cases c (s.record s.current x s.selector world)
    · rw [hturn] at hr
      cases hr
      exact ⟨hstarts, x, hexecute, rfl⟩
    · rw [hturn] at hr
      cases hr
  | _ => cases hr

/-- The last round executes nothing, breaks down in an execution, or adds one to the past. -/
theorem Proceeds.last_cases {s t : RunState σ} {conclusion : Conclusion}
    (h : Proceeds env turns c deadline s (.last conclusion t)) :
    t = s ∧ (conclusion = .canceled ∨ conclusion = .timedOut) ∨
    s.Starts c deadline s.current ∧ ∃ result,
      c.execute env turns s.current (s.executions.getD s.current 0 + 1) deadline s.world =
        some (result, t.world) ∧
      ((∃ text, result.panic? = some text ∧ conclusion = .panicked text result.history ∧
          t.past = s.past) ∨
        ∃ x, result = .done x ∧ t.past = x :: s.past ∧
          (conclusion = .completed ∨ concludedBy x = some conclusion)) := by
  generalize hr : Round.last conclusion t = r at h
  cases h with
  | canceled _ => cases hr; exact .inl ⟨rfl, .inl rfl⟩
  | timedOut _ => cases hr; exact .inl ⟨rfl, .inr rfl⟩
  | @panicked text result world hstarts hexecute hbreaks =>
    cases hr
    exact .inr ⟨hstarts, result, hexecute, .inl ⟨text, hbreaks, rfl, rfl⟩⟩
  | @concluded x world conclusion hstarts hexecute hconcludes =>
    cases hr
    exact .inr ⟨hstarts, _, hexecute, .inr ⟨x, rfl, rfl, .inr hconcludes⟩⟩
  | @turned x world hstarts hexecute _ =>
    obtain ⟨current, selector, hturn⟩ | ⟨selector, hturn⟩ :=
      turn_cases c (s.record s.current x s.selector world)
    · rw [hturn] at hr
      cases hr
    · rw [hturn] at hr
      cases hr
      exact .inr ⟨hstarts, _, hexecute, .inr ⟨x, rfl, rfl, .inl rfl⟩⟩

/-- A run that is complete has used up every repeat. -/
theorem Due.completed {s t : RunState σ} (h : Due c s)
    (hround : s.round env turns c deadline = some (.last .completed t)) :
    t.executions = (List.range c.phaseCount).map c.repeats.count := by
  generalize hr : Round.last .completed t = r at hround
  cases h.proceeds hround with
  | @concluded x world conclusion _ _ hx =>
    cases hr
    rcases concludedBy_cases hx with ⟨f, -, hf⟩ | ⟨-, -, hcanceled⟩
    · cases hf
    · cases hcanceled
  | @turned x world _ hexecute _ =>
    have hrecord := h.record (Campaign.place_of_execute hexecute x rfl).1 world
    obtain ⟨u, hturn, -⟩ | ⟨u, hturn, hexecutions, -, hnone⟩ := hrecord.turn
    · rw [hturn] at hr
      cases hr
    · rw [hturn] at hr
      cases hr
      rw [hexecutions, hrecord.within.eq_map_count hnone, hrecord.length]
  | _ => cases hr

/-- A run that times out does so at its deadline, with repeats left. -/
theorem Due.timedOut {s t : RunState σ} (h : Due c s)
    (hround : s.round env turns c deadline = some (.last .timedOut t)) :
    t = s ∧ s.world.stopReason deadline = some .deadlineExceeded := by
  generalize hr : Round.last .timedOut t = r at hround
  cases h.proceeds hround with
  | timedOut hstop =>
    cases hr
    exact ⟨rfl, hstop⟩
  | @concluded x world conclusion _ _ hx =>
    cases hr
    rcases concludedBy_cases hx with ⟨f, -, hf⟩ | ⟨-, -, hcanceled⟩
    · cases hf
    · cases hcanceled
  | @turned x world _ hexecute _ =>
    have hx := (Campaign.place_of_execute hexecute x rfl).1
    obtain ⟨u, hturn, -⟩ | ⟨u, hturn, -⟩ := (h.record hx world).turn
    · rw [hturn] at hr
      cases hr
    · rw [hturn] at hr
      cases hr
  | _ => cases hr

end RunState

end PhasedLoad
