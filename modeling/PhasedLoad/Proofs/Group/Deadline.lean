import PhasedLoad.Proofs.Group.Moves

/-! A group and its deadline: from the deadline on nothing starts and the clock stands still, and a
group whose rounds take time comes to its deadline. -/

namespace PhasedLoad

section

variable {σ : Type} {env : Environment σ} {run : GroupRun} {deadline : Option Instant}
  {s : GroupState σ} {v : Worker} {v' : Option Worker} {e : Entry}

theorem Worker.Moves.instant (hm : v.Moves env run deadline s e v') : e.instant = s.world.now := by
  cases hm <;> rfl

end

/-- The reply for which a worker waits was settled by the target, and comes after its latency. -/
def Worker.Waits {σ : Type} (env : Environment σ) (run : GroupRun) (v : Worker) : Prop :=
  ∀ since reply, v.activity = .awaiting since reply →
    v.due = Instant.wake since reply.latency ∧ ∃ st, reply = (env.target.post run.call st).1

/-- Every round of a worker, its pause and its call, takes time. -/
def GroupRun.TakesTime {σ : Type} (env : Environment σ) (run : GroupRun) : Prop :=
  ∀ st, 0 < run.delay.nanos + (env.target.post run.call st).1.latency.nanos

/-- At least the number of turns that a worker has before `x`: two in each nanosecond. -/
def Worker.ahead (x : Instant) (v : Worker) : Nat :=
  match v.activity with
  | .pausing => 2 * (x - v.due)
  | .awaiting since _ => 2 * (x - since) - 1

def Worker.allAhead (x : Instant) : List Worker → Nat
  | [] => 0
  | v :: vs => v.ahead x + allAhead x vs

theorem Worker.allAhead_append (x : Instant) (l r : List Worker) :
    allAhead x (l ++ r) = allAhead x l + allAhead x r := by
  induction l with
  | nil => rw [List.nil_append, allAhead, Nat.zero_add]
  | cons v l ih => rw [List.cons_append, allAhead, allAhead, ih, Nat.add_assoc]

theorem Worker.allAhead_le {x : Instant} {vs : List Worker} {n : Nat} (h : ∀ v ∈ vs, v.ahead x ≤ n) :
    allAhead x vs ≤ vs.length * n := by
  induction vs with
  | nil => exact Nat.zero_le _
  | cons v vs ih =>
    rw [List.forall_mem_cons] at h
    rw [allAhead, List.length_cons, Nat.succ_mul, Nat.add_comm]
    exact Nat.add_le_add (ih h.2) h.1

namespace GroupState

variable {σ : Type} {env : Environment σ} {run : GroupRun} {deadline : Option Instant}
  {s t : GroupState σ} {v : Worker} {v' : Option Worker} {e : Entry} {w : World σ} {x : Instant}

/-- A group that did not pass its deadline. -/
structure Timely (w : World σ) (deadline : Option Instant) (s : GroupState σ) : Prop where
  now : ∀ x ∈ deadline, s.world.now ≤ max w.now x
  opens : ∀ e ∈ s.past, e.event.opens = true → ∀ x ∈ deadline, e.instant < x

theorem timely_start (run : GroupRun) (w : World σ) (stats : Statistics) :
    Timely w deadline (startOf run w stats) where
  now := fun _ _ => Nat.le_max_left _ _
  opens := by
    intro e he
    obtain rfl := List.mem_singleton.mp he
    simp [Event.opens]

theorem Turn.lt_deadline (ht : Turn env run deadline s t v e v') : ∀ x ∈ deadline, v.due < x :=
  (earliest?_forall_lt.mp ht.before).1

theorem Turn.instant (ht : Turn env run deadline s t v e v') : e.instant = v.due :=
  ht.moves.instant.trans ht.now

theorem Timely.turn (hs : Timely w deadline s) (ht : Turn env run deadline s t v e v') :
    Timely w deadline t where
  now := by
    intro x hx
    rw [ht.worldNow]
    exact Nat.le_trans (Nat.le_of_lt (ht.lt_deadline x hx)) (Nat.le_max_right _ _)
  opens := by
    obtain ⟨before, after, hlines, hpast⟩ := ht.past
    intro d hd hopens x hx
    rw [← List.mem_reverse, hpast, List.mem_append, List.mem_reverse, List.mem_append,
      List.mem_cons] at hd
    have hquiet : ∀ d ∈ before ++ after, d.event.opens = false := fun d hd =>
      Event.opens_of_isLine (hlines d hd)
    rcases hd with hd | hd | rfl | hd
    · exact hs.opens d hd hopens x hx
    · exact absurd hopens (by simp [hquiet d (List.mem_append_left _ hd)])
    · rw [ht.instant]
      exact ht.lt_deadline x hx
    · exact absurd hopens (by simp [hquiet d (List.mem_append_right _ hd)])

def Waits (env : Environment σ) (run : GroupRun) (s : GroupState σ) : Prop :=
  Told run (fun v _ => v.Waits env run) (fun _ _ => True) s

theorem waits_start (env : Environment σ) (run : GroupRun) (w : World σ) (stats : Statistics) :
    Waits env run (startOf run w stats) :=
  told_start stats fun number since reply h => by simp [GroupRun.worker] at h

theorem Waits.turn (hs : Waits env run s) (ht : Turn env run deadline s t v e v') :
    Waits env run t := by
  refine Told.turn hs ht ?_ fun _ => trivial
  intro u hu since reply hawaiting
  cases ht.moves with
  | calls =>
    cases hu
    cases hawaiting
    exact ⟨rfl, _, rfl⟩
  | goesOn =>
    cases hu
    cases hawaiting
  | ends => cases hu

def ahead (x : Instant) (s : GroupState σ) : Nat := Worker.allAhead x s.workers

theorem Turn.ahead_lt (ht : Turn env run deadline s t v e v') (hwaits : v.Waits env run)
    (hpositive : run.TakesTime env) (hx : x ∈ deadline) : t.ahead x < s.ahead x := by
  obtain ⟨l, r, hsplit, -, hworkers⟩ := ht.workers
  have hlt := ht.lt_deadline x hx
  have hfar : 0 < Instant.farAway := by decide
  have hless : Worker.allAhead x v'.toList < v.ahead x := by
    cases ht.moves with
    | calls hpausing =>
      rw [ht.now]
      simp only [Worker.ahead, hpausing, Option.toList_some, Worker.allAhead]
      grind
    | @goesOn since reply codes hawaiting =>
      obtain ⟨hdue, st, hreply⟩ := hwaits since reply hawaiting
      have hround := hpositive st
      have hcall := Instant.add_min_le_wake since reply.latency
      have hpause := Instant.add_min_le_wake v.due run.delay
      rw [← hreply] at hround
      rw [ht.now]
      simp only [Worker.ahead, hawaiting, Option.toList_some, Worker.allAhead]
      grind
    | @ends since reply hawaiting =>
      have hcall := Instant.le_wake since reply.latency
      rw [← (hwaits since reply hawaiting).1] at hcall
      simp only [Worker.ahead, hawaiting, Option.toList_none, Worker.allAhead]
      grind
  simp only [ahead, hsplit, hworkers, Worker.allAhead_append, Worker.allAhead]
  omega

theorem Waits.step (hs : Waits env run s) (hunderway : Underway w run s)
    (hpositive : run.TakesTime env) (hx : x ∈ deadline) (h : s.settled? run deadline = none) :
    Waits env run (s.step env run deadline) ∧ (s.step env run deadline).ahead x < s.ahead x := by
  obtain ⟨v, e, v', ht⟩ := hunderway.turn env h
  exact ⟨hs.turn ht, ht.ahead_lt (hs.stands v ht.mem) hpositive hx⟩

theorem exists_play (hs : Underway w run s) (hwaits : Waits env run s)
    (hpositive : run.TakesTime env) (hx : x ∈ deadline) {n : Nat} (hn : s.ahead x ≤ n) :
    ∃ u, s.play env run deadline n = some u := by
  induction n generalizing s with
  | zero =>
    cases hsettled : s.settled? run deadline with
    | some u => exact ⟨u, hsettled⟩
    | none =>
      have hlt := (hwaits.step hs hpositive hx hsettled).2
      omega
  | succ n ih =>
    cases hsettled : s.settled? run deadline with
    | some u => exact ⟨u, play_of_settled hsettled _⟩
    | none =>
      obtain ⟨hwaits', hlt⟩ := hwaits.step hs hpositive hx hsettled
      simp only [play, hsettled]
      exact ih (hs.step env hsettled) hwaits' (by omega)

theorem ahead_start_le (run : GroupRun) (w : World σ) (stats : Statistics) (x : Instant) :
    (startOf run w stats).ahead x ≤ run.instances * (2 * (x - w.now)) := by
  have hlength : (startOf run w stats).workers.length = run.instances :=
    (List.length_map _).trans List.length_range
  have hall : ∀ v ∈ (startOf run w stats).workers, v.ahead x ≤ 2 * (x - w.now) := by
    intro v hv
    obtain ⟨i, -, rfl⟩ := List.mem_map.mp hv
    exact Nat.mul_le_mul_left 2 (Nat.sub_le_sub_left (Instant.le_wake w.now run.delay) x)
  rw [ahead, ← hlength]
  exact Worker.allAhead_le hall

theorem Ends.le_due {out : GroupOutcome σ} (hends : Ends run deadline s out)
    (hs : Underway w run s) (hv : v ∈ s.workers) : out.world.now ≤ v.due := by
  rcases hends.ways with ⟨-, hworld⟩ | ⟨halt, -, hlate, -, hworld⟩
  · rw [hworld]
    exact hs.sound.due v hv
  · rw [hworld]
    exact Nat.max_le.mpr ⟨hs.sound.due v hv, hlate v hv⟩

end GroupState

namespace GroupRun

variable {σ : Type} {env : Environment σ} {turns : Nat} {run : GroupRun} {outer : Option Instant}
  {w : World σ} {stats : Statistics} {out : GroupOutcome σ} {x : Instant}

open GroupState

theorem perform_timely (h : run.perform env turns outer w stats = some out)
    (hx : x ∈ w.within outer run.duration) :
    out.world.now ≤ max w.now x ∧ ∀ e ∈ out.history, e.event.opens = true → e.instant < x := by
  obtain ⟨s, -, hs, hends⟩ := perform_settles (timely_start run w stats)
    (fun _ _ _ _ _ _ hs ht => hs.turn ht) h
  obtain ⟨lines, hhistory, hlines⟩ := hends.history
  constructor
  · rcases hends.ways with ⟨-, hworld⟩ | ⟨stop, hstop, -, -, hworld⟩
    · rw [hworld]
      exact hs.now x hx
    · obtain ⟨stop', hstop', hle⟩ := earliest?_le_left (b := s.world.canceledAt) hx
      rw [World.stopAt] at hstop
      rw [hstop] at hstop'
      cases hstop'
      have hnow := hs.now x hx
      rw [hworld, World.advance_now]
      grind
  · intro e he hopens
    rw [hhistory, List.mem_append, List.mem_reverse] at he
    rcases he with he | he
    · exact hs.opens e he hopens x hx
    · exact absurd hopens (by simp [Event.opens_of_isLine (hlines e he)])

/-- What is told of workers and their timelines is told of what the group leaves behind. -/
theorem perform_tells (Stands : Worker → History → Prop) (Ended : Caller → History → Prop)
    (hstart : ∀ number, Stands (run.worker w.now number) [])
    (hturn : ∀ s t v e v', Told run Stands Ended s →
      Turn env run (w.within outer run.duration) s t v e v' → Told run Stands Ended t)
    (h : run.perform env turns outer w stats = some out) :
    ∃ s, Underway w run s ∧ Timely w (w.within outer run.duration) s ∧
      Ends run (w.within outer run.duration) s out ∧
      (∀ v ∈ s.workers, Stands v (History.timeline (run.caller v) out.history)) ∧
      ∀ number, run.Has number → number ∉ s.numbers →
        Ended (.worker run.name.group number)
          (History.timeline (.worker run.name.group number) out.history) := by
  obtain ⟨s, hs, ⟨htimely, htold⟩, hends⟩ := perform_settles
    (P := fun s => Timely w (w.within outer run.duration) s ∧ Told run Stands Ended s)
    ⟨timely_start run w stats, told_start stats hstart⟩
    (fun _ _ _ _ _ _ hs ht => ⟨hs.1.turn ht, hturn _ _ _ _ _ hs.2 ht⟩) h
  obtain ⟨lines, hhistory, hlines⟩ := hends.history
  have htimeline : ∀ who,
      History.timeline who out.history = History.timeline who s.past.reverse := fun who => by
    rw [hhistory, History.timeline_append, History.timeline_of_lines hlines, List.append_nil]
  refine ⟨s, hs, htimely, hends, fun v hv => ?_, fun number hhas hended => ?_⟩
  · rw [htimeline]
    exact htold.stands v hv
  · rw [htimeline]
    exact htold.ended number hhas hended

/-- A group with a deadline, of which every round takes time, comes to an end. -/
theorem exists_perform (hpositive : run.TakesTime env) (hx : x ∈ w.within outer run.duration)
    (hturns : run.instances * (2 * (x - w.now)) ≤ turns) :
    ∃ out, run.perform env turns outer w stats = some out := by
  obtain ⟨u, hu⟩ := exists_play (underway_start run w stats) (waits_start env run w stats) hpositive
    hx (Nat.le_trans (ahead_start_le run w stats x) hturns)
  rw [startOf] at hu
  exact ⟨_, by simp only [perform, hu]; rfl⟩

end GroupRun

end PhasedLoad
