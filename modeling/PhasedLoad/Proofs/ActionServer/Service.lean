import PhasedLoad.ActionServer

/-! Requests that an action server handles at the same time. A handling notes its marks one by one,
sleeps if it is asked to, and replies; the handlings take their turns in any order. Time passes only
when all of them wait, and no further than to the next reply that is due. -/

namespace PhasedLoad.ActionServer

inductive Stage
  /-- These marks are still to be noted. -/
  | noting (left : List Mark)
  | asleep
  | replied (instant : Instant) (response : Response)
deriving DecidableEq

structure Handling where
  arrival : Arrival
  since : Instant
  stage : Stage
deriving DecidableEq

namespace Handling

def due (x : Handling) : Instant :=
  if x.arrival.handled.2.isZero then x.since else Instant.wake x.since x.arrival.handled.2

/-- With nothing more to note: it replies if that is due, and sleeps otherwise. -/
def rest (now : Instant) (x : Handling) : Handling :=
  { x with stage := if x.due ≤ now then .replied now x.arrival.handled.1 else .asleep }

/-- The turn of a handling that can go on: what it notes, and how it stands then. -/
def turn? (now : Instant) (x : Handling) : Option (List Mark × Handling) :=
  match x.stage with
  | .noting (m :: left) => some ([m], { x with stage := .noting left })
  | .noting [] => some ([], x.rest now)
  | .asleep => if x.due ≤ now then some ([], x.rest now) else none
  | .replied _ _ => none

/-- The clock may go on to `t`: the handling waits until then. -/
def waits (t : Instant) (x : Handling) : Bool :=
  match x.stage with
  | .noting _ => false
  | .asleep => t ≤ x.due
  | .replied _ _ => true

def pending (x : Handling) : List Mark :=
  match x.stage with
  | .noting left => left
  | _ => []

/-- The handling has come to its sleep or its reply. -/
def isSettled (x : Handling) : Bool :=
  match x.stage with
  | .noting _ => false
  | _ => true

def isReplied (x : Handling) : Bool :=
  match x.stage with
  | .replied _ _ => true
  | _ => false

def left (x : Handling) : Nat :=
  match x.stage with
  | .noting left => left.length + 2
  | .asleep => 1
  | .replied _ _ => 0

end Handling

structure Service where
  now : Instant
  tally : Tally
  /-- One for each request that is handled, in the order of their arrival. -/
  handlings : List Handling
deriving DecidableEq

inductive Act
  | arrive (a : Arrival)
  /-- The turn of one handling. -/
  | turn (place : Nat)
  | pass (t : Instant)

namespace Service

def start : Service := ⟨0, .empty, []⟩

def step? (s : Service) : Act → Option Service
  | .arrive a =>
    if a.isAction then some { s with handlings := s.handlings ++ [⟨a, s.now, .noting a.marks⟩] }
    else none
  | .turn place => do
    let x ← s.handlings[place]?
    let (marks, y) ← x.turn? s.now
    some { s with tally := s.tally.noteAll marks, handlings := s.handlings.set place y }
  | .pass t =>
    if s.now < t ∧ s.handlings.all (·.waits t) then some { s with now := t } else none

def steps? (s : Service) (acts : List Act) : Option Service := acts.foldlM step? s

def Reached (s : Service) : Prop := ∃ acts, start.steps? acts = some s

def Settled (s : Service) : Prop := ∀ x ∈ s.handlings, x.isSettled = true

instance (s : Service) : Decidable s.Settled :=
  inferInstanceAs (Decidable (∀ x ∈ s.handlings, x.isSettled = true))

def arrivals (s : Service) : List Arrival := s.handlings.map (·.arrival)

theorem steps?_cons (s : Service) (act : Act) (acts : List Act) :
    s.steps? (act :: acts) = (s.step? act).bind (·.steps? acts) := rfl

inductive Steps (s : Service) : Service → Prop
  | arrived (a : Arrival) (isAction : a.isAction = true) :
      Steps s { s with handlings := s.handlings ++ [⟨a, s.now, .noting a.marks⟩] }
  | turned {l r : List Handling} {x y : Handling} {marks : List Mark}
      (split : s.handlings = l ++ x :: r) (turns : x.turn? s.now = some (marks, y)) :
      Steps s { s with tally := s.tally.noteAll marks, handlings := l ++ y :: r }
  | passed {t : Instant} (later : s.now < t) (wait : ∀ x ∈ s.handlings, x.waits t = true) :
      Steps s { s with now := t }

variable {s t : Service}

theorem step?_cases {act : Act} (h : s.step? act = some t) : Steps s t := by
  cases act with
  | arrive a =>
    obtain ⟨hisAction, h⟩ := Option.ite_none_right_eq_some.mp h
    cases h
    exact .arrived a hisAction
  | turn place =>
    obtain ⟨x, hx, h⟩ := Option.bind_eq_some_iff.mp h
    obtain ⟨⟨marks, y⟩, hturn, h⟩ := Option.bind_eq_some_iff.mp h
    cases h
    obtain ⟨hlt, rfl⟩ := List.getElem?_eq_some_iff.mp hx
    rw [List.set_eq_take_append_cons_drop, if_pos hlt]
    refine .turned ?_ hturn
    rw [← List.drop_eq_getElem_cons hlt, List.take_append_drop]
  | pass u =>
    obtain ⟨⟨hlater, hwait⟩, h⟩ := Option.ite_none_right_eq_some.mp h
    cases h
    exact .passed hlater (List.all_eq_true.mp hwait)

/-- What holds at the start and is kept by every act holds of all that a server comes to. -/
theorem reached_induction {P : Service → Prop} (hstart : P start)
    (hstep : ∀ s t, P s → Steps s t → P t) (hs : s.Reached) : P s := by
  obtain ⟨acts, hacts⟩ := hs
  have hall : ∀ acts u, P u → u.steps? acts = some s → P s := by
    intro acts
    induction acts with
    | nil =>
      intro u hu h
      cases h
      exact hu
    | cons act acts ih =>
      intro u hu h
      rw [steps?_cons] at h
      obtain ⟨v, hv, h⟩ := Option.bind_eq_some_iff.mp h
      exact ih v (hstep u v hu (step?_cases hv)) h
  exact hall acts start hstart hacts

theorem steps?_append {u : Service} {acts more : List Act} (h : s.steps? acts = some t)
    (hmore : t.steps? more = some u) : s.steps? (acts ++ more) = some u := by
  rw [steps?, List.foldlM_append, ← steps?, h]
  exact hmore

end Service

namespace Handling

variable {now t : Instant} {x y : Handling} {marks : List Mark}

@[simp] theorem pending_start (a : Arrival) (now : Instant) (left : List Mark) :
    (⟨a, now, .noting left⟩ : Handling).pending = left := rfl

theorem since_le_due (x : Handling) : x.since ≤ x.due := by
  unfold due
  split
  · exact Nat.le_refl _
  · exact Instant.le_wake _ _

theorem due_eq (h : x.since + x.arrival.handled.2.nanos < Instant.limit) :
    x.due = x.since + x.arrival.handled.2.nanos := by
  unfold due
  split
  · next hzero => rw [Duration.isZero_iff.mp hzero, Nat.add_zero]
  · exact Instant.wake_of_lt h

/-- How a handling stands when the clock is at `now`. -/
inductive Stands (x : Handling) (now : Instant) : Prop
  | noting {left : List Mark} (stage : x.stage = .noting left) (since : x.since = now)
  | asleep (stage : x.stage = .asleep) (due : now ≤ x.due)
  | replied (stage : x.stage = .replied x.due x.arrival.handled.1)

theorem stands_rest (h : now ≤ x.due) : (x.rest now).Stands now := by
  unfold rest
  split
  · next hdue =>
    obtain rfl : x.due = now := Nat.le_antisymm hdue h
    exact .replied rfl
  · exact .asleep rfl h

theorem pending_rest (x : Handling) (now : Instant) : (x.rest now).pending = [] := by
  unfold rest
  split <;> rfl

theorem left_rest (x : Handling) (now : Instant) :
    (x.rest now).left ≤ 1 ∧ (x.due ≤ now → (x.rest now).left = 0) := by
  unfold rest
  split
  · exact ⟨Nat.zero_le _, fun _ => rfl⟩
  · next hlater => exact ⟨Nat.le_refl _, fun hdue => absurd hdue hlater⟩

theorem turn?_cases (h : x.turn? now = some (marks, y)) :
    (∃ m left, x.stage = .noting (m :: left) ∧ marks = [m] ∧ y = { x with stage := .noting left }) ∨
      (x.stage = .noting [] ∨ x.stage = .asleep ∧ x.due ≤ now) ∧ marks = [] ∧ y = x.rest now := by
  unfold turn? at h
  cases hstage : x.stage with
  | noting left =>
    rw [hstage] at h
    cases left with
    | nil =>
      cases h
      exact .inr ⟨.inl rfl, rfl, rfl⟩
    | cons m left =>
      cases h
      exact .inl ⟨m, left, rfl, rfl, rfl⟩
  | asleep =>
    rw [hstage] at h
    obtain ⟨hdue, h⟩ := Option.ite_none_right_eq_some.mp h
    cases h
    exact .inr ⟨.inr ⟨rfl, hdue⟩, rfl, rfl⟩
  | replied instant response =>
    rw [hstage] at h
    cases h

/-- A turn notes what is no longer pending, and brings its handling closer to its reply. -/
theorem turn?_spec (h : x.turn? now = some (marks, y)) :
    y.arrival = x.arrival ∧ x.pending = marks ++ y.pending ∧ y.left < x.left := by
  obtain ⟨m, left, hstage, rfl, rfl⟩ | ⟨hstage, rfl, rfl⟩ := turn?_cases h
  · refine ⟨rfl, by rw [pending, hstage]; rfl, ?_⟩
    rw [Handling.left, Handling.left, hstage]
    exact Nat.lt_succ_self _
  · obtain ⟨hle, hzero⟩ := x.left_rest now
    refine ⟨rfl, ?_, ?_⟩
    · rw [pending_rest, pending]
      rcases hstage with hstage | ⟨hstage, -⟩ <;> rw [hstage] <;> rfl
    · rcases hstage with hstage | ⟨hstage, hdue⟩
      · rw [Handling.left.eq_def x, hstage]
        exact Nat.lt_succ_of_le hle
      · rw [Handling.left.eq_def x, hstage, hzero hdue]
        exact Nat.zero_lt_one

theorem Stands.turn (hx : x.Stands now) (h : x.turn? now = some (marks, y)) : y.Stands now := by
  obtain ⟨m, left, hstage, -, rfl⟩ | ⟨hstage, -, rfl⟩ := turn?_cases h
  · cases hx with
    | noting _ hsince => exact .noting rfl hsince
    | asleep hasleep _ => simp [hstage] at hasleep
    | replied hreplied => simp [hstage] at hreplied
  · cases hx with
    | noting _ hsince => exact stands_rest (hsince ▸ x.since_le_due)
    | asleep _ hdue => exact stands_rest hdue
    | replied hreplied => simp [hreplied] at hstage

theorem Stands.wait (hx : x.Stands now) (h : x.waits t = true) : x.Stands t := by
  unfold waits at h
  cases hx with
  | noting hstage _ => simp [hstage] at h
  | asleep hstage _ => exact .asleep hstage (by simpa [hstage] using h)
  | replied hstage => exact .replied hstage

theorem pending_of_isSettled (h : x.isSettled = true) : x.pending = [] := by
  unfold isSettled at h
  unfold pending
  cases hstage : x.stage with
  | noting left => simp [hstage] at h
  | _ => rfl

end Handling

namespace Service

variable {s t : Service}

/-- What holds of an action server at work: every mark of a request is in the tallies or is still to
be noted. -/
structure Formed (s : Service) : Prop where
  isAction : ∀ x ∈ s.handlings, x.arrival.isAction = true
  stands : ∀ x ∈ s.handlings, x.Stands s.now
  balance : ∀ m, s.tally.count m + (s.handlings.flatMap (·.pending)).count m =
    (s.handlings.flatMap (·.arrival.marks)).count m

theorem formed_start : Formed start where
  isAction := nofun
  stands := nofun
  balance := fun m => by cases m <;> rfl

theorem Formed.arrive (hs : s.Formed) {a : Arrival} (ha : a.isAction = true) :
    Formed { s with handlings := s.handlings ++ [⟨a, s.now, .noting a.marks⟩] } where
  isAction := by
    intro x hx
    rcases List.mem_append.mp hx with hx | hx
    · exact hs.isAction x hx
    · obtain rfl := List.mem_singleton.mp hx
      exact ha
  stands := by
    intro x hx
    rcases List.mem_append.mp hx with hx | hx
    · exact hs.stands x hx
    · obtain rfl := List.mem_singleton.mp hx
      exact .noting rfl rfl
  balance := by
    intro m
    have hbalance := hs.balance m
    simp only [List.flatMap_append, List.count_append, List.flatMap_singleton,
      Handling.pending_start]
    omega

theorem Formed.turn (hs : s.Formed) {l r : List Handling} {x y : Handling} {marks : List Mark}
    (hsplit : s.handlings = l ++ x :: r) (hturn : x.turn? s.now = some (marks, y)) :
    Formed { s with tally := s.tally.noteAll marks, handlings := l ++ y :: r } := by
  have hx : x ∈ s.handlings := by simp [hsplit]
  obtain ⟨harrival, hpending, -⟩ := Handling.turn?_spec hturn
  have hothers : ∀ {z}, z ∈ l ++ y :: r → z = y ∨ z ∈ s.handlings := by
    intro z hz
    rw [hsplit]
    rcases List.mem_append.mp hz with hz | hz
    · exact .inr (List.mem_append_left _ hz)
    · exact (List.mem_cons.mp hz).imp_right fun hz =>
        List.mem_append_right _ (List.mem_cons_of_mem _ hz)
  constructor
  · intro z hz
    rcases hothers hz with rfl | hz
    · exact harrival ▸ hs.isAction x hx
    · exact hs.isAction z hz
  · intro z hz
    rcases hothers hz with rfl | hz
    · exact (hs.stands x hx).turn hturn
    · exact hs.stands z hz
  · intro m
    have hbalance := hs.balance m
    rw [hsplit] at hbalance
    simp only [List.flatMap_append, List.flatMap_cons, List.count_append, hpending] at hbalance
    simp only [List.flatMap_append, List.flatMap_cons, List.count_append, Tally.count_noteAll,
      harrival]
    omega

theorem Formed.steps (hs : s.Formed) (h : Steps s t) : t.Formed := by
  cases h with
  | arrived a hisAction => exact hs.arrive hisAction
  | turned hsplit hturn => exact hs.turn hsplit hturn
  | passed _ hwait =>
    exact ⟨hs.isAction, fun x hx => (hs.stands x hx).wait (hwait x hx), hs.balance⟩

theorem Reached.formed (hs : s.Reached) : s.Formed :=
  reached_induction formed_start (fun _ _ hs h => hs.steps h) hs

def left (s : Service) : Nat := s.handlings.foldr (fun x n => x.left + n) 0

theorem left_lt {l r : List Handling} {x y : Handling} (hs : s.handlings = l ++ x :: r)
    (ht : t.handlings = l ++ y :: r) (h : y.left < x.left) : t.left < s.left := by
  rw [left, left, hs, ht]
  clear hs ht
  induction l with
  | nil => exact Nat.add_lt_add_right h _
  | cons z l ih => exact Nat.add_lt_add_left ih _

theorem exists_turn {x y : Handling} {marks : List Mark} (hx : x ∈ s.handlings)
    (h : x.turn? s.now = some (marks, y)) :
    ∃ act t, s.step? act = some t ∧ t.left < s.left ∧ t.arrivals = s.arrivals := by
  obtain ⟨l, r, hsplit⟩ := List.append_of_mem hx
  obtain ⟨harrival, -, hleft⟩ := Handling.turn?_spec h
  refine ⟨.turn l.length,
    { s with tally := s.tally.noteAll marks, handlings := l ++ y :: r }, ?_, ?_, ?_⟩
  · simp [step?, hsplit, h]
  · exact left_lt hsplit rfl hleft
  · simp [arrivals, hsplit, harrival]

theorem exists_first {x : Handling} (hx : x ∈ s.handlings) (hasleep : x.stage = .asleep) :
    ∃ y ∈ s.handlings, y.stage = .asleep ∧
      ∀ z ∈ s.handlings, z.stage = .asleep → y.due ≤ z.due := by
  have hmem : ∀ z ∈ s.handlings, z.stage = .asleep →
      z.due ∈ (s.handlings.filter (·.stage = .asleep)).map (·.due) := fun z hz hstage =>
    List.mem_map_of_mem (List.mem_filter.mpr ⟨hz, by simpa using hstage⟩)
  cases hmin : ((s.handlings.filter (·.stage = .asleep)).map (·.due)).min? with
  | none =>
    have hnone := hmem x hx hasleep
    rw [List.min?_eq_none_iff.mp hmin] at hnone
    cases hnone
  | some d =>
    obtain ⟨hd, hle⟩ := List.min?_eq_some_iff.mp hmin
    obtain ⟨y, hy, rfl⟩ := List.mem_map.mp hd
    obtain ⟨hy, hstage⟩ := List.mem_filter.mp hy
    exact ⟨y, hy, by simpa using hstage, fun z hz hstage => hle _ (hmem z hz hstage)⟩

theorem exists_steps_of_settled (hs : s.Settled) {x : Handling} (hx : x ∈ s.handlings)
    (hasleep : x.stage = .asleep) :
    ∃ acts t, s.steps? acts = some t ∧ t.left < s.left ∧ t.arrivals = s.arrivals := by
  obtain ⟨y, hy, hstage, hfirst⟩ := exists_first hx hasleep
  have hturn : ∀ now, y.due ≤ now → y.turn? now = some ([], y.rest now) := by
    intro now hdue
    rw [Handling.turn?, hstage]
    exact if_pos hdue
  by_cases hdue : y.due ≤ s.now
  · obtain ⟨act, t, hstep, ht⟩ := exists_turn hy (hturn _ hdue)
    exact ⟨[act], t, by rw [steps?_cons, hstep]; rfl, ht⟩
  · have hwait : ∀ z ∈ s.handlings, z.waits y.due = true := by
      intro z hz
      have hnoted := hs z hz
      unfold Handling.isSettled at hnoted
      unfold Handling.waits
      cases hz' : z.stage with
      | noting left => simp [hz'] at hnoted
      | asleep => simpa using hfirst z hz hz'
      | replied instant response => rfl
    have hpass : s.step? (.pass y.due) = some { s with now := y.due } :=
      if_pos ⟨Nat.lt_of_not_le hdue, List.all_eq_true.mpr hwait⟩
    obtain ⟨act, t, hstep, ht⟩ :=
      exists_turn (s := { s with now := y.due }) hy (hturn _ (Nat.le_refl _))
    exact ⟨[.pass y.due, act], t, by rw [steps?_cons, hpass, Option.bind_some, steps?_cons, hstep]; rfl,
      ht⟩

/-- Unless all have replied, some handling can go on, now or when the first reply is due. -/
theorem exists_steps {x : Handling} (hx : x ∈ s.handlings) (hreply : x.isReplied = false) :
    ∃ acts t, s.steps? acts = some t ∧ t.left < s.left ∧ t.arrivals = s.arrivals := by
  by_cases hsettled : s.Settled
  · refine exists_steps_of_settled hsettled hx ?_
    have hnoted := hsettled x hx
    unfold Handling.isSettled at hnoted
    unfold Handling.isReplied at hreply
    cases hstage : x.stage <;> simp_all
  · obtain ⟨y, hy⟩ := Classical.not_forall.mp hsettled
    obtain ⟨hy, hnoting⟩ := Classical.not_imp.mp hy
    obtain ⟨marks, z, hturn⟩ : ∃ marks z, y.turn? s.now = some (marks, z) := by
      unfold Handling.isSettled at hnoting
      unfold Handling.turn?
      cases hstage : y.stage with
      | noting left => cases left <;> exact ⟨_, _, rfl⟩
      | _ => simp [hstage] at hnoting
    obtain ⟨act, t, hstep, ht⟩ := exists_turn hy hturn
    exact ⟨[act], t, by rw [steps?_cons, hstep]; rfl, ht⟩

theorem exists_replied (s : Service) :
    ∃ acts t, s.steps? acts = some t ∧ (∀ x ∈ t.handlings, x.isReplied = true) ∧
      t.arrivals = s.arrivals := by
  generalize hn : s.left = n
  induction n using Nat.strongRecOn generalizing s with
  | ind n ih =>
    by_cases hall : ∀ x ∈ s.handlings, x.isReplied = true
    · exact ⟨[], s, rfl, hall, rfl⟩
    · obtain ⟨x, hx⟩ := Classical.not_forall.mp hall
      obtain ⟨hx, hreply⟩ := Classical.not_imp.mp hx
      obtain ⟨acts, t, hacts, hlt, harrivals⟩ := exists_steps hx (Bool.not_eq_true _ ▸ hreply)
      obtain ⟨more, u, hmore, hu, harrivals'⟩ := ih t.left (hn ▸ hlt) t rfl
      exact ⟨acts ++ more, u, steps?_append hacts hmore, hu, harrivals'.trans harrivals⟩

end Service

end PhasedLoad.ActionServer
