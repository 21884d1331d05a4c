import PhasedLoad.Proofs.Group.Ledger

/-! The turns of a group as moves of its workers. What is told of every worker, from how it stands
and what it did, holds of a whole group at work if each move keeps it. -/

namespace PhasedLoad

namespace Event

def who? : Event → Option Caller
  | called who _ => some who
  | answered who _ _ _ => some who
  | _ => none

/-- A worker got a response, or its call failed, not fatally and before its group had stopped. -/
def isCounted (event : Event) : Bool := event.response?.isSome || event.isFailure

theorem who?_of_isLine {event : Event} (h : event.isLine = true) : event.who? = none := by
  cases event <;> simp_all [isLine, who?]

end Event

namespace History

variable {who : Caller} {h h' : History} {e : Entry}

/-- What one caller did: its calls and the replies to them. -/
def timeline (who : Caller) (h : History) : History := h.filter fun e => e.event.who? = some who

@[simp] theorem timeline_append (who : Caller) (h h' : History) :
    timeline who (h ++ h') = timeline who h ++ timeline who h' := List.filter_append _ _

theorem timeline_singleton (who : Caller) (e : Entry) :
    timeline who [e] = if e.event.who? = some who then [e] else [] := by
  simp [timeline, List.filter_cons]

theorem timeline_eq_nil (hh : ∀ e ∈ h, e.event.who? ≠ some who) : timeline who h = [] := by
  simp only [timeline, List.filter_eq_nil_iff]
  exact fun e he => by simpa using hh e he

theorem timeline_of_lines (hh : ∀ e ∈ h, e.event.isLine = true) : timeline who h = [] :=
  timeline_eq_nil fun e he => by simp [Event.who?_of_isLine (hh e he)]

end History

/-- A move of worker `v`: what it does, and how it stands then, unless it has ended. -/
inductive Worker.Moves {σ : Type} (env : Environment σ) (run : GroupRun)
    (deadline : Option Instant) (s : GroupState σ) (v : Worker) : Entry → Option Worker → Prop
  | calls (pausing : v.activity = .pausing) : Moves env run deadline s v
      ⟨s.world.now, .called (run.caller v) run.call⟩
      (some { v with
        due := Instant.wake s.world.now (env.target.post run.call s.world.target).1.latency
        activity := .awaiting s.world.now (env.target.post run.call s.world.target).1 })
  | goesOn {since : Instant} {reply : Reply} (codes : Histogram)
      (awaiting : v.activity = .awaiting since reply)
      (counted : (GroupState.answerOf run deadline s v since reply).event.isCounted = true) :
      Moves env run deadline s v (GroupState.answerOf run deadline s v since reply)
        (some { v with
          due := Instant.wake s.world.now run.delay, activity := .pausing, codes := codes })
  | ends {since : Instant} {reply : Reply} (awaiting : v.activity = .awaiting since reply)
      (uncounted : (GroupState.answerOf run deadline s v since reply).event.isCounted = false) :
      Moves env run deadline s v (GroupState.answerOf run deadline s v since reply) none

namespace GroupState

variable {σ : Type} {env : Environment σ} {run : GroupRun} {deadline : Option Instant}
  {s t : GroupState σ} {v : Worker} {v' : Option Worker} {e : Entry} {w : World σ}

theorem isCounted_answerOf {since : Instant} {reply : Reply} :
    (answerOf run deadline s v since reply).event.isCounted =
      match reply.outcome with
      | .response _ => true
      | .failure f => !f.isFatal && ((s.world.receive reply).stopReason deadline).isNone
      | .panic _ => false := by
  rw [Event.isCounted, answerOf_response?, answerOf_isFailure]
  cases reply.outcome <;> simp

end GroupState

section

variable {σ : Type} {env : Environment σ} {run : GroupRun} {deadline : Option Instant}
  {s : GroupState σ} {v : Worker} {v' : Option Worker} {e : Entry}

theorem Worker.Moves.who? (hm : v.Moves env run deadline s e v') :
    e.event.who? = some (run.caller v) := by
  cases hm <;> rfl

theorem Worker.Moves.number (hm : v.Moves env run deadline s e v') :
    ∀ u ∈ v', u.number = v.number := by
  cases hm <;> simp

end

namespace GroupState

variable {σ : Type} {env : Environment σ} {run : GroupRun} {deadline : Option Instant}
  {s t : GroupState σ} {v : Worker} {v' : Option Worker} {e : Entry} {w : World σ}

theorem Acts.moves (ha : Acts env run deadline s v t) (hnodup : s.numbers.Nodup)
    (hv : v ∈ s.workers) :
    ∃ e v' l r lines, v.Moves env run deadline s e v' ∧ s.workers = l ++ v :: r ∧
      (∀ u ∈ l ++ r, u.number ≠ v.number) ∧ t.workers = l ++ (v'.toList ++ r) ∧
      t.past = lines ++ e :: s.past ∧ s.LinesNow lines := by
  obtain ⟨l, r, hsplit, hothers, hput, hdrop⟩ := exists_split hnodup hv
  cases ha with
  | called hpausing _ _ hworkers hpast =>
    exact ⟨_, _, l, r, [], .calls hpausing, hsplit, hothers, hworkers.trans (hput _ rfl), hpast,
      by simp [LinesNow]⟩
  | @responded since reply response lines hawaiting hreply _ _ hworkers hlines hpast =>
    exact ⟨_, _, l, r, lines, .goesOn _ hawaiting (by rw [isCounted_answerOf, hreply]), hsplit,
      hothers, hworkers.trans (hput _ rfl), hpast, hlines⟩
  | @failed since reply f lines hawaiting hreply hmild hlive _ _ hworkers hlines hpast =>
    have hcounted : (answerOf run deadline s v since reply).event.isCounted = true := by
      rw [isCounted_answerOf, hreply]
      simp [hmild, hlive]
    exact ⟨_, _, l, r, lines, .goesOn v.codes hawaiting hcounted, hsplit, hothers,
      hworkers.trans (hput _ rfl), hpast, hlines⟩
  | @ended since reply f lines hawaiting hreply hends _ _ hworkers hlines hpast =>
    have huncounted : (answerOf run deadline s v since reply).event.isCounted = false := by
      rw [isCounted_answerOf, hreply]
      cases hends with
      | inl hfatal => simp [hfatal]
      | inr hstopped => simp [Option.isSome_iff_ne_none.mpr hstopped]
    exact ⟨_, none, l, r, lines, .ends hawaiting huncounted, hsplit, hothers,
      hworkers.trans hdrop, hpast, hlines⟩
  | panicked hawaiting hreply _ _ hworkers hpast =>
    exact ⟨_, none, l, r, [], .ends hawaiting (by rw [isCounted_answerOf, hreply]), hsplit, hothers,
      hworkers.trans hdrop, hpast, by simp [LinesNow]⟩

theorem Acts.now (ha : Acts env run deadline s v t) : t.world.now = s.world.now := by
  cases ha with
  | called _ hworld => rw [hworld, World.post_now]
  | responded _ _ hworld => rw [hworld, World.receive_now]
  | failed _ _ _ _ hworld => rw [hworld, World.receive_now]
  | ended _ _ _ hworld => rw [hworld, World.receive_now]
  | panicked _ _ hworld => rw [hworld, World.receive_now]

structure Underway (w : World σ) (run : GroupRun) (s : GroupState σ) : Prop where
  roster : Roster run s
  sound : Sound w s

theorem underway_start (run : GroupRun) (w : World σ) (stats : Statistics) :
    Underway w run (startOf run w stats) := ⟨roster_start run w stats, sound_start run w stats⟩

theorem Underway.step (env : Environment σ) (hs : Underway w run s)
    (h : s.settled? run deadline = none) : Underway w run (s.step env run deadline) :=
  ⟨hs.roster.step env h, hs.sound.step env h⟩

/-- The turn of worker `v`, from group `s` to group `t`: when it is due, before the group stops, it
makes its move. -/
structure Turn (env : Environment σ) (run : GroupRun) (deadline : Option Instant)
    (s t : GroupState σ) (v : Worker) (e : Entry) (v' : Option Worker) : Prop where
  now : (s.turnAt run v.due).world.now = v.due
  before : ∀ stop ∈ s.world.stopAt deadline, v.due < stop
  live : (s.turnAt run v.due).world.stopReason deadline = none
  moves : v.Moves env run deadline (s.turnAt run v.due) e v'
  workers : ∃ l r, s.workers = l ++ v :: r ∧ (∀ u ∈ l ++ r, u.number ≠ v.number) ∧
    t.workers = l ++ (v'.toList ++ r)
  past : ∃ before after : History, (∀ d ∈ before ++ after, d.event.isLine = true) ∧
    t.past.reverse = s.past.reverse ++ (before ++ e :: after)
  worldNow : t.world.now = v.due

/-- Each step of a group is a turn. -/
theorem Underway.turn (env : Environment σ) (hs : Underway w run s)
    (h : s.settled? run deadline = none) :
    ∃ v e v', Turn env run deadline s (s.step env run deadline) v e v' := by
  obtain ⟨v, hv, -, hstop, hacts, -⟩ := step_cases env hs.roster.paced h
  obtain ⟨before, reporter, broken, heq, hbefore, -⟩ := advance_eq hs.roster.paced run v.due
  have hworkers : (s.turnAt run v.due).workers = s.workers :=
    advance_workers hs.roster.paced run v.due
  have hnow : (s.turnAt run v.due).world.now = v.due := by
    rw [turnAt, heq]
    exact Nat.max_eq_right (hs.sound.due v hv)
  obtain ⟨e, v', l, r, after, hmoves, hsplit, hothers, ht, hpast, hafter⟩ :=
    hacts.moves (hs.roster.advance v.due).nodup (hworkers.symm ▸ hv)
  have hpast' : (s.turnAt run v.due).past = before ++ s.past := by rw [turnAt, heq]
  refine ⟨v, e, v', hnow, hstop, turn_live hs.sound run hv hstop, hmoves,
    ⟨l, r, hworkers ▸ hsplit, hothers, ht⟩,
    ⟨before.reverse, after.reverse, ?_, ?_⟩, ?_⟩
  · intro d hd
    rw [List.mem_append, List.mem_reverse, List.mem_reverse] at hd
    exact hd.elim (hbefore d) fun hd => (hafter d hd).1
  · simp [hpast, hpast']
  · exact hacts.now.trans hnow

namespace Turn

variable (ht : Turn env run deadline s t v e v')

include ht

theorem mem : v ∈ s.workers := by
  obtain ⟨l, r, hsplit, -⟩ := ht.workers
  simp [hsplit]

theorem timeline_eq (who : Caller) : History.timeline who t.past.reverse =
    History.timeline who s.past.reverse ++ if who = run.caller v then [e] else [] := by
  obtain ⟨before, after, hlines, hpast⟩ := ht.past
  have hbefore : History.timeline who before = [] :=
    History.timeline_of_lines fun d hd => hlines d (List.mem_append_left _ hd)
  have hafter : History.timeline who after = [] :=
    History.timeline_of_lines fun d hd => hlines d (List.mem_append_right _ hd)
  have hcons : e :: after = [e] ++ after := rfl
  rw [hpast, hcons, History.timeline_append, History.timeline_append, History.timeline_append,
    hbefore, hafter, List.nil_append, List.append_nil, History.timeline_singleton, ht.moves.who?]
  simp only [Option.some.injEq, eq_comm]

end Turn

/-- What is told of the workers of a group: of each one at work, from how it stands and what it did
so far, and of each one that has ended. -/
structure Told (run : GroupRun) (Stands : Worker → History → Prop) (Ended : Caller → History → Prop)
    (s : GroupState σ) : Prop where
  stands : ∀ v ∈ s.workers, Stands v (History.timeline (run.caller v) s.past.reverse)
  ended : ∀ number, run.Has number → number ∉ s.numbers →
    Ended (.worker run.name.group number)
      (History.timeline (.worker run.name.group number) s.past.reverse)

variable {Stands : Worker → History → Prop} {Ended : Caller → History → Prop}

theorem told_start (stats : Statistics)
    (h : ∀ number, Stands (run.worker w.now number) []) :
    Told run Stands Ended (startOf run w stats) where
  stands := by
    intro v hv
    obtain ⟨i, -, rfl⟩ := List.mem_map.mp hv
    exact h _
  ended := by
    intro number hhas hnot
    refine absurd ?_ hnot
    have hmem : number - 1 ∈ List.range run.instances := List.mem_range.mpr (by
      have := hhas.1
      have := hhas.2
      omega)
    have hnumber : number - 1 + 1 = number := Nat.sub_add_cancel hhas.1
    simpa [numbers, startOf, log, note, start, GroupRun.worker] using
      ⟨_, List.mem_range.mp hmem, hnumber⟩

theorem Told.turn (hs : Told run Stands Ended s) (ht : Turn env run deadline s t v e v')
    (hstands : ∀ u ∈ v', Stands u (History.timeline (run.caller v) s.past.reverse ++ [e]))
    (hended : v' = none →
      Ended (run.caller v) (History.timeline (run.caller v) s.past.reverse ++ [e])) :
    Told run Stands Ended t := by
  obtain ⟨l, r, hsplit, hothers, hworkers⟩ := ht.workers
  -- The turn is an event of its own worker alone.
  have hkeep : ∀ number, number ≠ v.number →
      History.timeline (.worker run.name.group number) t.past.reverse =
        History.timeline (.worker run.name.group number) s.past.reverse := by
    intro number hne
    rw [ht.timeline_eq, if_neg (by simp [GroupRun.caller, hne]), List.append_nil]
  constructor
  · intro u hu
    rw [hworkers, List.mem_append, List.mem_append, Option.mem_toList] at hu
    by_cases hu' : u ∈ v'
    · have hcaller : run.caller u = run.caller v := by
        simp [GroupRun.caller, ht.moves.number u hu']
      rw [hcaller, ht.timeline_eq, if_pos rfl]
      exact hstands u hu'
    · have hu : u ∈ l ∨ u ∈ r := hu.imp_right fun hu => hu.resolve_left hu'
      rw [GroupRun.caller, hkeep _ (hothers u (List.mem_append.mpr hu))]
      refine hs.stands u ?_
      rw [hsplit, List.mem_append, List.mem_cons]
      exact hu.imp_right .inr
  · intro number hhas hnot
    rw [numbers, hworkers] at hnot
    by_cases hne : number = v.number
    · subst hne
      have hnone : v' = none := by
        refine Option.eq_none_iff_forall_not_mem.mpr fun u hu => hnot ?_
        rw [← ht.moves.number u hu]
        exact List.mem_map_of_mem (by simp [Option.mem_def.mp hu])
      have htimeline := ht.timeline_eq (run.caller v)
      rw [if_pos rfl] at htimeline
      exact htimeline ▸ hended hnone
    · rw [hkeep _ hne]
      refine hs.ended number hhas fun hmem => hnot ?_
      rw [numbers, hsplit] at hmem
      simp only [List.map_append, List.map_cons, List.mem_append, List.mem_cons, hne,
        false_or] at hmem ⊢
      exact hmem.imp_right .inr

/-- How a group ends from `s`: its last worker has ended, or all that are left stop. -/
structure Ends (run : GroupRun) (deadline : Option Instant) (s : GroupState σ)
    (out : GroupOutcome σ) : Prop where
  history : ∃ lines : History, out.history = s.past.reverse ++ lines ∧
    ∀ e ∈ lines, e.event.isLine = true
  exit : out.exit = match out.world.stopReason deadline with
    | some reason => .stopped reason
    | none => .finished
  ways : (s.workers = [] ∧ out.world = s.world) ∨
    ∃ stop, s.world.stopAt deadline = some stop ∧ (∀ v ∈ s.workers, stop ≤ v.due) ∧
      s.workers ≠ [] ∧ out.world = s.world.advance stop

theorem exit_conclude (run : GroupRun) (deadline : Option Instant) (s : GroupState σ) :
    (s.conclude run deadline).1 =
      match (s.conclude run deadline).2.world.stopReason deadline with
      | some reason => .stopped reason
      | none => .finished := by
  rw [(writes_conclude run deadline s).world]
  have hreporter : (if run.reportInterval.isZero then
      (s.notice run).log (.reporterBroken run.name .zeroInterval) else s.notice run).world =
        s.world := by
    split
    · exact (writes_notice run s).world
    · exact (writes_notice run s).world
  unfold conclude
  dsimp only
  rw [hreporter]
  cases s.world.stopReason deadline <;> rfl

end GroupState

namespace GroupRun

variable {σ : Type} {env : Environment σ} {turns : Nat} {run : GroupRun} {outer : Option Instant}
  {w : World σ} {stats : Statistics} {out : GroupOutcome σ}

open GroupState

theorem perform_exit (h : run.perform env turns outer w stats = some out) :
    out.exit = match out.world.stopReason (w.within outer run.duration) with
      | some reason => .stopped reason
      | none => .finished := by
  unfold perform at h
  dsimp only at h
  split at h
  · cases h
  · next s hs =>
    cases h
    exact exit_conclude run _ s

theorem perform_settles {P : GroupState σ → Prop} (hstart : P (startOf run w stats))
    (hturn : ∀ s t v e v', Underway w run s → P s →
      Turn env run (w.within outer run.duration) s t v e v' → P t)
    (h : run.perform env turns outer w stats = some out) :
    ∃ s, Underway w run s ∧ P s ∧ Ends run (w.within outer run.duration) s out := by
  obtain ⟨u, t, hplay, hwrites, -, hhistory, hworld⟩ := perform_cases h
  obtain ⟨s, ⟨hunderway, hs⟩, hsettled⟩ :=
    play_induction (P := fun s => Underway w run s ∧ P s) (fun s hs hnone => by
      obtain ⟨v, e, v', ht⟩ := hs.1.turn env hnone
      exact ⟨hs.1.step env hnone, hturn _ _ _ _ _ hs.1 hs.2 ht⟩)
      ⟨underway_start run w stats, hstart⟩ hplay
  obtain ⟨lines, hpast, hlines⟩ := hwrites.past
  refine ⟨s, hunderway, hs, ?_, perform_exit h, ?_⟩
  · rcases settled_cases hsettled with ⟨-, rfl⟩ | ⟨stop, -, -, -, -, rfl⟩
    · refine ⟨lines.reverse, ?_, fun e he => (hlines e (List.mem_reverse.mp he)).1⟩
      rw [hhistory, hpast, List.reverse_append]
    · obtain ⟨before, reporter, broken, heq, hbefore, -⟩ :=
        advance_eq hunderway.roster.paced run stop
      have hpast' : (s.advance run stop).retireAll.past = before ++ s.past := by
        rw [retireAll, heq]
      refine ⟨before.reverse ++ lines.reverse, ?_, ?_⟩
      · rw [hhistory, hpast, List.reverse_append, hpast', List.reverse_append, List.append_assoc]
      · intro e he
        rw [List.mem_append, List.mem_reverse, List.mem_reverse] at he
        exact he.elim (hbefore e) fun he => (hlines e he).1
  · rcases settled_cases hsettled with ⟨hworkers, rfl⟩ | ⟨stop, due, hstop, hdue, hle, rfl⟩
    · exact .inl ⟨hworkers, hworld⟩
    · obtain ⟨hmem, hmin⟩ := List.min?_eq_some_iff.mp hdue
      refine .inr ⟨stop, hstop, ?_, ?_, ?_⟩
      · exact fun v hv => Nat.le_trans hle (hmin _ (List.mem_map_of_mem hv))
      · rintro hnone
        simp [hnone] at hmem
      · obtain ⟨before, reporter, broken, heq, -⟩ := advance_eq hunderway.roster.paced run stop
        rw [hworld, retireAll, heq]

end GroupRun

end PhasedLoad
