import PhasedLoad.Proofs.Completion
import PhasedLoad.Proofs.Execution.Lockstep

/-! Runs against two targets that answer alike, as far as their callers care. What a response to a
setup says, and all that comes of a teardown short of a breakdown, has no influence on a run. -/

namespace PhasedLoad

open Target (Lockstep)

variable {σ τ : Type}

/-- What happened in the execution that broke a run down. -/
def Conclusion.history : Conclusion → History
  | panicked _ history => history
  | _ => []

def Conclusion.common : Conclusion → Conclusion
  | panicked text history => panicked text history.common
  | conclusion => conclusion

namespace RunState

def told (s : RunState σ) : History := s.past.reverse.flatMap Execution.history

def retarget (s : RunState σ) (x : τ) : RunState τ :=
  ⟨s.world.retarget x, s.selector, s.current, s.executions, s.past⟩

def common (s : RunState σ) : RunState σ := { s with past := s.past.map Execution.common }

theorem common_eq_iff {s t : RunState σ} : s.common = t.common ↔
    s.world = t.world ∧ s.selector = t.selector ∧ s.current = t.current ∧
      s.executions = t.executions ∧ s.past.map Execution.common = t.past.map Execution.common := by
  simp [common]

end RunState

namespace Round

def told : Round σ → History
  | last conclusion s => s.told ++ conclusion.history
  | next s => s.told

def world : Round σ → World σ
  | last _ s | next s => s.world

def retarget (r : Round σ) (x : τ) : Round τ :=
  match r with
  | last conclusion s => last conclusion (s.retarget x)
  | next s => next (s.retarget x)

def common : Round σ → Round σ
  | last conclusion s => last conclusion.common s.common
  | next s => next s.common

end Round

namespace RunState

variable {env : Environment σ} {env' : Environment τ} {turns : Nat} {c : Campaign}
  {deadline : Option Instant} {s : RunState σ}

theorem follow_retarget (s : RunState σ) (x y : τ) (i : Nat) (selector : Selector) (world : World σ)
    (result : ExecutionResult) :
    (s.retarget x).follow c i selector (world.retarget y) result =
      (s.follow c i selector world result).retarget y := by
  cases result with
  | done e =>
    simp only [follow]
    cases concludedBy e with
    | some conclusion => rfl
    | none =>
      simp only [turn]
      have hnext : ((s.retarget x).record i e selector (world.retarget y)).next c =
          (s.record i e selector world).next c := rfl
      rw [hnext]
      rcases (s.record i e selector world).next c with ⟨_ | current, selector⟩ <;> rfl
  | _ => rfl

theorem common_follow (s : RunState σ) (i : Nat) (selector : Selector) (world : World σ)
    (result : ExecutionResult) :
    (s.common.follow c i selector world result.common).common =
      (s.follow c i selector world result).common := by
  have hpast : ∀ l : List Execution,
      (l.map Execution.common).map Execution.common = l.map Execution.common := by
    intro l
    simp [Function.comp_def]
  cases result with
  | done e =>
    have hrecord : (s.common.record i e.common selector world).common =
        (s.record i e selector world).common := by
      simp [record, common, hpast]
    have hconcludes : concludedBy e.common = concludedBy e := rfl
    simp only [ExecutionResult.common, follow, hconcludes]
    cases concludedBy e with
    | some conclusion => exact congrArg (Round.last conclusion.common) hrecord
    | none =>
      have hnext : (s.common.record i e.common selector world).next c =
          (s.record i e selector world).next c := rfl
      simp only [turn, hnext]
      rcases (s.record i e selector world).next c with ⟨_ | current, selector⟩ <;>
        simp [Round.common, record, common, hpast]
  | setupPanicked text history =>
    simp [ExecutionResult.common, follow, Round.common, Conclusion.common, common, hpast]
  | teardownPanicked text e =>
    simp [ExecutionResult.common, follow, Round.common, Conclusion.common, common, hpast,
      Execution.history_common]

theorem told_follow (s : RunState σ) (i : Nat) (selector : Selector) (world : World σ)
    (result : ExecutionResult) :
    (s.follow c i selector world result).told = s.told ++ result.history ∧
      (s.follow c i selector world result).world = world := by
  cases result with
  | done e =>
    have hrecord : (s.record i e selector world).told = s.told ++ e.history := by
      simp [told, record]
    simp only [follow]
    split
    · next conclusion hconclusion =>
      have hquiet : conclusion.history = [] := by
        rcases concludedBy_cases hconclusion with ⟨f, -, rfl⟩ | ⟨-, -, rfl⟩ <;> rfl
      exact ⟨by rw [Round.told, hquiet, List.append_nil, hrecord]; rfl, rfl⟩
    · obtain ⟨current, selector', hturn⟩ | ⟨selector', hturn⟩ :=
        turn_cases c (s.record i e selector world)
      · rw [hturn]
        exact ⟨hrecord, rfl⟩
      · rw [hturn]
        exact ⟨(List.append_nil _).trans hrecord, rfl⟩
  | _ => exact ⟨rfl, rfl⟩

theorem round_lockstep (hturns : env'.turns = env.turns) {r : Round σ}
    (h : s.round env turns c deadline = some r) :
    ∃ p, r.told.posts = s.told.posts ++ p ∧
      Lockstep env.target env'.target s.world.target p r.world.target fun x y =>
        ∀ t : RunState τ, t.common = (s.retarget x).common →
          (t.round env' turns c deadline).map Round.common = some (r.retarget y).common := by
  -- What decides how the round goes is the same in both runs.
  have hsame : ∀ (x : τ) (t : RunState τ), t.common = (s.retarget x).common →
      t.world = s.world.retarget x ∧ t.pick c = s.pick c ∧ t.executions = s.executions := by
    intro x t ht
    obtain ⟨hworld, hselector, hcurrent, hexecutions, -⟩ := common_eq_iff.mp ht
    refine ⟨hworld, ?_, hexecutions⟩
    simp only [pick, hselector, hcurrent, hexecutions]
    rfl
  rcases round_cases h with ⟨hstop, rfl⟩ | ⟨hstop, rfl⟩ | ⟨selector, hpick, rfl⟩ |
    ⟨i, selector, result, world, hstarts, hpick, hexecute, rfl⟩
  · refine ⟨[], by simp [Round.told, Conclusion.history], .idle fun x t ht => ?_⟩
    obtain ⟨hworld, -, -⟩ := hsame x t ht
    simp only [round, hworld, World.stopReason_retarget, hstop]
    exact congrArg (some <| Round.last .canceled ·) ht
  · refine ⟨[], by simp [Round.told, Conclusion.history], .idle fun x t ht => ?_⟩
    obtain ⟨hworld, -, -⟩ := hsame x t ht
    simp only [round, hworld, World.stopReason_retarget, hstop]
    exact congrArg (some <| Round.last .timedOut ·) ht
  · refine ⟨[], by simp [Round.told, Conclusion.history, told], .idle fun x t ht => ?_⟩
    obtain ⟨hworld, hpick', -⟩ := hsame x t ht
    have hlive : s.world.stopReason deadline = none := by
      cases hstop : s.world.stopReason deadline with
      | none => rfl
      | some reason => cases reason <;> simp [round, hstop] at h
    simp only [round, hworld, World.stopReason_retarget, hlive, hpick', hpick, Option.map_some]
    obtain ⟨-, -, hcurrent, hexecutions, hpast⟩ := common_eq_iff.mp ht
    simp [Round.common, Round.retarget, retarget, common, hcurrent, hexecutions, hpast]
  · obtain ⟨htold, hworld⟩ := s.told_follow (c := c) i selector world result
    refine ⟨result.history.posts, by rw [htold, History.posts_append], ?_⟩
    rw [hworld]
    refine (Campaign.execute_lockstep hturns hexecute).mono fun x y hexecute' t ht => ?_
    obtain ⟨hworld, hpick', hexecutions⟩ := hsame x t ht
    obtain ⟨⟨result', world'⟩, hexecute', heq⟩ := Option.map_eq_some_iff.mp hexecute'
    obtain ⟨hresult, rfl⟩ := Prod.mk.inj heq
    rw [← hworld, ← hexecutions] at hexecute'
    have hstarts' : t.Starts c deadline i := by
      refine ⟨?_, by rw [hpick', hpick]⟩
      rw [hworld]
      exact hstarts.1
    rw [round_of_execute hstarts' hexecute', Option.map_some, hpick', hpick]
    have hfollow : (t.follow c i selector (world.retarget y) result').common =
        ((s.follow c i selector world result).retarget y).common := by
      rw [← common_follow, ht, hresult, common_follow, follow_retarget]
    exact congrArg some hfollow

theorem play_lockstep (hturns : env'.turns = env.turns) {conclusion : Conclusion} {u : RunState σ}
    (h : s.play env turns c deadline = some (conclusion, u)) :
    ∃ p, (u.told ++ conclusion.history).posts = s.told.posts ++ p ∧
      Lockstep env.target env'.target s.world.target p u.world.target fun x y =>
        ∀ t : RunState τ, t.common = (s.retarget x).common →
          ∃ conclusion' v, t.play env' turns c deadline = some (conclusion', v) ∧
            conclusion'.common = conclusion.common ∧ v.common = (u.retarget y).common := by
  fun_induction play env turns c deadline s with
  | case1 => cases h
  | case2 s conclusion' u' hround =>
    cases h
    obtain ⟨p, hp, hlockstep⟩ := round_lockstep hturns hround
    refine ⟨p, hp, hlockstep.mono fun x y hmirror t ht => ?_⟩
    obtain ⟨r, hr, hcommon⟩ := Option.map_eq_some_iff.mp (hmirror t ht)
    cases r with
    | next v => cases hcommon
    | last conclusion' v =>
      obtain ⟨hconclusion, hv⟩ := Round.last.inj hcommon
      exact ⟨conclusion', v, by rw [play, hr], hconclusion, hv⟩
  | case3 s s' hround ih =>
    obtain ⟨p, hp, hfirst⟩ := round_lockstep hturns hround
    obtain ⟨q, hq, hrest⟩ := ih h
    refine ⟨p ++ q, ?_, (hfirst.trans hrest).mono ?_⟩
    · rw [hq, ← List.append_assoc, ← hp]
      rfl
    · rintro x z ⟨y, hmirror, hplay⟩ t ht
      obtain ⟨r, hr, hcommon⟩ := Option.map_eq_some_iff.mp (hmirror t ht)
      cases r with
      | last conclusion' v => cases hcommon
      | next v =>
        obtain ⟨conclusion', v', hv', hboth⟩ := hplay v (Round.next.inj hcommon)
        exact ⟨conclusion', v', by rw [play, hr]; exact hv', hboth⟩

end RunState

namespace Campaign

variable {env : Environment σ} {env' : Environment τ} {turns : Nat} {c : Campaign}

theorem conclude_congr {started : Instant} {conclusion conclusion' : Conclusion} {s : RunState σ}
    {t : RunState τ} {y : τ} (hconclusion : conclusion'.common = conclusion.common)
    (ht : t.common = (s.retarget y).common) :
    (c.conclude started t conclusion').1 = (c.conclude started s conclusion).1 ∧
      (c.conclude started t conclusion').2.common = (c.conclude started s conclusion).2.common := by
  obtain ⟨hworld, -, -, hexecutions, -⟩ := RunState.common_eq_iff.mp ht
  have hsame : ∀ k, c.conclude started t k = c.conclude started s k := by
    intro k
    cases k <;> simp only [conclude, conclude.finish, hworld, hexecutions] <;> rfl
  have hcommon : ∀ k : Conclusion, (c.conclude started s k.common).1 = (c.conclude started s k).1 ∧
      (c.conclude started s k.common).2.common = (c.conclude started s k).2.common := by
    intro k
    cases k <;> simp [conclude, Conclusion.common]
  have hleft := hcommon conclusion'
  rw [hconclusion] at hleft
  rw [hsame]
  exact ⟨hleft.1.symm.trans (hcommon conclusion).1, hleft.2.symm.trans (hcommon conclusion).2⟩

theorem common_flatMap {l l' : List Execution} (h : l'.map Execution.common = l.map Execution.common) :
    History.common (l'.flatMap Execution.history) = History.common (l.flatMap Execution.history) := by
  have hcommon : ∀ l : List Execution, History.common (l.flatMap Execution.history) =
      History.common ((l.map Execution.common).flatMap Execution.history) := by
    intro l
    induction l with
    | nil => rfl
    | cons e l ih =>
      rw [List.map_cons, List.flatMap_cons, List.flatMap_cons, History.common_append,
        History.common_append, ih, Execution.history_common]
  rw [hcommon l', h, ← hcommon]

theorem posts_logged (w : World σ) (lines : List LogEvent) :
    History.posts (lines.map (Part.logged w)) = [] := by
  simp [History.posts, List.filterMap_map, Function.comp_def, Part.logged]

theorem posts_conclude (started : Instant) (s : RunState σ) (conclusion : Conclusion) :
    (c.conclude started s conclusion).2.posts = conclusion.history.posts := by
  cases conclusion <;> rfl

def outcome (c : Campaign) (w : World σ) (conclusion : Conclusion) (s : RunState σ) :
    RunOutcome σ :=
  { ending := (c.conclude w.now s conclusion).1
    opening := c.overview.map (Part.logged w)
    executions := s.past.reverse
    closing := (c.conclude w.now s conclusion).2
    selector := s.selector
    world := s.world }

theorem run_eq_map (env : Environment σ) (turns : Nat) (c : Campaign) (selector : Selector)
    (outer : Option Instant) (w : World σ) :
    c.run env turns selector outer w =
      ((RunState.start c selector w).play env turns c (c.deadline outer w)).map fun p =>
        c.outcome w p.1 p.2 := by
  rw [run, Option.bind_eq_bind, Option.map_eq_bind]
  rfl

theorem posts_outcome (w : World σ) (conclusion : Conclusion) (s : RunState σ) :
    (c.outcome w conclusion s).history.posts = (s.told ++ conclusion.history).posts := by
  rw [RunOutcome.history, History.posts_append, History.posts_append, outcome, posts_logged,
    posts_conclude, List.nil_append, ← History.posts_append]
  rfl

/-- A run is the same, replies to setups and teardowns apart, for every target that answers its
calls alike. -/
theorem run_lockstep (hturns : env'.turns = env.turns) {selector : Selector}
    {outer : Option Instant} {w : World σ} {o : RunOutcome σ}
    (h : c.run env turns selector outer w = some o) :
    Lockstep env.target env'.target w.target o.history.posts o.world.target fun x y =>
      ∃ o', c.run env' turns selector outer (w.retarget x) = some o' ∧ o'.ending = o.ending ∧
        o'.history.common = o.history.common ∧ o'.summaries = o.summaries ∧
        o'.selector = o.selector ∧ o'.world = o.world.retarget y := by
  rw [run_eq_map] at h
  obtain ⟨⟨conclusion, u⟩, hplay, rfl⟩ := Option.map_eq_some_iff.mp h
  obtain ⟨p, hp, hlockstep⟩ := RunState.play_lockstep hturns hplay
  rw [posts_outcome, hp]
  refine hlockstep.mono fun x y hmirror => ?_
  obtain ⟨conclusion', v, hv, hconclusion, hcommon⟩ :=
    hmirror (.start c selector (w.retarget x)) rfl
  obtain ⟨hending, hclosing⟩ := conclude_congr (c := c) hconclusion hcommon
  obtain ⟨hworld, hselector, -, -, hpast⟩ := RunState.common_eq_iff.mp hcommon
  have hreverse : v.past.reverse.map Execution.common = u.past.reverse.map Execution.common := by
    rw [List.map_reverse, hpast, ← List.map_reverse]
    rfl
  have hsummaries : ∀ l : List Execution,
      (l.map Execution.common).map (·.summary) = l.map (·.summary) := fun l => List.map_map
  have hdeadline : c.deadline outer (w.retarget x) = c.deadline outer w := rfl
  refine ⟨c.outcome (w.retarget x) conclusion' v, ?_, hending, ?_, ?_, hselector, hworld⟩
  · rw [run_eq_map, hdeadline, hv, Option.map_some]
  · simp only [RunOutcome.history, outcome, History.common_append, common_flatMap hreverse]
    rw [hclosing]
    rfl
  · simp only [RunOutcome.summaries, outcome]
    rw [← hsummaries, hreverse, hsummaries]

/-- Let a second target answer the calls of a run as the first one does: after the same time and
cancelling the run or not, to workers with the same outcomes; a response to a setup may be any other
one, and what comes of a teardown may be anything else but a breakdown. Whatever the plan, the
settings and the selector, a run against it ends too, and in the same way, after the same calls at
the same instants and with the same summaries. All that happens is the same but those replies and
the lines about them. -/
theorem run_despite_results (c : Campaign) (turns : Nat) (selector : Selector)
    (outer : Option Instant) (w : World σ) (x : τ) (o : RunOutcome σ)
    (hturns : env'.turns = env.turns) (hrun : c.run env turns selector outer w = some o)
    (halike : env.target.Agrees env'.target w.target x o.history.posts) :
    ∃ o', c.run env' turns selector outer (w.retarget x) = some o' ∧
      o'.history.calls = o.history.calls ∧ o'.history.posts = o.history.posts ∧
      o'.summaries = o.summaries ∧ o'.ending = o.ending ∧
      o'.history.common = o.history.common ∧ o'.selector = o.selector := by
  obtain ⟨o', hrun', hending, hcommon, hsummaries, hselector, -⟩ :=
    (run_lockstep hturns hrun).follows x halike
  refine ⟨o', hrun', ?_, ?_, hsummaries, hending, hcommon, hselector⟩
  · rw [← History.calls_common, hcommon, History.calls_common]
  · rw [← History.posts_common, hcommon, History.posts_common]

/-- A worker between a setup and a teardown, twice. -/
def framed : Plan :=
  { pattern := .sequence
    phases :=
      [{ name := "p", workers := [⟨1, .ofSecs 1, .ofMillis 300, .ofSecs 1⟩],
         setup := some (.string "up"), workload := none, teardown := some (.string "down"),
         repeats := 2 }] }

def framedReady : Campaign :=
  let settings := { RunSettings.standard with limits := ⟨.ofSecs 1, .ofSecs 60, 5⟩ }
  match prepare framed settings with
  | (_, .ok c) => c
  | (_, .error _) =>
    ⟨framed, settings, .uniform 1, .ofPlan none framed (.uniform 1) settings.limits⟩

def serving : Target.Script :=
  .ofRules [⟨"up".toList, [.ofResponse (.ofMillis 10) 200 []]⟩,
    ⟨"down".toList, [.ofResponse (.ofMillis 20) 200 []]⟩]

/-- Setups are rejected, and so is the first teardown; the second one times out. -/
def refusing : Target.Script :=
  .ofRules [⟨"up".toList, [.ofResponse (.ofMillis 10) 400 [110, 111]]⟩,
    ⟨"down".toList, [.ofResponse (.ofMillis 20) 400 [],
      ⟨.ofMillis 20, false, .failure (.timeout (.ofMillis 20))⟩]⟩]

/-- Two executions, in each of which a setup, three calls of the worker, and a teardown. -/
theorem framed_despite_results :
    ∃ o o', framedReady.run (.orderly Target.scripted) 100 .sequence none (.start serving none) =
        some o ∧
      framedReady.run (.orderly Target.scripted) 100 .sequence none (.start refusing none) =
        some o' ∧
      o.history.posts.length = 10 ∧ o'.history.calls = o.history.calls ∧
      o'.summaries = o.summaries ∧ o'.ending = o.ending := by
  have hcheck : (framedReady.run (.orderly Target.scripted) 100 .sequence none
      (.start serving none)).any (fun o => o.history.posts.length = 10 &&
        Target.scripted.Agrees Target.scripted serving refusing o.history.posts) = true := by
    decide +kernel
  obtain ⟨o, hrun, ho⟩ := (Option.any_eq_true _ _).mp hcheck
  simp only [Bool.and_eq_true, decide_eq_true_eq] at ho
  obtain ⟨o', hrun', hcalls, -, hsummaries, hending, -⟩ :=
    run_despite_results framedReady 100 .sequence none (.start serving none) refusing o rfl hrun ho.2
  exact ⟨o, o', hrun, hrun', ho.1, hcalls, hsummaries, hending⟩

end Campaign

end PhasedLoad
