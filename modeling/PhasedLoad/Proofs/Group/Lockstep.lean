import PhasedLoad.Proofs.Group.Course

/-! A group that works for two targets, step by step: as long as they answer its calls alike, all
but the targets stays the same. -/

namespace PhasedLoad

def Outcome.panic? : Outcome → Option String
  | panic text => some text
  | _ => none

def Outcome.isResponse : Outcome → Bool
  | response _ => true
  | _ => false

/-- Outcomes that a caller makes the same of. A setup needs a response, whatever it says; a teardown
needs nothing, unless it breaks down. -/
inductive Outcome.Alike : Caller → Outcome → Outcome → Prop
  | same (who : Caller) (o : Outcome) : Alike who o o
  | responses (r r' : Response) : Alike .setup (.response r) (.response r')
  | results {o o' : Outcome} (mild : o.panic? = none) (mild' : o'.panic? = none) :
      Alike .teardown o o'

theorem Outcome.alike_iff {who : Caller} {o o' : Outcome} : Outcome.Alike who o o' ↔
    o' = o ∨ (who = .setup ∧ o.isResponse ∧ o'.isResponse) ∨
      who = .teardown ∧ o.panic? = none ∧ o'.panic? = none := by
  constructor
  · intro h
    cases h with
    | same => exact .inl rfl
    | responses => exact .inr (.inl ⟨rfl, rfl, rfl⟩)
    | results hmild hmild' => exact .inr (.inr ⟨rfl, hmild, hmild'⟩)
  · rintro (rfl | ⟨rfl, ho, ho'⟩ | ⟨rfl, ho, ho'⟩)
    · exact .same who _
    · cases o with
      | response r =>
        cases o' with
        | response r' => exact .responses r r'
        | _ => cases ho'
      | _ => cases ho
    · exact .results ho ho'

instance (who : Caller) (o o' : Outcome) : Decidable (Outcome.Alike who o o') :=
  decidable_of_iff _ Outcome.alike_iff.symm

structure Reply.Alike (who : Caller) (r r' : Reply) : Prop where
  latency : r'.latency = r.latency
  cancels : r'.cancels = r.cancels
  outcome : Outcome.Alike who r.outcome r'.outcome

instance (who : Caller) (r r' : Reply) : Decidable (Reply.Alike who r r') :=
  decidable_of_iff (r'.latency = r.latency ∧ r'.cancels = r.cancels ∧
    Outcome.Alike who r.outcome r'.outcome) ⟨fun h => ⟨h.1, h.2.1, h.2.2⟩, fun h => ⟨h.1, h.2, h.3⟩⟩

theorem Reply.Alike.eq {group number : Nat} {r r' : Reply}
    (h : Reply.Alike (.worker group number) r r') : r' = r := by
  have hsame : ∀ o o', Outcome.Alike (.worker group number) o o' → o' = o := by
    intro o o' ho
    cases ho
    rfl
  obtain ⟨hlatency, hcancels, houtcome⟩ := h
  have heq := hsame _ _ houtcome
  cases r
  cases r'
  simp_all

def History.posts (h : History) : List (Caller × Call) :=
  h.filterMap fun e => match e.event with
    | .called who call => some (who, call)
    | _ => none

@[simp] theorem History.posts_append (h h' : History) : posts (h ++ h') = posts h ++ posts h' :=
  List.filterMap_append

theorem History.posts_of_lines {h : History} (hh : ∀ e ∈ h, e.event.isLine = true) :
    h.posts = [] := by
  refine List.filterMap_eq_nil_iff.mpr fun e he => ?_
  have hline := hh e he
  split
  · next heq => simp [heq, Event.isLine] at hline
  · rfl

namespace Target

variable {σ τ : Type} (T : Target σ) (U : Target τ)

def after (a : σ) (p : List (Caller × Call)) : σ := p.foldl (fun a c => (T.post c.2 a).2) a

/-- The replies to the calls, one after the other, are alike for their callers. -/
def Agrees : σ → τ → List (Caller × Call) → Prop
  | _, _, [] => True
  | a, x, c :: p => Reply.Alike c.1 (T.post c.2 a).1 (U.post c.2 x).1 ∧
      Agrees (T.post c.2 a).2 (U.post c.2 x).2 p

instance decidableAgrees : ∀ (a : σ) (x : τ) (p : List (Caller × Call)),
    Decidable (T.Agrees U a x p)
  | _, _, [] => .isTrue trivial
  | a, x, c :: p =>
    have := decidableAgrees (T.post c.2 a).2 (U.post c.2 x).2 p
    inferInstanceAs (Decidable (_ ∧ _))

theorem after_append (a : σ) (p q : List (Caller × Call)) :
    T.after a (p ++ q) = T.after (T.after a p) q := List.foldl_append

theorem agrees_append {a : σ} {x : τ} {p q : List (Caller × Call)} :
    T.Agrees U a x (p ++ q) ↔ T.Agrees U a x p ∧ T.Agrees U (T.after a p) (U.after x p) q := by
  induction p generalizing a x with
  | nil => simp [Agrees, after]
  | cons c p ih => simp only [List.cons_append, Agrees, ih, and_assoc]; rfl

/-- The calls `p` bring the target from state `a` to `b`. If another one answers them alike, what
`Q` says holds of its states before and after them. -/
structure Lockstep (a : σ) (p : List (Caller × Call)) (b : σ) (Q : τ → τ → Prop) : Prop where
  after : b = T.after a p
  follows : ∀ x, T.Agrees U a x p → Q x (U.after x p)

namespace Lockstep

variable {T : Target σ} {U : Target τ} {a b c : σ} {p q : List (Caller × Call)}
  {Q R : τ → τ → Prop}

theorem idle (h : ∀ x, Q x x) : Lockstep T U a [] a Q := ⟨rfl, fun x _ => h x⟩

theorem trans (hab : Lockstep T U a p b Q) (hbc : Lockstep T U b q c R) :
    Lockstep T U a (p ++ q) c fun x z => ∃ y, Q x y ∧ R y z := by
  refine ⟨?_, fun x hx => ?_⟩
  · rw [hbc.after, hab.after, after_append]
  · obtain ⟨hp, hq⟩ := (agrees_append T U).mp hx
    rw [← hab.after] at hq
    exact ⟨_, hab.follows x hp, by rw [after_append]; exact hbc.follows _ hq⟩

theorem mono (h : Lockstep T U a p b Q) (hQ : ∀ x y, Q x y → R x y) : Lockstep T U a p b R :=
  ⟨h.after, fun x hx => hQ _ _ (h.follows x hx)⟩

theorem call (T : Target σ) (U : Target τ) (a : σ) (who : Caller) (call : Call) :
    Lockstep T U a [(who, call)] (T.post call a).2 fun x y =>
      Reply.Alike who (T.post call a).1 (U.post call x).1 ∧ y = (U.post call x).2 :=
  ⟨rfl, fun _ hx => ⟨hx.1, rfl⟩⟩

end Lockstep

end Target

open Target (Lockstep)

variable {σ τ : Type}

def World.retarget (w : World σ) (x : τ) : World τ := ⟨w.now, w.canceledAt, x⟩

namespace World

variable (w : World σ) (x : τ)

@[simp] theorem retarget_now : (w.retarget x).now = w.now := rfl
@[simp] theorem retarget_target : (w.retarget x).target = x := rfl
@[simp] theorem advance_retarget (t : Instant) :
    (w.retarget x).advance t = (w.advance t).retarget x := rfl
@[simp] theorem stopReason_retarget (deadline : Option Instant) :
    (w.retarget x).stopReason deadline = w.stopReason deadline := rfl
@[simp] theorem stopAt_retarget (deadline : Option Instant) :
    (w.retarget x).stopAt deadline = w.stopAt deadline := rfl
@[simp] theorem within_retarget (deadline : Option Instant) (d : Duration) :
    (w.retarget x).within deadline d = w.within deadline d := rfl

@[simp] theorem receive_retarget (reply : Reply) :
    (w.retarget x).receive reply = (w.receive reply).retarget x := by
  unfold receive
  split <;> rfl

end World

namespace GroupState

def retarget (s : GroupState σ) (x : τ) : GroupState τ :=
  { world := s.world.retarget x
    stats := s.stats
    workers := s.workers
    reporter := s.reporter
    broken := s.broken
    steps := s.steps
    past := s.past }

section

variable (run : GroupRun) (deadline : Option Instant) (s : GroupState σ) (x : τ) (v : Worker)

@[simp] theorem retarget_world : (s.retarget x).world = s.world.retarget x := rfl
@[simp] theorem retarget_reporter : (s.retarget x).reporter = s.reporter := rfl
@[simp] theorem retarget_broken : (s.retarget x).broken = s.broken := rfl
@[simp] theorem retarget_nextDue? : (s.retarget x).nextDue? = s.nextDue? := rfl

theorem log_retarget (line : LogEvent) : (s.retarget x).log line = (s.log line).retarget x := rfl

theorem notice_retarget : (s.retarget x).notice run = (s.notice run).retarget x := by
  have hfold : ∀ (whys : List Breakdown) (s : GroupState σ),
      whys.foldl (fun s why => s.log (.workerBroken run.name why)) (s.retarget x) =
        (whys.foldl (fun s why => s.log (.workerBroken run.name why)) s).retarget x := by
    intro whys
    induction whys with
    | nil => exact fun _ => rfl
    | cons why whys ih => exact fun s => ih (s.log (.workerBroken run.name why))
  have h := hfold s.broken s
  unfold notice
  rw [retarget_broken, h]
  rfl

theorem report_retarget (t : Instant) : (s.retarget x).report run t = (s.report run t).retarget x := by
  unfold report
  rw [retarget_reporter]
  cases s.reporter <;> rfl

theorem advance_retarget (t : Instant) :
    (s.retarget x).advance run t = (s.advance run t).retarget x := by
  unfold advance
  rw [notice_retarget, report_retarget, retarget_world, World.retarget_now]
  split <;> rfl

theorem count_retarget (took : Duration) (r : Response) :
    (s.retarget x).count run took r = (s.count run took r).retarget x := by
  unfold count
  split
  · rfl
  · split <;> rfl

theorem answer_retarget (since : Instant) (reply : Reply) :
    (s.retarget x).answer run deadline v since reply =
      (s.answer run deadline v since reply).retarget x := by
  simp only [answer, retarget_world, World.receive_retarget, World.retarget_now,
    World.stopReason_retarget]
  rfl

theorem receive_retarget (since : Instant) (reply : Reply) :
    (s.retarget x).receive run deadline v since reply =
      (s.receive run deadline v since reply).retarget x := by
  unfold receive
  simp only [answer_retarget, retarget_world, World.stopReason_retarget, World.retarget_now,
    reportDue, report_retarget, count_retarget]
  cases reply.outcome with
  | response r => rfl
  | failure f =>
    dsimp only
    split
    · rfl
    · split <;> rfl
  | panic text => rfl

theorem settled?_retarget :
    (s.retarget x).settled? run deadline = (s.settled? run deadline).map (·.retarget x) := by
  unfold settled?
  rw [retarget_nextDue?]
  cases s.nextDue? with
  | none => rfl
  | some t =>
    dsimp only
    rw [retarget_world, World.stopAt_retarget]
    cases s.world.stopAt deadline with
    | none => rfl
    | some stop =>
      dsimp only
      rw [advance_retarget]
      split <;> rfl

theorem conclude_retarget : (s.retarget x).conclude run deadline =
    ((s.conclude run deadline).1, (s.conclude run deadline).2.retarget x) := by
  unfold conclude
  simp only [notice_retarget, log_retarget]
  cases run.reportInterval.isZero with
  | true =>
    simp only [if_true, retarget_world, World.stopReason_retarget]
    split <;> rfl
  | false =>
    simp only [Bool.false_eq_true, if_false, retarget_world, World.stopReason_retarget]
    split <;> rfl

end

def posts (s : GroupState σ) : List (Caller × Call) := History.posts s.past.reverse

variable {env : Environment σ} {env' : Environment τ} {run : GroupRun} {deadline : Option Instant}
  {s t : GroupState σ} {v : Worker}

theorem posts_of_lines {h : History} (hpast : t.past = h ++ s.past)
    (hlines : ∀ e ∈ h, e.event.isLine = true) : t.posts = s.posts := by
  have hnone : History.posts h.reverse = [] := History.posts_of_lines fun e he =>
    hlines e (List.mem_reverse.mp he)
  rw [posts, hpast, List.reverse_append, History.posts_append, hnone, List.append_nil, posts]

theorem advance_posts (hp : s.Paced) (run : GroupRun) (due : Instant) :
    (s.advance run due).posts = s.posts ∧ (s.advance run due).world.target = s.world.target := by
  obtain ⟨h, reporter, broken, heq, hlines, -⟩ := advance_eq hp run due
  exact ⟨posts_of_lines (by rw [heq]) hlines, by rw [heq]; rfl⟩

/-- The group comes from `s` to `t`. If another target answers its calls alike, what `Q` says holds
of that target's states before and after them. -/
def Mirrors (env : Environment σ) (env' : Environment τ) (s t : GroupState σ) (Q : τ → τ → Prop) :
    Prop :=
  ∃ p, t.posts = s.posts ++ p ∧
    Lockstep env.target env'.target s.world.target p t.world.target Q

theorem Mirrors.idle {Q : τ → τ → Prop} (hposts : t.posts = s.posts)
    (htarget : t.world.target = s.world.target) (h : ∀ x, Q x x) : Mirrors env env' s t Q := by
  refine ⟨[], by rw [hposts, List.append_nil], ?_⟩
  rw [htarget]
  exact .idle h

theorem Acts.idle (ha : Acts env run deadline s v t) (hv : v.activity ≠ .pausing) :
    t.posts = s.posts ∧ t.world.target = s.world.target := by
  have hanswer : ∀ {since : Instant} {reply : Reply} {h : History}, s.LinesNow h →
      t.past = h ++ answerOf run deadline s v since reply :: s.past → t.posts = s.posts := by
    intro since reply h hlines hpast
    have hreply : ({ s with past := answerOf run deadline s v since reply :: s.past } :
        GroupState σ).posts = s.posts := by
      simp [posts, History.posts, answerOf]
    exact (posts_of_lines hpast fun e he => (hlines e he).1).trans hreply
  cases ha with
  | called hpausing => exact absurd hpausing hv
  | responded _ _ hworld _ _ hlines hpast =>
    exact ⟨hanswer hlines hpast, by rw [hworld, World.receive_target]⟩
  | failed _ _ _ _ hworld _ _ hlines hpast =>
    exact ⟨hanswer hlines hpast, by rw [hworld, World.receive_target]⟩
  | ended _ _ _ hworld _ _ hlines hpast =>
    exact ⟨hanswer hlines hpast, by rw [hworld, World.receive_target]⟩
  | panicked _ _ hworld _ _ hpast =>
    exact ⟨hanswer (h := []) (by simp [LinesNow]) hpast, by rw [hworld, World.receive_target]⟩

theorem call_retarget {x : τ} (h : Reply.Alike (run.caller v)
    (env.target.post run.call s.world.target).1 (env'.target.post run.call x).1) :
    (s.retarget x).call env' run v =
      (s.call env run v).retarget (env'.target.post run.call x).2 := by
  have hreply : (env'.target.post run.call x).1 = (env.target.post run.call s.world.target).1 := h.eq
  unfold call
  simp only [World.post, retarget_world, World.retarget_target, hreply]
  rfl

theorem act_mirrors (env : Environment σ) (env' : Environment τ) (run : GroupRun)
    (deadline : Option Instant) (hp : s.Paced) (v : Worker) :
    Mirrors env env' s (s.act env run deadline v) fun x y =>
      (s.retarget x).act env' run deadline v = (s.act env run deadline v).retarget y := by
  cases hv : v.activity with
  | pausing =>
    simp only [act, hv]
    refine ⟨[(run.caller v, run.call)], by simp [posts, call, put, note, History.posts],
      (Lockstep.call env.target env'.target s.world.target (run.caller v) run.call).mono ?_⟩
    rintro x y ⟨hreply, rfl⟩
    exact call_retarget hreply
  | awaiting since reply =>
    obtain ⟨hposts, htarget⟩ := (act_acts env run deadline hp v).1.idle (by simp [hv])
    refine .idle hposts htarget fun x => ?_
    simp only [act, hv, receive_retarget]

theorem step_mirrors (hturns : env'.turns = env.turns) (hp : s.Paced) :
    Mirrors env env' s (s.step env run deadline) fun x y =>
      (s.retarget x).step env' run deadline = (s.step env run deadline).retarget y := by
  cases hdue : s.nextDue? with
  | none =>
    simp only [step, retarget_nextDue?, hdue]
    exact .idle rfl rfl fun _ => rfl
  | some due =>
    obtain ⟨hposts, htarget⟩ := advance_posts hp run due
    obtain ⟨-, -, -, -, -, -, hpaced⟩ := advance_eq hp run due
    have hturn : ∀ x, ((s.advance run due).retarget x).turn? env' due =
        (s.advance run due).turn? env due := fun x => by rw [turn?, hturns]; rfl
    simp only [step, retarget_nextDue?, hdue, advance_retarget, hturn]
    cases (s.advance run due).turn? env due with
    | none => exact .idle hposts htarget fun _ => rfl
    | some v =>
      obtain ⟨p, hp, hlockstep⟩ := act_mirrors (s := s.turnAt run due) env env' run deadline hpaced v
      refine ⟨p, hp.trans (congrArg (· ++ p) hposts), ?_⟩
      rw [← htarget]
      exact hlockstep

theorem play_mirrors (hturns : env'.turns = env.turns) (hp : s.Paced) {n : Nat}
    (h : s.play env run deadline n = some t) :
    Mirrors env env' s t fun x y =>
      (s.retarget x).play env' run deadline n = some (t.retarget y) := by
  have hsettles : ∀ {s : GroupState σ}, s.Paced → s.settled? run deadline = some t →
      t.posts = s.posts ∧ t.world.target = s.world.target := by
    intro s hp hsettled
    rcases settled_cases hsettled with ⟨-, rfl⟩ | ⟨stop, -, -, -, -, rfl⟩
    · exact ⟨rfl, rfl⟩
    · exact advance_posts hp run stop
  induction n generalizing s with
  | zero =>
    obtain ⟨hposts, htarget⟩ := hsettles hp h
    refine .idle hposts htarget fun x => ?_
    have hsettled : s.settled? run deadline = some t := h
    rw [play, settled?_retarget, hsettled, Option.map_some]
  | succ n ih =>
    rw [play] at h
    cases hsettled : s.settled? run deadline with
    | some u =>
      rw [hsettled] at h
      cases h
      obtain ⟨hposts, htarget⟩ := hsettles hp hsettled
      refine .idle hposts htarget fun x => ?_
      rw [play, settled?_retarget, hsettled, Option.map_some]
    | none =>
      rw [hsettled] at h
      obtain ⟨-, -, -, -, -, hpaced⟩ := step_cases env hp hsettled
      obtain ⟨p, hp, hfirst⟩ := step_mirrors hturns hp
      obtain ⟨q, hq, hrest⟩ := ih hpaced h
      refine ⟨p ++ q, by rw [hq, hp, List.append_assoc], (hfirst.trans hrest).mono ?_⟩
      rintro x z ⟨y, hstep, hplay⟩
      rw [play, settled?_retarget, hsettled, Option.map_none, hstep]
      exact hplay

end GroupState

def GroupOutcome.retarget (out : GroupOutcome σ) (x : τ) : GroupOutcome τ :=
  ⟨out.exit, out.stats, out.history, out.world.retarget x⟩

/-- A group's work is the same for every target that answers its calls alike. -/
theorem GroupRun.perform_lockstep {env : Environment σ} {env' : Environment τ}
    (hturns : env'.turns = env.turns) {turns : Nat} {run : GroupRun} {outer : Option Instant}
    {w : World σ} {stats : Statistics} {out : GroupOutcome σ}
    (h : run.perform env turns outer w stats = some out) :
    Lockstep env.target env'.target w.target out.history.posts out.world.target fun x y =>
      run.perform env' turns outer (w.retarget x) stats = some (out.retarget y) := by
  have hpaced : (GroupState.startOf run w stats).Paced := (GroupState.sound_start run w stats).paced
  unfold perform at h ⊢
  dsimp only at h ⊢
  split at h
  · cases h
  · next s hplay =>
    obtain ⟨p, hp, hlockstep⟩ := GroupState.play_mirrors hturns hpaced hplay
    have hwrites := GroupState.writes_conclude run (w.within outer run.duration) s
    obtain ⟨lines, hpast, hlines⟩ := hwrites.past
    have hposts : History.posts (s.conclude run (w.within outer run.duration)).2.past.reverse = p := by
      have hconclude := GroupState.posts_of_lines hpast fun e he => (hlines e he).1
      exact hconclude.trans hp
    rw [← hwrites.world] at hlockstep
    cases h
    dsimp only
    rw [hposts]
    refine hlockstep.mono fun x y hplay' => ?_
    have hstart : ((GroupState.start run (w.retarget x) stats).log
        (.workersStarting run.name run.instances run.duration run.delay)) =
        (GroupState.startOf run w stats).retarget x := rfl
    rw [hstart, World.within_retarget, hplay']
    simp only [GroupState.conclude_retarget]
    rfl

end PhasedLoad
