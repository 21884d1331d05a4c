import PhasedLoad.Proofs.Group.Moves
import PhasedLoad.Target.Script

/-! What becomes of the responses of workers that break down: the counters have them, and the
histogram of their statuses does not. -/

namespace PhasedLoad

theorem ofNat_inj_of_le {m n : Nat} (hmn : m ≤ n) (hn : n < 2 ^ 64)
    (h : UInt64.ofNat m = .ofNat n) : m = n := by
  have hnat := congrArg UInt64.toNat h
  rwa [UInt64.toNat_ofNat_of_lt' (Nat.lt_of_le_of_lt hmn hn), UInt64.toNat_ofNat_of_lt' hn] at hnat

namespace History

variable {who : Caller} {h h' : History} {e : Entry}

/-- The entry is about someone who breaks down in this history. -/
def isOfBroken (h : History) (e : Entry) : Bool :=
  e.event.who?.any fun who => breaksDown (timeline who h)

/-- A history without all that is about workers that break down in it. -/
def kept (h : History) : History := h.filter fun e => !h.isOfBroken e

theorem answers_filter_add (p : Nat → Bool) (q : Entry → Bool) (h : History) :
    answers p (h.filter q) + answers p (h.filter fun e => !q e) = answers p h := by
  have hcount : ∀ l : History,
      answers p l = l.countP fun e => e.event.response?.any fun r => p r.2.status := by
    intro l
    rw [answers, responses, List.countP_filterMap]
    refine List.countP_congr fun e _ => ?_
    cases e.event.response? <;> simp
  rw [hcount, hcount, hcount, ← List.countP_eq_countP_filter_add]

theorem kept_append (hsame : ∀ who, breaksDown (timeline who h') = false) :
    kept (h ++ h') = kept h ++ h'.filter fun e => !isOfBroken h e := by
  have hof : isOfBroken (h ++ h') = isOfBroken h := by
    funext e
    simp [isOfBroken, hsame]
  rw [kept, hof, List.filter_append, ← kept]

theorem kept_of_lines (hh : ∀ e ∈ h', e.event.isLine = true) : kept (h ++ h') = kept h ++ h' := by
  rw [kept_append fun who => by rw [timeline_of_lines hh]; rfl]
  congr 1
  refine List.filter_eq_self.mpr fun e he => ?_
  simp [isOfBroken, Event.who?_of_isLine (hh e he)]

theorem kept_of_healthy (hwho : e.event.who? = some who)
    (hh : breaksDown (timeline who h) = false) (he : e.event.isBreakdown = false) :
    kept (h ++ [e]) = kept h ++ [e] := by
  rw [kept_append]
  · simp [isOfBroken, hwho, hh]
  · intro who
    rw [timeline_singleton]
    split
    · simpa using he
    · rfl

/-- With a breakdown goes everything that its worker did. -/
theorem kept_of_breakdown (hwho : e.event.who? = some who) (he : e.event.isBreakdown = true) :
    kept (h ++ [e]) = (kept h).filter fun d => !decide (d.event.who? = some who) := by
  have hof : ∀ d : Entry,
      isOfBroken (h ++ [e]) d = (decide (d.event.who? = some who) || isOfBroken h d) := by
    intro d
    cases hd : d.event.who? with
    | none => simp [isOfBroken, hd]
    | some other =>
      by_cases hother : other = who
      · simp [isOfBroken, hd, hother, timeline_singleton, hwho, he]
      · simp [isOfBroken, hd, hother, timeline_singleton, hwho, Ne.symm hother, breaksDown]
  simp only [kept, hof, List.filter_append, List.filter_filter, Bool.not_or]
  simp [hwho]

theorem answers_kept_of_breakdown (hwho : e.event.who? = some who)
    (he : e.event.isBreakdown = true) (hh : breaksDown (timeline who h) = false)
    (p : Nat → Bool) :
    answers p (timeline who h) + answers p (kept (h ++ [e])) = answers p (kept h) := by
  have htimeline : timeline who h =
      (kept h).filter fun d => decide (d.event.who? = some who) := by
    rw [kept, List.filter_filter]
    refine List.filter_congr fun d _ => ?_
    by_cases hd : d.event.who? = some who <;> simp [isOfBroken, hd, hh]
  rw [kept_of_breakdown hwho he, htimeline, answers_filter_add]

end History

/-- What a turn of worker `v` with entry `e`, from group `s` to group `t`, makes of its statuses. -/
inductive Worker.Hands {σ : Type} (s t : GroupState σ) (v : Worker) (e : Entry) :
    Option Worker → Prop
  | keeps {u : Worker} (healthy : e.event.isBreakdown = false) (stats : t.stats.codes = s.stats.codes)
      (number : u.number = v.number)
      (codes : ∀ p, u.codes.weight p = v.codes.weight p + .ofNat (History.answers p [e])) :
      Hands s t v e (some u)
  | handsIn (healthy : e.event.isBreakdown = false)
      (stats : ∀ p, t.stats.codes.weight p = s.stats.codes.weight p + v.codes.weight p)
      (silent : ∀ p, History.answers p [e] = 0) : Hands s t v e none
  | loses (broken : e.event.isBreakdown = true) (stats : t.stats.codes = s.stats.codes) :
      Hands s t v e none

namespace GroupState

variable {σ : Type} {env : Environment σ} {run : GroupRun} {deadline : Option Instant}
  {s t s₀ : GroupState σ} {v : Worker}

theorem Acts.hands (ha : Acts env run deadline s v t) (hnodup : s.numbers.Nodup)
    (hv : v ∈ s.workers) :
    ∃ e v' l r lines, v.Hands s t e v' ∧ e.event.who? = some (run.caller v) ∧
      s.workers = l ++ v :: r ∧ (∀ u ∈ l ++ r, u.number ≠ v.number) ∧
      t.workers = l ++ (v'.toList ++ r) ∧ t.past = lines ++ e :: s.past ∧ s.LinesNow lines := by
  obtain ⟨l, r, hsplit, hothers, hput, hdrop⟩ := exists_split hnodup hv
  cases ha with
  | called _ _ hstats hworkers hpast =>
    have ht := hworkers.trans (hput _ rfl)
    refine ⟨_, some _, l, r, [], ?_, rfl, hsplit, hothers, ht, hpast, by simp [LinesNow]⟩
    exact .keeps rfl (by rw [hstats]) rfl (by simp [History.answers, Event.response?])
  | @responded since reply response lines _ hreply _ hstats hworkers hlines hpast =>
    have ht := hworkers.trans (hput _ rfl)
    refine ⟨_, some _, l, r, lines, ?_, rfl, hsplit, hothers, ht, hpast, hlines⟩
    refine .keeps (by simp [hreply]) (by rw [hstats, recordResponse_codes]) rfl fun p => ?_
    by_cases hp : p response.status <;>
      simp [Histogram.weight_add, History.answers, hreply, hp]
  | @failed since reply f lines _ hreply _ _ _ hstats hworkers hlines hpast =>
    have ht := hworkers.trans (hput _ rfl)
    refine ⟨_, some _, l, r, lines, ?_, rfl, hsplit, hothers, ht, hpast, hlines⟩
    exact .keeps (by simp [hreply]) (by rw [hstats]; rfl) rfl
      (by simp [History.answers, hreply])
  | @ended since reply f lines _ hreply _ _ hstats hworkers hlines hpast =>
    refine ⟨_, none, l, r, lines, .handsIn (by simp [hreply]) ?_
      (by simp [History.answers, hreply]), rfl, hsplit, hothers, hworkers.trans hdrop, hpast,
      hlines⟩
    intro p
    rw [hstats, Statistics.mergeCodes, Histogram.weight_merge]
  | @panicked since reply text _ hreply _ hstats hworkers hpast =>
    exact ⟨_, none, l, r, [], .loses (by simp [hreply]) (by rw [hstats]), rfl, hsplit, hothers,
      hworkers.trans hdrop, hpast, by simp [LinesNow]⟩

end GroupState

/-- A worker that did what is in `h` has not broken down, and still has the statuses that came back
to it. -/
structure Worker.Holds (v : Worker) (h : History) : Prop where
  healthy : h.breaksDown = false
  codes : ∀ p, v.codes.weight p = .ofNat (h.answers p)

theorem Worker.Hands.holds {σ : Type} {s t : GroupState σ} {v u : Worker} {e : Entry}
    {h : History} (hhands : v.Hands s t e (some u)) (hv : v.Holds h) : u.Holds (h ++ [e]) := by
  cases hhands with
  | keeps healthy _ _ codes =>
    refine ⟨by simp [hv.healthy, healthy], fun p => ?_⟩
    rw [codes, hv.codes, History.answers_append, UInt64.ofNat_add]

namespace GroupState

variable {σ : Type} {env : Environment σ} {run : GroupRun} {deadline : Option Instant}
  {s t s₀ : GroupState σ} {v : Worker}

/-- A group at work since state `s₀`: the statuses that came back, handed in or not, are those of
workers that did not break down. -/
structure Keeping (run : GroupRun) (s₀ s : GroupState σ) : Prop where
  roster : Roster run s
  holds : ∀ v ∈ s.workers, v.Holds (History.timeline (run.caller v) s.past.reverse)
  weight : ∀ p, s.weight p = s₀.weight p + .ofNat (History.answers p (History.kept s.past.reverse))

theorem keeping_start (run : GroupRun) (w : World σ) (stats : Statistics) :
    Keeping run (startOf run w stats) (startOf run w stats) where
  roster := roster_start run w stats
  holds := by
    intro v hv
    obtain ⟨i, -, rfl⟩ := List.mem_map.mp hv
    exact ⟨rfl, fun p => rfl⟩
  weight := by
    intro p
    have hkept : History.answers p (History.kept (startOf run w stats).past.reverse) = 0 := rfl
    rw [hkept]
    exact (UInt64.add_zero _).symm

theorem Keeping.of_lines {lines : History} (hs : Keeping run s₀ s) (ht : Roster run t)
    (hstats : t.stats = s.stats) (hworkers : t.workers = s.workers)
    (hlines : ∀ e ∈ lines, e.event.isLine = true)
    (hpast : t.past.reverse = s.past.reverse ++ lines) : Keeping run s₀ t where
  roster := ht
  holds := by
    intro u hu
    rw [hpast, History.timeline_append, History.timeline_of_lines hlines, List.append_nil]
    exact hs.holds u (hworkers ▸ hu)
  weight := by
    intro p
    have hnone : History.answers p lines = 0 := by
      simp [History.answers, (History.noWork_of_lines hlines).responses]
    rw [hpast, History.kept_of_lines hlines, History.answers_append, hnone, Nat.add_zero,
      ← hs.weight p, GroupState.weight, GroupState.weight, hstats, hworkers]

/-- With a turn, the statuses of its worker are kept, or are all gone with its breakdown. -/
theorem Keeping.weight_turn {e : Entry} {v' : Option Worker} {l r : List Worker}
    (hs : Keeping run s₀ s) (hhands : v.Hands s t e v') (hwho : e.event.who? = some (run.caller v))
    (hsplit : s.workers = l ++ v :: r) (hworkers : t.workers = l ++ (v'.toList ++ r))
    (p : Nat → Bool) :
    t.weight p =
      s₀.weight p + .ofNat (History.answers p (History.kept (s.past.reverse ++ [e]))) := by
  obtain ⟨hhealthy, hcodes⟩ := hs.holds v (by simp [hsplit])
  have hbefore : s.stats.codes.weight p + (v.codes.weight p + (held p l + held p r)) =
      s₀.weight p + .ofNat (History.answers p (History.kept s.past.reverse)) := by
    rw [← hs.weight p, GroupState.weight, hsplit, held_append, held_cons]
    ac_rfl
  rw [GroupState.weight, hworkers, held_append, held_append]
  cases hhands with
  | @keeps u healthy stats _ codes =>
    have hu : held p (some u).toList = v.codes.weight p + .ofNat (History.answers p [e]) := by
      simp [held, codes]
    rw [History.kept_of_healthy hwho hhealthy healthy, History.answers_append, UInt64.ofNat_add,
      stats, hu]
    calc _ = s.stats.codes.weight p + (v.codes.weight p + (held p l + held p r)) +
          .ofNat (History.answers p [e]) := by ac_rfl
      _ = _ := by rw [hbefore, UInt64.add_assoc]
  | handsIn healthy stats silent =>
    rw [History.kept_of_healthy hwho hhealthy healthy, History.answers_append, silent p,
      Nat.add_zero, ← hbefore, stats p]
    simp only [Option.toList_none, held, List.foldr_nil, UInt64.zero_add]
    ac_rfl
  | loses broken stats =>
    have hlost := History.answers_kept_of_breakdown hwho broken hhealthy p
    rw [← hlost, UInt64.ofNat_add, ← hcodes p] at hbefore
    rw [stats]
    have hcancel : v.codes.weight p + (s.stats.codes.weight p + (held p l + held p r)) =
        v.codes.weight p + (s₀.weight p +
          .ofNat (History.answers p (History.kept (s.past.reverse ++ [e])))) := by
      calc _ = _ := by ac_rfl
        _ = _ := hbefore
        _ = _ := by ac_rfl
    simpa [held] using UInt64.add_right_inj _ |>.mp hcancel

theorem Keeping.acts (hs : Keeping run s₀ s) (ha : Acts env run deadline s v t)
    (hv : v ∈ s.workers) (ht : Roster run t) : Keeping run s₀ t := by
  obtain ⟨e, v', l, r, lines, hhands, hwho, hsplit, hothers, hworkers, hpast, hnow⟩ :=
    ha.hands hs.roster.nodup hv
  have hlines : ∀ d ∈ lines.reverse, d.event.isLine = true := fun d hd =>
    (hnow d (List.mem_reverse.mp hd)).1
  have hpast' : t.past.reverse = s.past.reverse ++ [e] ++ lines.reverse := by simp [hpast]
  have htimeline : ∀ who, History.timeline who t.past.reverse =
      History.timeline who s.past.reverse ++ History.timeline who [e] := by
    intro who
    rw [hpast', History.timeline_append, History.timeline_append,
      History.timeline_of_lines hlines, List.append_nil]
  refine ⟨ht, ?_, ?_⟩
  · intro u hu
    rw [htimeline, History.timeline_singleton, hwho]
    rw [hworkers, List.mem_append, List.mem_append, Option.mem_toList] at hu
    by_cases hu' : u ∈ v'
    · have hown : u.Holds (History.timeline (run.caller v) s.past.reverse ++ [e]) :=
        (Option.mem_def.mp hu' ▸ hhands).holds (hs.holds v hv)
      have hcaller : run.caller u = run.caller v := by
        rw [Option.mem_def.mp hu'] at hhands
        cases hhands with
        | keeps _ _ number _ => rw [GroupRun.caller, GroupRun.caller, number]
      rwa [hcaller, if_pos rfl]
    · have hother : u ∈ l ∨ u ∈ r := hu.imp_right fun hu => hu.resolve_left hu'
      have hne := hothers u (List.mem_append.mpr hother)
      rw [if_neg (by simp [GroupRun.caller, Ne.symm hne]), List.append_nil]
      refine hs.holds u ?_
      rw [hsplit, List.mem_append, List.mem_cons]
      exact hother.imp_right .inr
  · intro p
    have hnone : History.answers p lines.reverse = 0 := by
      simp [History.answers, (History.noWork_of_lines hlines).responses]
    rw [hpast', History.kept_of_lines hlines, History.answers_append, hnone, Nat.add_zero]
    exact hs.weight_turn hhands hwho hsplit hworkers p

theorem Keeping.advance (hs : Keeping run s₀ s) (due : Instant) :
    Keeping run s₀ (s.advance run due) := by
  obtain ⟨h, reporter, broken, heq, hlines, -⟩ := advance_eq hs.roster.paced run due
  have hreverse : ∀ e ∈ h.reverse, e.event.isLine = true := fun e he =>
    hlines e (List.mem_reverse.mp he)
  exact hs.of_lines (hs.roster.advance due) (by rw [heq]) (by rw [heq]) hreverse (by simp [heq])

theorem Keeping.step (env : Environment σ) (hs : Keeping run s₀ s)
    (h : s.settled? run deadline = none) : Keeping run s₀ (s.step env run deadline) := by
  obtain ⟨v, hv, -, -, hacts, -⟩ := step_cases env hs.roster.paced h
  have hadvance := hs.advance v.due
  have hturn : Keeping run s₀ (s.turnAt run v.due) :=
    ⟨⟨hadvance.roster.paced, hadvance.roster.nodup, hadvance.roster.has, hadvance.roster.owns⟩,
      hadvance.holds, hadvance.weight⟩
  refine hturn.acts hacts ?_ (hs.roster.step env h)
  rwa [← advance_workers hs.roster.paced run v.due] at hv

end GroupState

/-- Whoever breaks down had got no response. -/
def History.LosesNothing (h : History) : Prop :=
  ∀ who, breaksDown (timeline who h) = true → responses (timeline who h) = []

namespace History

variable {h : History}

theorem losesNothing_iff : LosesNothing h ↔ responses (h.filter h.isOfBroken) = [] := by
  constructor
  · intro hlose
    refine List.filterMap_eq_nil_iff.mpr fun e he => ?_
    obtain ⟨hmem, hof⟩ := List.mem_filter.mp he
    obtain ⟨who, hwho, hbreaks⟩ := (Option.any_eq_true _ _).mp hof
    exact List.filterMap_eq_nil_iff.mp (hlose who hbreaks) e
      (List.mem_filter.mpr ⟨hmem, by simpa using hwho⟩)
  · intro hnone who hbreaks
    refine List.filterMap_eq_nil_iff.mpr fun e he => ?_
    obtain ⟨hmem, hwho⟩ := List.mem_filter.mp he
    exact List.filterMap_eq_nil_iff.mp hnone e
      (List.mem_filter.mpr ⟨hmem, by simp [isOfBroken, of_decide_eq_true hwho, hbreaks]⟩)

theorem losesNothing_of_answers (hsame : ∀ status, answers (· == status) (kept h) =
    answers (· == status) h) : LosesNothing h := by
  refine losesNothing_iff.mpr (List.eq_nil_iff_forall_not_mem.mpr fun r hr => ?_)
  have hsplit := answers_filter_add (· == r.2.status) h.isOfBroken h
  have hzero : answers (· == r.2.status) (h.filter h.isOfBroken) = 0 := by
    have hkept := hsame r.2.status
    rw [kept] at hkept
    omega
  simpa using List.countP_eq_zero.mp hzero r hr

theorem LosesNothing.answers_kept (hh : LosesNothing h) (p : Nat → Bool) :
    answers p (kept h) = answers p h := by
  have hsplit := answers_filter_add p h.isOfBroken h
  rw [answers, losesNothing_iff.mp hh] at hsplit
  simpa [kept] using hsplit

theorem answers_kept_le (p : Nat → Bool) (h : History) : answers p (kept h) ≤ answers p h := by
  have hsplit := answers_filter_add p h.isOfBroken h
  rw [kept]
  omega

theorem answers_le_length (p : Nat → Bool) (h : History) : answers p h ≤ h.responses.length :=
  List.countP_le_length

theorem answers_all (h : History) : answers (fun _ => true) h = h.responses.length := by
  simp [answers]

theorem losesNothing_of_length (hsame : (kept h).responses.length = h.responses.length) :
    LosesNothing h := by
  refine losesNothing_iff.mpr (List.length_eq_zero_iff.mp ?_)
  have hsplit := answers_filter_add (fun _ => true) h.isOfBroken h
  rw [answers_all, answers_all, answers_all] at hsplit
  rw [kept] at hsame
  omega

end History

namespace GroupRun

variable {σ : Type} {env : Environment σ} {turns : Nat} {run : GroupRun} {outer : Option Instant}
  {w : World σ} {stats : Statistics} {out : GroupOutcome σ}

open GroupState

theorem perform_weight (h : run.perform env turns outer w stats = some out) (p : Nat → Bool) :
    out.stats.codes.weight p =
      stats.codes.weight p + .ofNat (History.answers p (History.kept out.history)) := by
  obtain ⟨u, lines, hu, hhistory, hlines, hstats⟩ :=
    perform_induction (P := Keeping run (startOf run w stats)) (keeping_start run w stats)
      (fun _ hs hn => hs.step env hn) (fun _ due hs => hs.advance due) h
  have hidle : History.answers p lines = 0 := by
    simp [History.answers, (History.noWork_of_lines hlines).responses]
  have hmerge : out.stats.codes.weight p = u.weight p := by
    rw [hstats]
    exact (mergeAll u.workers u.stats).2.1 p
  have hstart : (startOf run w stats).weight p = stats.codes.weight p := by
    rw [weight, held_startOf, UInt64.add_zero]
    rfl
  rw [hmerge, hu.weight p, hstart, hhistory, History.kept_of_lines hlines,
    History.answers_append, hidle, Nat.add_zero]

/-- A group counts every response as a request, but its histogram has the statuses of those alone
that came back to workers that did not break down. So the histogram sums up to the requests, and has
as many of each status as there were responses with it, exactly if no worker had got a response
before it broke down. -/
theorem perform_loses_statuses (h : run.perform env turns outer w stats = some out)
    (hascending : stats.codes.Ascending) :
    out.stats.counters.requests =
      stats.counters.requests + .ofNat out.history.responses.length ∧
    (∀ status, out.stats.codes.count status = stats.codes.count status +
      .ofNat (History.answers (· == status) (History.kept out.history))) ∧
    (out.history.responses.length < 2 ^ 64 →
      ((∀ status, out.stats.codes.count status = stats.codes.count status +
          .ofNat (History.answers (· == status) out.history)) ↔ out.history.LosesNothing) ∧
      (stats.codes.total = stats.counters.requests →
        (out.stats.codes.total = out.stats.counters.requests ↔ out.history.LosesNothing))) := by
  obtain ⟨⟨hcounts, -, hmore⟩, -⟩ := perform_tallies h
  have hcount : ∀ status, out.stats.codes.count status = stats.codes.count status +
      .ofNat (History.answers (· == status) (History.kept out.history)) := by
    intro status
    rw [(hmore hascending).count_eq_weight, hascending.count_eq_weight]
    exact perform_weight h _
  refine ⟨hcounts.requests, hcount, fun hlt => ⟨⟨fun hall => ?_, fun hnothing status => ?_⟩,
    fun htotal => ⟨fun hsum => ?_, fun hnothing => ?_⟩⟩⟩
  · refine History.losesNothing_of_answers fun status => ?_
    have hle := History.answers_le_length (· == status) out.history
    refine ofNat_inj_of_le (History.answers_kept_le _ _) (by omega) ?_
    exact (UInt64.add_right_inj _).mp ((hcount status).symm.trans (hall status))
  · rw [hcount, hnothing.answers_kept]
  · refine History.losesNothing_of_length ?_
    rw [Histogram.total, perform_weight h, ← Histogram.total, htotal, hcounts.requests,
      ← History.answers_all out.history] at hsum
    have hle := History.answers_kept_le (fun _ => true) out.history
    rw [← History.answers_all, ← History.answers_all]
    rw [← History.answers_all] at hlt
    exact ofNat_inj_of_le hle hlt ((UInt64.add_right_inj _).mp hsum)
  · rw [Histogram.total, perform_weight h, ← Histogram.total, htotal, hcounts.requests,
      hnothing.answers_kept, History.answers_all]

/-- One worker, at a target that succeeds once and then breaks it down. -/
def shortLived : GroupRun :=
  ⟨⟨"load", 1⟩, 1, .ofSecs 1, .ofMillis 100, .ofSecs 1, "ping", .ofSecs 60⟩

def failing : Target.Script := .ofRules [⟨"ping".toList,
  [.ofResponse (.ofMillis 10) 200 [], ⟨.ofMillis 10, false, .panic "boom"⟩]⟩]

theorem shortLived_loses_status :
    ∃ out, shortLived.perform (.orderly Target.scripted) 20 none (.start failing none) .empty =
        some out ∧
      ¬ out.history.LosesNothing ∧ out.stats.counters.requests = 1 ∧
      out.stats.codes.count 200 = 0 := by
  have hcheck : (shortLived.perform (.orderly Target.scripted) 20 none (.start failing none)
      .empty).map (fun out => (out.stats.counters, out.stats.codes, out.history.responses.length)) =
        some (⟨1, 0, 10000⟩, [], 1) := by
    decide +kernel
  obtain ⟨out, hperform, hout⟩ := Option.map_eq_some_iff.mp hcheck
  simp only [Prod.mk.injEq] at hout
  obtain ⟨hcounters, hcodes, hlength⟩ := hout
  obtain ⟨-, -, hiff⟩ := perform_loses_statuses hperform List.Pairwise.nil
  have hsum : ¬ out.stats.codes.total = out.stats.counters.requests := by
    rw [hcodes, hcounters]
    decide
  exact ⟨out, hperform, fun hnothing => hsum (((hiff (by omega)).2 rfl).mpr hnothing),
    by rw [hcounters], by rw [hcodes]; rfl⟩

/-- The statuses of a group do not always sum up to its requests. -/
theorem shortLived_statuses_below_requests :
    ∃ out, shortLived.perform (.orderly Target.scripted) 20 none (.start failing none) .empty =
        some out ∧
      (out.stats.codes.total ≠ out.stats.counters.requests ∧
        out.stats.codes.count 200 ≠ .ofNat (History.answers (· == 200) out.history)) := by
  have hcheck : (shortLived.perform (.orderly Target.scripted) 20 none (.start failing none)
      .empty).any (fun out => out.stats.codes.total != out.stats.counters.requests &&
        out.stats.codes.count 200 != .ofNat (History.answers (· == 200) out.history)) = true := by
    decide +kernel
  obtain ⟨out, hperform, hout⟩ := (Option.any_eq_true _ _).mp hcheck
  exact ⟨out, hperform, by simpa using hout⟩

end GroupRun

end PhasedLoad
