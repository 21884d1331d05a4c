import Mathlib.Data.List.TakeWhile
import PhasedLoad.Proofs.Ready

/-! Which plans are accepted and what is made of them. A plan is refused for its first group, phase
by phase, that cannot work or is not allowed to work as long as it asks; else its defaults are
filled in and nothing else is changed, so that a normal plan is left as it is. -/

namespace PhasedLoad

/-! Items that are checked one by one, each with its number. -/

section Each

variable {α β ε : Type} {check : Nat → α → Except ε β} {n : Nat} {xs before after : List α} {x : α}

/-- The results for all items, the first at number `n`, or the first error. -/
def eachFrom (check : Nat → α → Except ε β) : Nat → List α → Except ε (List β)
  | _, [] => .ok []
  | n, x :: xs => do
    let y ← check n x
    let ys ← eachFrom check (n + 1) xs
    return y :: ys

theorem eachFrom_of_ok {f : Nat → α → β} (h : ∀ x ∈ xs, ∀ n, check n x = .ok (f n x)) :
    eachFrom check n xs = .ok (xs.mapIdx fun i x => f (n + i) x) := by
  induction xs generalizing n with
  | nil => rfl
  | cons x xs ih =>
    have hshift : (fun i x => f (n + 1 + i) x) = fun i x => f (n + (i + 1)) x := by
      funext i x
      rw [Nat.add_right_comm, Nat.add_assoc]
    rw [eachFrom, h x List.mem_cons_self, ih fun y hy => h y (List.mem_cons_of_mem x hy),
      List.mapIdx_cons, hshift]
    rfl

theorem eachFrom_of_error {e : ε} (hbefore : ∀ x ∈ before, ∀ n, ∃ y, check n x = .ok y)
    (h : check (n + before.length) x = .error e) :
    eachFrom check n (before ++ x :: after) = .error e := by
  induction before generalizing n with
  | nil =>
    rw [List.nil_append, eachFrom, show check n x = .error e from h]
    rfl
  | cons z before ih =>
    obtain ⟨y, hy⟩ := hbefore z List.mem_cons_self n
    rw [List.cons_append, eachFrom, hy,
      ih (fun x hx => hbefore x (List.mem_cons_of_mem z hx))
        (by rwa [List.length_cons, Nat.add_comm before.length, ← Nat.add_assoc] at h)]
    rfl

theorem forall_or_exists_first (p : α → Prop) (xs : List α) :
    (∀ x ∈ xs, p x) ∨
      ∃ before x after, xs = before ++ x :: after ∧ (∀ y ∈ before, p y) ∧ ¬ p x := by
  induction xs with
  | nil => exact .inl (by simp)
  | cons x xs ih =>
    by_cases hx : p x
    · rcases ih with hall | ⟨before, y, after, rfl, hbefore, hy⟩
      · exact .inl (List.forall_mem_cons.mpr ⟨hx, hall⟩)
      · exact .inr ⟨x :: before, y, after, rfl, List.forall_mem_cons.mpr ⟨hx, hbefore⟩, hy⟩
    · exact .inr ⟨[], x, xs, rfl, by simp, hx⟩

end Each

theorem Duration.isZero_iff_eq {d : Duration} : d.isZero = true ↔ d = .zero := by
  rw [isZero_iff, Duration.ext_iff, zero_nanos]

theorem Text.trim_eq_nil_iff {cs : List Char} : trim cs = [] ↔ cs.all isBlank = true := by
  have hkept := List.takeWhile_append_dropWhile (p := isBlank) (l := cs)
  rw [trim, trimEnd, List.reverse_eq_nil_iff, List.dropWhile_eq_nil_iff, List.all_eq_true]
  simp only [List.mem_reverse, trimStart]
  constructor
  · intro h c hc
    rw [← hkept, List.mem_append] at hc
    exact hc.elim (fun hc => List.mem_takeWhile_imp hc) (h c)
  · exact fun h c hc => h c ((List.dropWhile_sublist isBlank).subset hc)

namespace WorkerGroup

variable {limits : Limits} {g : WorkerGroup} {phase worker : Nat} {f : Fault}

/-- It asks for a length, and not for one that is allowed. -/
def OutOfRange (limits : Limits) (g : WorkerGroup) : Prop :=
  g.duration ≠ .zero ∧ ¬ (limits.minPhase ≤ g.duration ∧ g.duration ≤ limits.maxPhase)

/-- Its work is over before it sends a request. -/
def Unschedulable (limits : Limits) (g : WorkerGroup) : Prop := g.effectiveDuration limits ≤ g.delay

def Fits (limits : Limits) (g : WorkerGroup) : Prop :=
  ¬ g.OutOfRange limits ∧ ¬ g.Unschedulable limits

/-- What is wrong with a group at its place; a length that is not allowed comes first. -/
inductive Offends (limits : Limits) (phase worker : Nat) (g : WorkerGroup) : Fault → Prop
  | outOfRange (h : g.OutOfRange limits) : Offends limits phase worker g
      (.durationOutOfRange phase worker g.duration limits.minPhase limits.maxPhase)
  | unschedulable (hrange : ¬ g.OutOfRange limits) (h : g.Unschedulable limits) :
      Offends limits phase worker g
        (.unschedulable phase worker g.delay (g.effectiveDuration limits))

/-- The group with the shortest length and the usual time to wait where it asks for none. -/
def filled (limits : Limits) (g : WorkerGroup) : WorkerGroup :=
  { g with
    duration := if g.duration = .zero then limits.minPhase else g.duration
    timeout := if g.timeout = .zero then .ofSecs 10 else g.timeout }

/-- A group that needs no default and can work. -/
structure Normal (limits : Limits) (g : WorkerGroup) : Prop where
  min_le : limits.minPhase ≤ g.duration
  le_max : g.duration ≤ limits.maxPhase
  delay_lt : g.delay < g.duration
  timeout_pos : .zero < g.timeout

theorem fits_or_offends (limits : Limits) (g : WorkerGroup) (phase worker : Nat) :
    g.Fits limits ∨ ∃ f, g.Offends limits phase worker f := by
  by_cases hrange : g.OutOfRange limits
  · exact .inr ⟨_, .outOfRange hrange⟩
  · by_cases hdelay : g.Unschedulable limits
    · exact .inr ⟨_, .unschedulable hrange hdelay⟩
    · exact .inl ⟨hrange, hdelay⟩

theorem Offends.unfit (h : g.Offends limits phase worker f) :
    g.OutOfRange limits ∨ g.Unschedulable limits := by
  cases h with
  | outOfRange h => exact .inl h
  | unschedulable _ h => exact .inr h

theorem outOfRange_iff : g.OutOfRange limits ↔
    ¬ g.duration.isZero ∧ (g.duration < limits.minPhase ∨ limits.maxPhase < g.duration) := by
  have hrange : ¬ (limits.minPhase ≤ g.duration ∧ g.duration ≤ limits.maxPhase) ↔
      g.duration < limits.minPhase ∨ limits.maxPhase < g.duration := by
    simp only [Duration.le_def, Duration.lt_def]
    omega
  rw [OutOfRange, hrange, Ne, ← Duration.isZero_iff_eq]

theorem filled_eq (limits : Limits) (g : WorkerGroup) : g.filled limits =
    { g with duration := g.effectiveDuration limits, timeout := g.effectiveTimeout } := by
  simp only [filled, effectiveDuration, effectiveTimeout, Duration.isZero_iff_eq, standardTimeout]

theorem normalize_of_fits (h : g.Fits limits) :
    g.normalize limits phase worker = .ok (g.filled limits) := by
  rw [filled_eq, normalize, if_neg ((not_congr outOfRange_iff).mp h.1)]
  exact if_neg h.2

theorem normalize_of_offends (h : g.Offends limits phase worker f) :
    g.normalize limits phase worker = .error f := by
  cases h with
  | outOfRange h => exact if_pos (outOfRange_iff.mp h)
  | unschedulable hrange h =>
    rw [normalize, if_neg ((not_congr outOfRange_iff).mp hrange)]
    exact if_pos h

theorem normal_filled (hlimits : limits.validate = .ok ()) (h : g.Fits limits) :
    (g.filled limits).Normal limits := by
  obtain ⟨-, hbounds⟩ := Limits.bounds_of_validate hlimits
  have hok : g.normalize limits 1 1 = .ok (g.filled limits) := normalize_of_fits h
  obtain ⟨hmin, hmax, hdelay⟩ := bounds_of_normalize hbounds hok
  refine ⟨hmin, hmax, hdelay, ?_⟩
  change Duration.zero < (if g.timeout = .zero then .ofSecs 10 else g.timeout)
  split
  · decide
  · next hset => exact Nat.pos_of_ne_zero fun hzero => hset (Duration.ext hzero)

namespace Normal

theorem duration_ne (hlimits : limits.validate = .ok ()) (h : g.Normal limits) :
    g.duration ≠ .zero := by
  intro hzero
  have hmin := Duration.le_def.mp h.min_le
  have hpos := (Limits.bounds_of_validate hlimits).1
  rw [hzero, Duration.zero_nanos] at hmin
  omega

theorem filled_eq (hlimits : limits.validate = .ok ()) (h : g.Normal limits) :
    g.filled limits = g := by
  have htimeout : g.timeout ≠ .zero := fun hzero => by
    have hpos := h.timeout_pos
    rw [hzero] at hpos
    exact absurd hpos (Nat.lt_irrefl _)
  rw [filled, if_neg (h.duration_ne hlimits), if_neg htimeout]

theorem fits (hlimits : limits.validate = .ok ()) (h : g.Normal limits) : g.Fits limits := by
  refine ⟨fun hrange => hrange.2 ⟨h.min_le, h.le_max⟩, fun hdelay => ?_⟩
  have heffective : g.effectiveDuration limits = g.duration := by
    rw [effectiveDuration, if_neg ((not_congr Duration.isZero_iff_eq).mpr (h.duration_ne hlimits))]
  rw [Unschedulable, heffective] at hdelay
  exact absurd h.delay_lt (Nat.not_lt_of_le hdelay)

end Normal

theorem normalizeAll_eq_eachFrom (limits : Limits) (phase n : Nat) (gs : List WorkerGroup) :
    normalizeAll limits phase n gs =
      eachFrom (fun worker g => g.normalize limits phase worker) n gs := by
  induction gs generalizing n with
  | nil => rfl
  | cons g gs ih => rw [normalizeAll, eachFrom, ih]

end WorkerGroup

namespace Phase

variable {limits : Limits} {p : Phase} {place : Nat} {f : Fault}

def Fits (limits : Limits) (p : Phase) : Prop := ∀ g ∈ p.workers, g.Fits limits

def Offends (limits : Limits) (place : Nat) (p : Phase) (f : Fault) : Prop :=
  ∃ before g after, p.workers = before ++ g :: after ∧ (∀ h ∈ before, h.Fits limits) ∧
    g.Offends limits place (before.length + 1) f

/-- The phase with its number for a name if that is blank, executed once if it asks for nothing, and
its groups filled in. -/
def filled (limits : Limits) (place : Nat) (p : Phase) : Phase :=
  { p with
    name := if p.name.toList.all Text.isBlank then "phase " ++ toString place else p.name
    repeats := if p.repeats = 0 then 1 else p.repeats
    workers := p.workers.map (·.filled limits) }

theorem fits_or_offends (limits : Limits) (p : Phase) (place : Nat) :
    p.Fits limits ∨ ∃ f, p.Offends limits place f := by
  rcases forall_or_exists_first (fun g => g.Fits limits) p.workers with hall |
    ⟨before, g, after, hworkers, hbefore, hg⟩
  · exact .inl hall
  · obtain ⟨f, hf⟩ := (g.fits_or_offends limits place (before.length + 1)).resolve_left hg
    exact .inr ⟨f, before, g, after, hworkers, hbefore, hf⟩

theorem normalize_of_fits (h : p.Fits limits) :
    p.normalize limits place = .ok (p.filled limits place) := by
  have hworkers : WorkerGroup.normalizeAll limits place 1 p.workers =
      .ok (p.workers.map (·.filled limits)) := by
    rw [WorkerGroup.normalizeAll_eq_eachFrom,
      eachFrom_of_ok (f := fun _ g => g.filled limits) fun g hg _ =>
        WorkerGroup.normalize_of_fits (h g hg)]
    exact congrArg Except.ok (List.ext_getElem? fun j => by simp)
  simp only [normalize, hworkers, filled, List.isEmpty_iff, Text.trim_eq_nil_iff]
  rfl

theorem normalize_of_offends (h : p.Offends limits place f) :
    p.normalize limits place = .error f := by
  obtain ⟨before, g, after, hworkers, hbefore, hg⟩ := h
  have hfails : WorkerGroup.normalizeAll limits place 1 p.workers = .error f := by
    rw [WorkerGroup.normalizeAll_eq_eachFrom, hworkers]
    refine eachFrom_of_error (fun x hx _ => ⟨_, WorkerGroup.normalize_of_fits (hbefore x hx)⟩) ?_
    rw [Nat.add_comm]
    exact WorkerGroup.normalize_of_offends hg
  rw [normalize, hfails]
  rfl

theorem filled_filled (hworkers : ∀ g ∈ p.workers, (g.filled limits).filled limits = g.filled limits) :
    (p.filled limits place).filled limits place = p.filled limits place := by
  have hname : (if (p.filled limits place).name.toList.all Text.isBlank then
      "phase " ++ toString place else (p.filled limits place).name) =
        (p.filled limits place).name := by
    by_cases hblank : p.name.toList.all Text.isBlank = true
    · have hnamed : (p.filled limits place).name = "phase " ++ toString place := if_pos hblank
      rw [hnamed, ite_self]
    · have hkept : (p.filled limits place).name = p.name := if_neg hblank
      rw [hkept, if_neg hblank]
  have hrepeats : (if (p.filled limits place).repeats = 0 then 1 else (p.filled limits place).repeats) =
      (p.filled limits place).repeats := by
    by_cases hzero : p.repeats = 0 <;> simp [filled, hzero]
  have hgroups : (p.workers.map (·.filled limits)).map (·.filled limits) =
      p.workers.map (·.filled limits) := by
    rw [List.map_map]
    exact List.map_congr_left hworkers
  rw [filled, hname, hrepeats]
  exact congrArg (fun workers => { p.filled limits place with workers := workers }) hgroups

theorem normalizeAll_eq_eachFrom (limits : Limits) (n : Nat) (ps : List Phase) :
    normalizeAll limits n ps = eachFrom (fun place p => p.normalize limits place) n ps := by
  induction ps generalizing n with
  | nil => rfl
  | cons p ps ih => rw [normalizeAll, eachFrom, ih]

end Phase

namespace Plan

variable {plan normal : Plan} {limits : Limits} {f : Fault}

def Offends (limits : Limits) (plan : Plan) (f : Fault) : Prop :=
  ∃ before p after, plan.phases = before ++ p :: after ∧ (∀ q ∈ before, q.Fits limits) ∧
    p.Offends limits (before.length + 1) f

def filled (limits : Limits) (plan : Plan) : Plan :=
  { plan with phases := plan.phases.mapIdx fun i p => p.filled limits (i + 1) }

theorem fits_or_offends (limits : Limits) (plan : Plan) :
    (∀ p ∈ plan.phases, p.Fits limits) ∨ ∃ f, plan.Offends limits f := by
  rcases forall_or_exists_first (fun p => p.Fits limits) plan.phases with hall |
    ⟨before, p, after, hphases, hbefore, hp⟩
  · exact .inl hall
  · obtain ⟨f, hf⟩ := (p.fits_or_offends limits (before.length + 1)).resolve_left hp
    exact .inr ⟨f, before, p, after, hphases, hbefore, hf⟩

theorem normalize_of_phases {phases : Except Fault (List Phase)} (hne : plan.phases ≠ [])
    (h : Phase.normalizeAll limits 1 plan.phases = phases) :
    plan.normalize limits = phases.map fun ps => { plan with phases := ps } := by
  have hsome : plan.phases.isEmpty = false := by
    rwa [List.isEmpty_eq_false_iff]
  rw [normalize, hsome, h]
  cases phases <;> rfl

theorem normalize_of_fits (hne : plan.phases ≠ []) (h : ∀ p ∈ plan.phases, p.Fits limits) :
    plan.normalize limits = .ok (plan.filled limits) := by
  have hphases : Phase.normalizeAll limits 1 plan.phases = .ok (plan.filled limits).phases := by
    rw [Phase.normalizeAll_eq_eachFrom, eachFrom_of_ok (f := fun place p => p.filled limits place)
      fun p hp _ => Phase.normalize_of_fits (h p hp)]
    simp only [Nat.add_comm 1]
    rfl
  exact normalize_of_phases hne hphases

theorem normalize_of_offends (h : plan.Offends limits f) : plan.normalize limits = .error f := by
  obtain ⟨before, p, after, hphases, hbefore, hp⟩ := h
  have hfault : Phase.normalizeAll limits 1 plan.phases = .error f := by
    rw [Phase.normalizeAll_eq_eachFrom, hphases]
    refine eachFrom_of_error (fun q hq _ => ⟨_, Phase.normalize_of_fits (hbefore q hq)⟩) ?_
    rw [Nat.add_comm]
    exact Phase.normalize_of_offends hp
  exact normalize_of_phases (by simp [hphases]) hfault

theorem normalize_eq_error_iff (hne : plan.phases ≠ []) :
    plan.normalize limits = .error f ↔ plan.Offends limits f := by
  refine ⟨fun h => ?_, normalize_of_offends⟩
  rcases plan.fits_or_offends limits with hfits | ⟨f', hf'⟩
  · rw [normalize_of_fits hne hfits] at h
    cases h
  · rw [normalize_of_offends hf'] at h
    cases h
    exact hf'

theorem exists_offends_iff : (∃ f, plan.Offends limits f) ↔
    ∃ p ∈ plan.phases, ∃ g ∈ p.workers, g.OutOfRange limits ∨ g.Unschedulable limits := by
  constructor
  · rintro ⟨f, before, p, after, hphases, -, gs, g, gs', hworkers, -, hg⟩
    exact ⟨p, by simp [hphases], g, by simp [hworkers], hg.unfit⟩
  · rintro ⟨p, hp, g, hg, hunfit⟩
    refine (plan.fits_or_offends limits).resolve_left fun hfits => ?_
    obtain ⟨hrange, hdelay⟩ := hfits p hp g hg
    exact hunfit.elim hrange hdelay

theorem normalize_of_empty (h : plan.phases = []) : plan.normalize limits = .error .emptyPlan := by
  rw [normalize, h]
  rfl

theorem normalize_eq_empty_iff :
    plan.normalize limits = .error .emptyPlan ↔ plan.phases = [] := by
  refine ⟨fun h => ?_, normalize_of_empty⟩
  by_contra hne
  obtain ⟨before, p, after, -, -, gs, g, gs', -, -, hg⟩ := (normalize_eq_error_iff hne).mp h
  cases hg

theorem eq_filled_of_normalize (h : plan.normalize limits = .ok normal) :
    plan.phases ≠ [] ∧ (∀ p ∈ plan.phases, p.Fits limits) ∧ normal = plan.filled limits := by
  have hne : plan.phases ≠ [] := fun hempty => by
    rw [normalize_of_empty hempty] at h
    cases h
  rcases plan.fits_or_offends limits with hfits | ⟨f, hf⟩
  · rw [normalize_of_fits hne hfits] at h
    cases h
    exact ⟨hne, hfits, rfl⟩
  · rw [normalize_of_offends hf] at h
    cases h

theorem normal_of_mem_filled (hlimits : limits.validate = .ok ())
    (hfits : ∀ p ∈ plan.phases, p.Fits limits) {q : Phase} (hq : q ∈ (plan.filled limits).phases)
    {g : WorkerGroup} (hg : g ∈ q.workers) : g.Normal limits := by
  obtain ⟨i, hi, rfl⟩ := List.mem_mapIdx.mp hq
  obtain ⟨h, hh, rfl⟩ := List.mem_map.mp hg
  exact WorkerGroup.normal_filled hlimits (hfits _ (List.getElem_mem hi) h hh)

theorem filled_filled (hlimits : limits.validate = .ok ())
    (hfits : ∀ p ∈ plan.phases, p.Fits limits) :
    (plan.filled limits).filled limits = plan.filled limits := by
  have hphases : ((plan.filled limits).filled limits).phases = (plan.filled limits).phases := by
    refine List.ext_getElem (by simp [filled]) fun i hi _ => ?_
    have hi' : i < plan.phases.length := by simpa [filled] using hi
    simp only [filled, List.getElem_mapIdx]
    refine Phase.filled_filled fun g hg => WorkerGroup.Normal.filled_eq hlimits ?_
    exact WorkerGroup.normal_filled hlimits (hfits _ (List.getElem_mem hi') g hg)
  exact congrArg (fun phases => { plan with phases := phases }) hphases

/-- A plan without phases is refused as empty. Any other is refused just where some group asks for a
length that is not allowed or pauses for all of its length, and then for the first such group, by
its place, with its own values. An accepted plan is filled in: only blank names, repeats of zero and
lengths of zero change. Its groups can all work, and it is accepted again as it is. -/
theorem normalize_exactly (plan : Plan) {limits : Limits} (hlimits : limits.validate = .ok ()) :
    (plan.normalize limits = .error .emptyPlan ↔ plan.phases = []) ∧
    (plan.phases ≠ [] →
      ((∃ f, plan.normalize limits = .error f) ↔
        ∃ p ∈ plan.phases, ∃ g ∈ p.workers, g.OutOfRange limits ∨ g.Unschedulable limits) ∧
      ∀ f, plan.normalize limits = .error f ↔ plan.Offends limits f) ∧
    ∀ normal, plan.normalize limits = .ok normal →
      normal = plan.filled limits ∧
      (∀ p ∈ normal.phases, ∀ g ∈ p.workers, g.Normal limits) ∧
      normal.normalize limits = .ok normal := by
  refine ⟨normalize_eq_empty_iff, fun hne => ⟨?_, fun f => normalize_eq_error_iff hne⟩,
    fun normal hnormal => ?_⟩
  · simp only [normalize_eq_error_iff hne]
    exact exists_offends_iff
  · obtain ⟨hne, hfits, rfl⟩ := eq_filled_of_normalize hnormal
    have hgroups : ∀ p ∈ (plan.filled limits).phases, ∀ g ∈ p.workers, g.Normal limits :=
      fun p hp g hg => normal_of_mem_filled hlimits hfits hp hg
    have hagain : (plan.filled limits).phases ≠ [] := by
      simpa [filled] using hne
    refine ⟨rfl, hgroups, ?_⟩
    rw [normalize_of_fits hagain fun p hp g hg => (hgroups p hp g hg).fits hlimits,
      filled_filled hlimits hfits]

/-- Two phases, the second without a name and with two groups, one of which may be given a pause
that is too long. -/
def relayed (delay : Duration) : Plan :=
  ⟨.cycle, [⟨"warm up", [⟨1, .zero, .ofSecs 1, .zero⟩], none, none, none, 0⟩,
    ⟨"  ", [⟨2, .ofSecs 90, .ofSecs 5, .ofSecs 3⟩, ⟨1, .zero, delay, .zero⟩], none, none, none, 2⟩]⟩

/-- It is refused for the second group of its second phase, or accepted once it is filled in. -/
theorem relayed_normalizes :
    Limits.standard.validate = .ok () ∧ (relayed (.ofSecs 60)).phases ≠ [] ∧
    (relayed (.ofSecs 60)).normalize .standard =
      .error (.unschedulable 2 2 (.ofSecs 60) (.ofSecs 60)) ∧
    (relayed (.ofSecs 60)).Offends .standard (.unschedulable 2 2 (.ofSecs 60) (.ofSecs 60)) ∧
    ∃ normal, (relayed (.ofSecs 59)).normalize .standard = .ok normal ∧
      normal = (relayed (.ofSecs 59)).filled .standard ∧
      normal.phases.map (·.name) = ["warm up", "phase 2"] ∧
      normal.normalize .standard = .ok normal := by
  have hlimits : Limits.standard.validate = .ok () := rfl
  have hne : (relayed (.ofSecs 60)).phases ≠ [] := by simp [relayed]
  have hrefused : (relayed (.ofSecs 60)).normalize .standard =
      .error (.unschedulable 2 2 (.ofSecs 60) (.ofSecs 60)) := rfl
  obtain ⟨-, herror, -⟩ := normalize_exactly (relayed (.ofSecs 60)) hlimits
  obtain ⟨-, -, hok⟩ := normalize_exactly (relayed (.ofSecs 59)) hlimits
  obtain ⟨normal, hnormal⟩ : ∃ normal, (relayed (.ofSecs 59)).normalize .standard = .ok normal :=
    ⟨_, rfl⟩
  obtain ⟨hfilled, -, hagain⟩ := hok normal hnormal
  refine ⟨hlimits, hne, hrefused, ((herror hne).2 _).mp hrefused, normal, hnormal, hfilled, ?_, hagain⟩
  rw [hfilled]
  decide +kernel

end Plan

end PhasedLoad
