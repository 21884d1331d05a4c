import PhasedLoad.Campaign

/-! What a plan made ready to run guarantees: there is a phase, and every execution may take some
time. -/

namespace PhasedLoad

theorem Limits.bounds_of_validate {l : Limits} (h : l.validate = .ok ()) :
    0 < l.minPhase.nanos ∧ l.minPhase ≤ l.maxPhase := by
  unfold Limits.validate at h
  split at h
  · cases h
  · next hbounds =>
    simp only [Duration.isZero_iff, Duration.lt_def, not_or] at hbounds
    exact ⟨Nat.pos_of_ne_zero hbounds.1, Nat.le_of_not_lt hbounds.2⟩

theorem RunSettings.validate_limits {s : RunSettings} (h : s.validate = .ok ()) :
    s.limits.validate = .ok () := by
  unfold RunSettings.validate at h
  cases hl : s.limits.validate with
  | ok u => rfl
  | error f => simp [hl, bind, Except.bind] at h

theorem WorkerGroup.normalize_eq_ok {limits : Limits} {phase worker : Nat} {g n : WorkerGroup}
    (h : g.normalize limits phase worker = .ok n) :
    n = { g with duration := g.effectiveDuration limits, timeout := g.effectiveTimeout } := by
  unfold normalize at h
  split at h
  · cases h
  · dsimp only at h
    split at h
    · cases h
    · cases h
      rfl

theorem WorkerGroup.bounds_of_normalize {limits : Limits} {phase worker : Nat} {g n : WorkerGroup}
    (hbounds : limits.minPhase ≤ limits.maxPhase) (h : g.normalize limits phase worker = .ok n) :
    limits.minPhase ≤ n.duration ∧ n.duration ≤ limits.maxPhase ∧ n.delay < n.duration := by
  have hnormal := normalize_eq_ok h
  unfold normalize at h
  split at h
  · cases h
  · next hrange =>
    have hduration : limits.minPhase ≤ g.effectiveDuration limits ∧
        g.effectiveDuration limits ≤ limits.maxPhase := by
      unfold effectiveDuration
      split
      · exact ⟨Nat.le_refl _, hbounds⟩
      · next hset =>
        have hinside := not_or.mp fun houtside => hrange ⟨hset, houtside⟩
        exact ⟨Nat.le_of_not_lt hinside.1, Nat.le_of_not_lt hinside.2⟩
    dsimp only at h
    split at h
    · cases h
    · next hdelay =>
      subst hnormal
      exact ⟨hduration.1, hduration.2, Nat.lt_of_not_le hdelay⟩

theorem WorkerGroup.normalizeAll_getElem? {limits : Limits} {phase worker : Nat}
    {gs ns : List WorkerGroup} (h : normalizeAll limits phase worker gs = .ok ns) {k : Nat}
    {n : WorkerGroup} (hn : ns[k]? = some n) :
    ∃ g, gs[k]? = some g ∧ g.normalize limits phase (worker + k) = .ok n := by
  induction gs generalizing worker ns k with
  | nil => cases h; simp at hn
  | cons g gs ih =>
    simp only [normalizeAll, bind, Except.bind] at h
    split at h
    · cases h
    · next hg =>
      split at h
      · cases h
      · next hgs =>
        cases h
        cases k with
        | zero =>
          cases hn
          exact ⟨g, rfl, hg⟩
        | succ k =>
          obtain ⟨g', hg', hnormal⟩ := ih hgs hn
          exact ⟨g', hg', by rwa [Nat.add_right_comm, Nat.add_assoc] at hnormal⟩

theorem Phase.normalize_eq_ok {limits : Limits} {place : Nat} {p n : Phase}
    (h : p.normalize limits place = .ok n) :
    WorkerGroup.normalizeAll limits place 1 p.workers = .ok n.workers ∧ n.setup = p.setup ∧
      n.workload = p.workload ∧ n.teardown = p.teardown := by
  simp only [normalize, bind, Except.bind] at h
  split at h
  · cases h
  · next hworkers =>
    cases h
    exact ⟨hworkers, rfl, rfl, rfl⟩

theorem Phase.normalizeAll_getElem? {limits : Limits} {place : Nat} {ps ns : List Phase}
    (h : normalizeAll limits place ps = .ok ns) {i : Nat} {n : Phase} (hn : ns[i]? = some n) :
    ∃ p, ps[i]? = some p ∧ p.normalize limits (place + i) = .ok n := by
  induction ps generalizing place ns i with
  | nil => cases h; simp at hn
  | cons p ps ih =>
    simp only [normalizeAll, bind, Except.bind] at h
    split at h
    · cases h
    · next hp =>
      split at h
      · cases h
      · next hps =>
        cases h
        cases i with
        | zero =>
          cases hn
          exact ⟨p, rfl, hp⟩
        | succ i =>
          obtain ⟨p', hp', hnormal⟩ := ih hps hn
          exact ⟨p', hp', by rwa [Nat.add_right_comm, Nat.add_assoc] at hnormal⟩

theorem Plan.normalizeAll_of_normalize {plan normal : Plan} {limits : Limits}
    (h : plan.normalize limits = .ok normal) :
    Phase.normalizeAll limits 1 plan.phases = .ok normal.phases := by
  simp only [normalize, bind, Except.bind, pure, Except.pure] at h
  split at h
  · cases h
  · split at h
    · cases h
    · next hphases => cases h; exact hphases

theorem Phase.normalizeAll_length {limits : Limits} {place : Nat} {ps qs : List Phase}
    (h : normalizeAll limits place ps = .ok qs) : qs.length = ps.length := by
  induction ps generalizing place qs with
  | nil => cases h; rfl
  | cons p ps ih =>
    simp only [normalizeAll, bind, Except.bind] at h
    split at h
    · cases h
    · split at h
      · cases h
      · next hps => cases h; simp [ih hps]

theorem Plan.phases_ne_nil_of_normalize {plan normal : Plan} {limits : Limits}
    (h : plan.normalize limits = .ok normal) : normal.phases ≠ [] := by
  unfold normalize at h
  cases hp : plan.phases with
  | nil => simp [hp, bind, Except.bind, throw, throwThe, MonadExceptOf.throw] at h
  | cons p ps =>
    simp only [hp, bind, Except.bind, pure, Except.pure, List.isEmpty_cons] at h
    split at h
    · cases h
    · split at h
      · cases h
      · next hqs =>
        cases h
        have hlen := Phase.normalizeAll_length hqs
        exact List.ne_nil_of_length_pos (by rw [hlen]; simp)

namespace Campaign

/-- What holds of every plan that was made ready. -/
structure Ready (c : Campaign) : Prop where
  phases_ne_nil : c.plan.phases ≠ []
  minPhase_pos : 0 < c.settings.limits.minPhase.nanos
  minPhase_le : c.settings.limits.minPhase ≤ c.settings.limits.maxPhase
  repeats_eq : c.repeats = (Repeats.ofPlan c.plan c.settings.repeats c.settings.limits).1
  budget_eq : c.budget = .ofPlan c.settings.runtime c.plan c.repeats c.settings.limits

theorem ready_of_prepare {plan : Plan} {settings : RunSettings} {events : List LogEvent}
    {c : Campaign} (h : prepare plan settings = (events, .ok c)) : c.Ready := by
  unfold prepare at h
  split at h
  · cases h
  · next hvalid =>
    dsimp only at h
    split at h
    · cases h
    · next normal hnormal =>
      cases h
      have hbounds := Limits.bounds_of_validate (RunSettings.validate_limits hvalid)
      exact
        { phases_ne_nil := Plan.phases_ne_nil_of_normalize hnormal
          minPhase_pos := hbounds.1
          minPhase_le := hbounds.2
          repeats_eq := rfl
          budget_eq := rfl }

theorem normalize_of_prepare {plan : Plan} {settings : RunSettings} {events : List LogEvent}
    {c : Campaign} (h : prepare plan settings = (events, .ok c)) :
    (plan.withPattern settings.pattern).normalize settings.limits = .ok c.plan := by
  unfold prepare at h
  split at h
  · cases h
  · dsimp only at h
    split at h
    · cases h
    · next normal hnormal => cases h; exact hnormal

theorem settings_of_prepare {plan : Plan} {settings : RunSettings} {events : List LogEvent}
    {c : Campaign} (h : prepare plan settings = (events, .ok c)) : c.settings = settings := by
  unfold prepare at h
  split at h
  · cases h
  · dsimp only at h
    split at h
    · cases h
    · cases h
      rfl

theorem bounds_of_prepare {plan : Plan} {settings : RunSettings} {events : List LogEvent}
    {c : Campaign} (h : prepare plan settings = (events, .ok c)) {i : Nat} {p : Phase}
    (hp : c.plan.phases[i]? = some p) : ∀ g ∈ p.workers, settings.limits.minPhase ≤ g.duration ∧
      g.duration ≤ settings.limits.maxPhase ∧ g.delay < g.duration := by
  have hbounds := (ready_of_prepare h).minPhase_le
  rw [settings_of_prepare h] at hbounds
  have hphases := Plan.normalizeAll_of_normalize (normalize_of_prepare h)
  obtain ⟨q, -, hnormal⟩ := Phase.normalizeAll_getElem? hphases hp
  intro g hg
  obtain ⟨k, hk⟩ := List.mem_iff_getElem?.mp hg
  obtain ⟨g', -, hg'⟩ := WorkerGroup.normalizeAll_getElem? (Phase.normalize_eq_ok hnormal).1 hk
  exact WorkerGroup.bounds_of_normalize hbounds hg'

variable {c : Campaign}

/-- Every execution of every phase may take some time. -/
theorem Ready.phase_pos (h : c.Ready) (i : Nat) : 0 < (c.budget.phase i).nanos := by
  have hmin := h.minPhase_pos
  rw [h.budget_eq, Budget.phase]
  split
  · exact hmin
  · exact Nat.lt_of_lt_of_le hmin (Limits.minPhase_le_clamp h.minPhase_le _)

end Campaign

end PhasedLoad
