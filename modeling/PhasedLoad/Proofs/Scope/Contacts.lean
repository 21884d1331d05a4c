import PhasedLoad.Proofs.Scope.Isolation

/-! Contacts with scopes: every step looks at some scopes and cancels some. A wait for a scope ends
with a look at it, at the instant at which the scope stops. -/

namespace PhasedLoad

/-- A look at a scope, or a cancellation of it. -/
structure Contact where
  instant : Instant
  scope : Nat
  cancels : Bool

namespace ScopeStep

inductive Observes (n : Nat) : ScopeStep → Prop
  | err : Observes n (.err n)
  | done (patience : Duration) : Observes n (.done n patience)
  | run (d : Duration) : Observes n (.run n d)

end ScopeStep

namespace ScopeTree

/-- The cancellations that act up to `limit`, where the clock is at `now`. -/
def strikes (limit : Instant) : List (Instant × Nat) → Instant → List Contact
  | [], _ => []
  | (due, id) :: rest, now =>
    if due ≤ limit then ⟨max now due, id, true⟩ :: strikes limit rest (max now due) else []

def await (t : ScopeTree) (id : Nat) (s : Scope) (limit : Instant) :
    Option StopReason × ScopeTree :=
  match (t.stopAt s).filter (· ≤ limit) with
  | some stop => (t.wait stop).stopped id
  | none => (none, t.wait limit)

/-- The contacts during such a wait: the last one is with the scope that stops. -/
def awaitContacts (t : ScopeTree) (id : Nat) (s : Scope) (limit : Instant) : List Contact :=
  match (t.stopAt s).filter (· ≤ limit) with
  | some stop => strikes stop t.pending t.now ++ [⟨(t.wait stop).now, id, false⟩]
  | none => strikes limit t.pending t.now

def contacts (t : ScopeTree) (x : ScopeStep) : List Contact :=
  match t.find? (subject x), x with
  | some (id, _), .cancel _ => [⟨t.now, id, true⟩]
  | some _, .advance d => strikes t.now t.pending (t.now + d.nanos)
  | some (id, _), .err _ => [⟨t.now, id, false⟩]
  | some (id, s), .done _ patience =>
    ⟨t.now, id, false⟩ :: if (t.observed s).isSome then []
      else t.beginDelays.awaitContacts id s (t.now + patience.nanos)
  | some (id, s), .run _ d =>
    ⟨t.now, id, false⟩ :: if (t.observed s).isSome || d.isZero then []
      else t.beginDelays.awaitContacts id s (Instant.wake t.now d)
  | _, _ => []

def history (t : ScopeTree) : List ScopeStep → List Contact
  | [] => []
  | x :: xs => t.contacts x ++ (t.step x).2.history xs

variable {t : ScopeTree} {k n : Nat} {s : Scope} {x : ScopeStep} {limit : Instant}
  {ps : List (Instant × Nat)}

theorem mem_strikes {now : Instant} {c : Contact} (h : c ∈ strikes limit ps now) :
    ∃ p ∈ ps, p.1 ≤ limit ∧ c.scope = p.2 ∧ p.1 ≤ c.instant ∧ now ≤ c.instant := by
  induction ps generalizing now with
  | nil => cases h
  | cons p ps ih =>
    rw [strikes] at h
    split at h
    · next hdue =>
      rcases List.mem_cons.mp h with rfl | h
      · exact ⟨p, List.mem_cons_self, hdue, rfl, Nat.le_max_right _ _, Nat.le_max_left _ _⟩
      · obtain ⟨q, hq, hle, hscope, hdue', hnow⟩ := ih h
        exact ⟨q, List.mem_cons_of_mem p hq, hle, hscope, hdue',
          Nat.le_trans (Nat.le_max_left _ _) hnow⟩
    · cases h

theorem act_now_le (limit : Instant) (ps : List (Instant × Nat)) (t : ScopeTree) :
    (act limit ps t).now ≤ max t.now limit := by
  induction ps generalizing t with
  | nil => exact Nat.le_max_left _ _
  | cons p ps ih =>
    by_cases hdue : p.1 ≤ limit
    · have hrest := ih ((t.clocked (max t.now p.1)).cancel p.2)
      have hnow : ((t.clocked (max t.now p.1)).cancel p.2).now = max t.now p.1 := rfl
      rw [act_cons_of_le hdue]
      grind
    · rw [act, if_neg hdue]
      exact Nat.le_max_left _ _

theorem wait_now (t : ScopeTree) (h : t.now ≤ limit) : (t.wait limit).now = limit := by
  have hle := act_now_le limit t.pending
    { t with pending := t.pending.filter fun p => limit < p.1 }
  have hnow : (t.wait limit).now = max (act limit t.pending
    { t with pending := t.pending.filter fun p => limit < p.1 }).now limit := rfl
  rw [hnow]
  rw [Nat.max_eq_right h] at hle
  exact Nat.max_eq_right hle

theorem act_getElem? (h : ∀ p ∈ ps, p.1 ≤ limit → p.2 ≠ k) (t : ScopeTree) :
    (act limit ps t).scopes[k]? = t.scopes[k]? := by
  induction ps generalizing t with
  | nil => rfl
  | cons p ps ih =>
    by_cases hdue : p.1 ≤ limit
    · have hk : p.2 ≠ k := h p List.mem_cons_self hdue
      rw [act_cons_of_le hdue, ih fun q hq => h q (List.mem_cons_of_mem p hq)]
      rw [ScopeTree.cancel, err, remember_getElem?]
      simp [hk, clocked]
    · rw [act, if_neg hdue]

theorem mem_canceled_act (hsorted : ps.Pairwise fun p q => p.1 ≤ q.1) {p : Instant × Nat}
    (hp : p ∈ ps) (hdue : p.1 ≤ limit) (t : ScopeTree) : p.2 ∈ (act limit ps t).canceled := by
  induction ps generalizing t with
  | nil => cases hp
  | cons q ps ih =>
    obtain ⟨hq, hsorted⟩ := List.pairwise_cons.mp hsorted
    rcases List.mem_cons.mp hp with rfl | hp
    · rw [act_cons_of_le hdue]
      exact canceled_act limit ps _ List.mem_cons_self
    · rw [act_cons_of_le (Nat.le_trans (hq p hp) hdue)]
      exact ih hsorted hp _

theorem Formed.first_due (ht : t.Formed) (s : Scope) {p : Instant × Nat}
    (hp : t.pending.find? (fun p => s.path.contains p.2) = some p) :
    p ∈ t.pending ∧ p.2 ∈ s.path ∧ ∀ q ∈ t.pending, q.2 ∈ s.path → p.1 ≤ q.1 := by
  obtain ⟨hpath, before, after, hsplit, hbefore⟩ := List.find?_eq_some_iff_append.mp hp
  have hsorted := ht.sorted
  rw [hsplit] at hsorted ⊢
  have hlater := List.pairwise_cons.mp (List.pairwise_append.mp hsorted).2.1
  refine ⟨by simp, by simpa using hpath, fun q hq hqpath => ?_⟩
  rcases List.mem_append.mp hq with hq | hq
  · have := hbefore q hq
    simp [hqpath] at this
  · rcases List.mem_cons.mp hq with rfl | hq
    · exact Nat.le_refl _
    · exact hlater.1 q hq

/-- Something that stops a scope at instant `m`: its deadline, or a cancellation under way. -/
def StopsBy (t : ScopeTree) (s : Scope) (m : Instant) : Prop :=
  m ∈ s.deadline ∨ ∃ p ∈ t.pending, p.2 ∈ s.path ∧ m = max t.now p.1

theorem Formed.stopsBy_of_stopAt (ht : t.Formed) {stop : Instant} (h : t.stopAt s = some stop) :
    t.StopsBy s stop := by
  unfold stopAt at h
  cases hp : t.pending.find? fun p => s.path.contains p.2 with
  | none =>
    rw [hp, Option.map_none, earliest?_none_right] at h
    exact .inl h
  | some p =>
    obtain ⟨hmem, hpath, -⟩ := ht.first_due s hp
    rw [hp, Option.map_some] at h
    cases hdeadline : s.deadline with
    | none =>
      rw [hdeadline, earliest?_none_left] at h
      exact .inr ⟨p, hmem, hpath, (Option.some.inj h).symm⟩
    | some d =>
      rw [hdeadline, earliest?_some_some, Option.some.injEq] at h
      rcases Nat.le_total d (max t.now p.1) with hle | hle
      · exact .inl (by rw [hdeadline, ← h, Nat.min_eq_left hle]; rfl)
      · exact .inr ⟨p, hmem, hpath, by rw [← h, Nat.min_eq_right hle]⟩

theorem Formed.exists_stopAt_le (ht : t.Formed) {m : Instant} (h : t.StopsBy s m) :
    ∃ stop ∈ t.stopAt s, stop ≤ m := by
  unfold stopAt
  rcases h with h | ⟨q, hq, hpath, rfl⟩
  · exact earliest?_le_left h
  · cases hp : t.pending.find? fun p => s.path.contains p.2 with
    | none =>
      have hnever := List.find?_eq_none.mp hp q hq
      exact absurd (List.contains_iff_mem.mpr hpath) hnever
    | some p =>
      have hle : p.1 ≤ q.1 := (ht.first_due s hp).2.2 q hq hpath
      obtain ⟨stop, hstop, hstop'⟩ := earliest?_le (a := s.deadline)
        (Option.mem_def.mpr (Option.map_some (f := fun p => max t.now p.1) (a := p)))
      exact ⟨stop, hstop, Nat.le_trans hstop' (by grind)⟩

theorem Formed.self_mem (ht : t.Formed) (hs : t.scopes[k]? = some s) : k ∈ s.path := by
  obtain ⟨bs, hrooted⟩ := ht.rooted
  exact (hrooted.frame k _ _ (frames_getElem? hs)).1.mem

theorem err_getElem? (hs : t.scopes[k]? = some s) :
    (t.err k).1 = t.observed s ∧
      (t.err k).2.scopes[k]? = some { s with reason := t.observed s } := by
  simp [err, remember_getElem?, hs]

theorem err_eq_self (hs : t.scopes[k]? = some s) (hlive : t.observed s = none) :
    s.reason = none ∧ t.err k = (none, t) := by
  have hreason : s.reason = none := by
    cases hr : s.reason with
    | none => rfl
    | some r => simp [observed, hr] at hlive
  have hscopes : (t.err k).2.scopes = t.scopes := by
    refine List.ext_getElem? fun j => ?_
    by_cases hj : k = j
    · subst hj
      rw [(err_getElem? hs).2, hs, hlive, ← hreason]
    · simp [err, remember_getElem?, hj]
  refine ⟨hreason, Prod.ext ((err_getElem? hs).1.trans hlive) ?_⟩
  exact congrArg (fun scopes => { t with scopes := scopes }) hscopes

theorem Formed.observed_isSome_iff (ht : t.Formed) (hs : t.scopes[k]? = some s) :
    (t.observed s).isSome ↔ t.HasStopped s :=
  ScopeTree.observed_isSome_iff (ht.latched s (List.mem_of_getElem? hs))

theorem Formed.stopAt_first (ht : t.Formed) (hgoes : ¬ t.HasStopped s) {stop : Instant}
    (hstop : t.stopAt s = some stop) :
    (∀ m, t.StopsBy s m → stop ≤ m) ∧ t.now ≤ stop := by
  refine ⟨fun m hm => ?_, ?_⟩
  · obtain ⟨stop', hstop', hle⟩ := ht.exists_stopAt_le hm
    rw [hstop] at hstop'
    cases hstop'
    exact hle
  · rcases ht.stopsBy_of_stopAt hstop with hd | ⟨p, -, -, rfl⟩
    · exact Nat.le_of_not_le fun hpast => hgoes (.inl ⟨stop, hd, hpast⟩)
    · exact Nat.le_max_left _ _

theorem Formed.hasStopped_wait (ht : t.Formed) (hs : t.scopes[k]? = some s) {stop : Instant}
    (hby : t.StopsBy s stop) (hahead : t.now ≤ stop) :
    ∃ s', (t.wait stop).scopes[k]? = some s' ∧ (t.wait stop).HasStopped s' := by
  obtain ⟨s', hs', hframe⟩ := exists_of_frames_getElem? (t := t.wait stop)
    (by rw [frames_wait]; exact frames_getElem? hs)
  obtain ⟨hpath, hdeadline⟩ := Prod.mk.inj hframe
  refine ⟨s', hs', ?_⟩
  rcases hby with hd | ⟨p, hp, hmem, hmax⟩
  · have hnow := wait_now t hahead
    exact .inl ⟨stop, by rw [hdeadline]; exact hd, Nat.le_of_eq hnow.symm⟩
  · have hdue : p.1 ≤ stop := hmax ▸ Nat.le_max_right _ _
    exact .inr (isCanceled_iff.mpr
      ⟨p.2, by rw [hpath]; exact hmem, mem_canceled_act ht.sorted hp hdue _⟩)

theorem Formed.wait_getElem? (ht : t.Formed) (hs : t.scopes[k]? = some s) (hlimit : t.now ≤ limit)
    (hlater : ∀ m, t.StopsBy s m → limit < m) : (t.wait limit).scopes[k]? = some s := by
  have hother : ∀ p ∈ t.pending, p.1 ≤ limit → p.2 ≠ k := by
    rintro p hp hdue rfl
    exact Nat.not_lt.mpr (Nat.max_le.mpr ⟨hlimit, hdue⟩)
      (hlater _ (.inr ⟨p, hp, ht.self_mem hs, rfl⟩))
  exact (act_getElem? hother { t with pending := t.pending.filter fun p => limit < p.1 }).trans hs

/-- A wait for a scope that has not stopped ends at the instant at which it stops, and a reason is
seen then; or it ends at `limit`, and nothing has changed for the scope. -/
theorem Formed.await_cases (ht : t.Formed) (hs : t.scopes[k]? = some s)
    (hlive : t.observed s = none) (hlimit : t.now ≤ limit) :
    (∃ r u, t.await k s limit = (some r, u) ∧ (∃ s', u.scopes[k]? = some s' ∧ s'.reason = some r) ∧
      (∀ d ∈ s.deadline, u.now ≤ d) ∧
      ∀ c ∈ t.awaitContacts k s limit, c.scope ∈ s.path → u.now ≤ c.instant) ∨
    (∃ u, t.await k s limit = (none, u) ∧ u.scopes[k]? = some s) := by
  have hgoes : ¬ t.HasStopped s := fun hstopped => by
    have hseen := (ht.observed_isSome_iff hs).mpr hstopped
    rw [hlive] at hseen
    cases hseen
  unfold await awaitContacts
  -- The wait is for the scope to stop, or that does not happen up to its limit.
  cases hstop : (t.stopAt s).filter (· ≤ limit) with
  | some stop =>
    left
    obtain ⟨hstop, hle⟩ := Option.filter_eq_some_iff.mp hstop
    obtain ⟨hfirst, hahead⟩ := ht.stopAt_first hgoes hstop
    have hnow : (t.wait stop).now = stop := wait_now t hahead
    obtain ⟨s', hs', hstopped⟩ := ht.hasStopped_wait hs (ht.stopsBy_of_stopAt hstop) hahead
    obtain ⟨r, hr⟩ := Option.isSome_iff_exists.mp
      (((ht.wait stop).observed_isSome_iff hs').mpr hstopped)
    obtain ⟨herr, hremembered⟩ := err_getElem? hs'
    refine ⟨r, ((t.wait stop).err k).2, ?_, ⟨_, hremembered, hr⟩, fun d hd => ?_,
      fun c hc hmem => ?_⟩
    · simp only [stopped, herr, hr, Option.getD_some]
    · exact hnow.symm ▸ hfirst d (.inl hd)
    · rcases List.mem_append.mp hc with hc | hc
      · obtain ⟨p, hp, -, hscope, hdue, hahead'⟩ := mem_strikes hc
        have hmax := hfirst _ (.inr ⟨p, hp, hscope ▸ hmem, rfl⟩)
        exact hnow.symm ▸ Nat.le_trans hmax (Nat.max_le.mpr ⟨hahead', hdue⟩)
      · obtain rfl := List.mem_singleton.mp hc
        exact Nat.le_refl _
  | none =>
    right
    refine ⟨_, rfl, ht.wait_getElem? hs hlimit fun m hm => Nat.lt_of_not_le fun hle => ?_⟩
    obtain ⟨stop, hmem, hle'⟩ := ht.exists_stopAt_le hm
    have hnone := Option.filter_eq_none_iff.mp hstop stop hmem
    simp [Nat.le_trans hle' hle] at hnone

/-- A step that asks whether a scope has stopped brings the reason that is seen, or nothing is seen
yet: then it does no more or waits. -/
theorem observes_cases (hfind : t.find? n = some (k, s)) (hx : x.Observes n) :
    (∃ r, t.observed s = some r ∧ t.step x = (.stopped r, (t.err k).2) ∧
      t.contacts x = [⟨t.now, k, false⟩]) ∨
    (t.observed s = none ∧ t.contacts x = [⟨t.now, k, false⟩] ∧
      ∃ otherwise, (∀ r, otherwise ≠ .stopped r) ∧ t.step x = (otherwise, t)) ∨
    (t.observed s = none ∧ ∃ otherwise limit, (∀ r, otherwise ≠ .stopped r) ∧ t.now ≤ limit ∧
      t.step x = answered otherwise (t.beginDelays.await k s limit) ∧
      t.contacts x = ⟨t.now, k, false⟩ :: t.beginDelays.awaitContacts k s limit) := by
  have hs := (find?_eq_some hfind).2
  obtain ⟨herr, -⟩ := err_getElem? hs
  unfold step contacts
  cases hseen : t.observed s with
  | some r =>
    left
    rw [hseen] at herr
    refine ⟨r, rfl, ?_⟩
    cases hx with
    | err => simp [subject, hfind, stepWith, answered, herr]
    | done => simp [subject, hfind, stepWith, answered, done, stopped, hseen, herr]
    | run => simp [subject, hfind, stepWith, answered, run, hseen, herr]
  | none =>
    right
    obtain ⟨-, hself⟩ := err_eq_self hs hseen
    cases hx with
    | err =>
      exact .inl ⟨rfl, by simp [subject, hfind],
        .nothing, by simp, by simp [subject, hfind, stepWith, answered, hself]⟩
    | done patience =>
      refine .inr ⟨rfl, .pending, t.now + patience.nanos, by simp, Nat.le_add_right _ _, ?_, ?_⟩
      · simp only [subject, hfind, stepWith, done, hseen, Option.isSome_none, Bool.false_eq_true,
          if_false]
        rfl
      · simp [subject, hfind, hseen]
    | run d =>
      by_cases hzero : d.isZero = true
      · exact .inl ⟨rfl, by simp [subject, hfind, hzero],
          .ran, by simp, by simp [subject, hfind, stepWith, answered, run, hself, hzero]⟩
      · refine .inr ⟨rfl, .ran, Instant.wake t.now d, by simp, Instant.le_wake _ _, ?_, ?_⟩
        · simp only [subject, hfind, stepWith, run, hself, Option.isSome_none, Bool.false_eq_true,
            if_false, hzero]
          rfl
        · simp [subject, hfind, hseen, hzero]

theorem Formed.answer_iff (ht : t.Formed) (hfind : t.find? n = some (k, s)) (hx : x.Observes n)
    (r : StopReason) :
    (t.step x).1 = .stopped r ↔
      ∃ s', (t.step x).2.scopes[k]? = some s' ∧ s'.reason = some r := by
  have hs := (find?_eq_some hfind).2
  obtain ⟨r', hseen, hstep, -⟩ | ⟨hseen, -, otherwise, hother, hstep⟩ |
    ⟨hseen, otherwise, limit, hother, hlimit, hstep, -⟩ := observes_cases hfind hx
  · rw [hstep, (err_getElem? hs).2]
    simp [hseen]
  · obtain ⟨hreason, -⟩ := err_eq_self hs hseen
    rw [hstep]
    simp [hs, hreason, hother]
  · have hs' : t.beginDelays.scopes[k]? = some s := hs
    rw [hstep]
    obtain ⟨r', u, hawait, ⟨s', hs', hreason⟩, -⟩ | ⟨u, hawait, hu⟩ :=
      ht.beginDelays.await_cases hs' hseen hlimit
    · simp [hawait, answered, hs', hreason]
    · obtain ⟨hreason, -⟩ := err_eq_self hs hseen
      simp [hawait, answered, hu, hreason, hother]

theorem Formed.stops_first (ht : t.Formed) (hfind : t.find? n = some (k, s)) (hx : x.Observes n)
    (hlive : ¬ t.HasStopped s) {r : StopReason} (h : (t.step x).1 = .stopped r) :
    (∀ d ∈ s.deadline, (t.step x).2.now ≤ d) ∧
      ∀ c ∈ t.contacts x, c.cancels = true → c.scope ∈ s.path → (t.step x).2.now ≤ c.instant := by
  have hs := (find?_eq_some hfind).2
  obtain ⟨r', hseen, -⟩ | ⟨-, -, otherwise, hother, hstep⟩ |
    ⟨hseen, otherwise, limit, hother, hlimit, hstep, hcontacts⟩ := observes_cases hfind hx
  · exact absurd ((ht.observed_isSome_iff hs).mp (by rw [hseen]; rfl)) hlive
  · rw [hstep] at h
    exact absurd h (hother r)
  · have hs' : t.beginDelays.scopes[k]? = some s := hs
    rw [hstep] at h ⊢
    rw [hcontacts]
    obtain ⟨r', u, hawait, -, hdeadline, hfirst⟩ | ⟨u, hawait, hu⟩ :=
      ht.beginDelays.await_cases hs' hseen hlimit
    · rw [hawait]
      refine ⟨hdeadline, fun c hc hcancels hmem => ?_⟩
      rcases List.mem_cons.mp hc with rfl | hc
      · cases hcancels
      · exact hfirst c hc hmem
    · rw [hawait] at h
      exact absurd h (hother r)

end ScopeTree

end PhasedLoad
