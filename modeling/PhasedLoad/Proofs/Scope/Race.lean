import Mathlib.Order.Bounds.Basic
import PhasedLoad.Proofs.Scope.Latch

/-! Work inside a scope: a race of the work with what stops the scope. Whenever something wakes the
race, it asks for the scope first, so that work wins if it ends before the scope stops. -/

namespace PhasedLoad

/-- Work that goes on when it is polled: it gives its output, or says when to poll it again. -/
structure Future (σ α : Type) where
  poll : Instant → σ → σ × Option α
  wakeAt : σ → Option Instant

namespace Future

variable {σ α : Type}

/-- Polled now and then whenever it asks for that, the work gives `out` at the instant `finish`. -/
inductive Completes (f : Future σ α) (finish : Instant) (out : α) : Instant → σ → Prop
  | now {b} (hpoll : (f.poll finish b).2 = some out) : Completes f finish out finish b
  | later {now wake b b'} (hpoll : f.poll now b = (b', none)) (hwake : f.wakeAt b' = some wake)
      (hahead : now ≤ wake) (rest : Completes f finish out wake b') : Completes f finish out now b

def Waits (f : Future σ α) (now : Instant) (b : σ) : Prop := (f.poll now b).2 = none

def sleep (d : Duration) : Future (Option Instant) Unit where
  poll now due? :=
    let due := due?.getD (if d.isZero then now else Instant.wake now d)
    (some due, if due ≤ now then some () else none)
  wakeAt due? := due?

variable {f : Future σ α} {now finish : Instant} {out : α} {b : σ} {d : Duration}

theorem Completes.le (h : f.Completes finish out now b) : now ≤ finish := by
  induction h with
  | now => exact Nat.le_refl _
  | later _ _ hahead _ ih => exact Nat.le_trans hahead ih

theorem Completes.waits (h : f.Completes finish out now b) (hlt : now < finish) :
    f.Waits now b := by
  cases h with
  | now => exact absurd hlt (Nat.lt_irrefl _)
  | later hpoll => exact congrArg Prod.snd hpoll

theorem lt_wake (now : Instant) (h : d.isZero = false) : now < Instant.wake now d := by
  have hpos : 0 < d.nanos := Nat.pos_of_ne_zero fun hzero => by simp [Duration.isZero, hzero] at h
  unfold Instant.wake Instant.after?
  split
  · exact Nat.lt_add_of_pos_right hpos
  · exact Nat.lt_add_of_pos_right (by simp [Instant.farAway])

theorem sleep_poll_zero (now : Instant) (h : d.isZero = true) :
    ((sleep d).poll now none).2 = some () := by
  simp [sleep, h]

theorem sleep_poll_none (now : Instant) (h : d.isZero = false) :
    (sleep d).poll now none = (some (Instant.wake now d), none) := by
  simp [sleep, h, Nat.not_le.mpr (lt_wake now h)]

theorem sleep_poll_some (due : Instant) : ((sleep d).poll due (some due)).2 = some () := by
  simp [sleep]

theorem sleep_completes (d : Duration) (now : Instant) : ∃ e,
    (sleep d).Completes (now + e) () now none ∧ (now + d.nanos < Instant.limit → e = d.nanos) := by
  cases hzero : d.isZero with
  | true => exact ⟨0, .now (sleep_poll_zero now hzero), fun _ => (Duration.isZero_iff.mp hzero).symm⟩
  | false =>
    have hwake := Instant.le_wake now d
    refine ⟨Instant.wake now d - now, ?_, fun hlt => ?_⟩
    · rw [Nat.add_sub_cancel' hwake]
      exact .later (sleep_poll_none now hzero) rfl hwake (.now (sleep_poll_some _))
    · rw [Instant.wake_of_lt hlt, Nat.add_sub_cancel_left]

end Future

namespace ScopeTree

variable {σ α : Type}

/-- The race of `f` with what stops scope `k`. The list has the instants at which `f` is polled. -/
inductive Races (f : Future σ α) (k : Nat) :
    ScopeTree → σ → List Instant → Except StopReason α → ScopeTree → Prop
  | stops {t u b s r} (hs : t.scopes[k]? = some s) (hstopped : t.HasStopped s)
      (hreason : t.stopped k = (some r, u)) : Races f k t b [] (.error r) u
  | ends {t b s a} (hs : t.scopes[k]? = some s) (hlive : ¬ t.HasStopped s)
      (hpoll : (f.poll t.now b).2 = some a) : Races f k t b [t.now] (.ok a) t
  | waits {t u b b' s m polls res} (hs : t.scopes[k]? = some s) (hlive : ¬ t.HasStopped s)
      (hpoll : f.poll t.now b = (b', none))
      (hwake : earliest? (t.beginDelays.stopAt s) (f.wakeAt b') = some m)
      (rest : Races f k (t.beginDelays.wait m) b' polls res u) :
      Races f k t b (t.now :: polls) res u

/-- How `f` is run inside scope `k`: not at all where a reason to stop is seen. -/
inductive Runs (f : Future σ α) (k : Nat) :
    ScopeTree → σ → List Instant → Except StopReason α → ScopeTree → Prop
  | refused {t u b r} (h : t.err k = (some r, u)) : Runs f k t b [] (.error r) u
  | races {t u v b polls res} (h : t.err k = (none, v)) (hrace : Races f k v b polls res u) :
      Runs f k t b polls res u

/-- A cancellation of `s` or of a scope around it is to come, and acts at `m`. -/
def Cancels (t : ScopeTree) (s : Scope) (m : Instant) : Prop :=
  ∃ p ∈ t.beginDelays.pending, p.2 ∈ s.path ∧ m = max t.now p.1

/-- A wait for `s` lasts up to `m`: that is now if it has stopped, or else what comes first of its
deadline and the cancellations to come. -/
def FirstStop (t : ScopeTree) (s : Scope) (m : Instant) : Prop :=
  (t.HasStopped s ∧ m = t.now) ∨
    (¬ t.HasStopped s ∧ IsLeast {m | m ∈ s.deadline ∨ t.Cancels s m} m)

theorem FirstStop.unique {t : ScopeTree} {s : Scope} {m m' : Instant} (h : t.FirstStop s m)
    (h' : t.FirstStop s m') : m = m' := by
  obtain ⟨hstopped, rfl⟩ | ⟨hlive, hleast⟩ := h
  · obtain ⟨-, rfl⟩ | ⟨hlive, -⟩ := h'
    · rfl
    · exact absurd hstopped hlive
  · obtain ⟨hstopped, -⟩ | ⟨-, hleast'⟩ := h'
    · exact absurd hstopped hlive
    · exact hleast.unique hleast'

/-- What comes of a run at `t` of work that ends at `finish` with the output `out`, where a first
poll is not enough if `waits`. The polls of the work, the result and the scopes after it are given.
-/
structure Settles (t : ScopeTree) (k : Nat) (s : Scope) (finish : Instant) (waits : Prop) (out : α)
    (polls : List Instant) (res : Except StopReason α) (u : ScopeTree) : Prop where
  ok_iff : res = .ok out ↔ ¬ t.HasStopped s ∧ (∀ d ∈ s.deadline, finish < d) ∧
    (waits → ∀ m, t.Cancels s m → finish < m)
  ok : ∀ a, res = .ok a → a = out ∧ u.now = finish
  error : ∀ r, res = .error r → t.FirstStop s u.now ∧ (u.err k).1 = some r
  polled : polls = [] ↔ t.HasStopped s

structure EndsAt (t : ScopeTree) (k : Nat) (s : Scope) (m : Instant) : Prop where
  stopAt : t.stopAt s = some m
  least : IsLeast {m | t.StopsBy s m} m
  now : (t.wait m).now = m
  stopped : ∃ s', (t.wait m).scopes[k]? = some s' ∧ (t.wait m).HasStopped s'

structure Passes (t : ScopeTree) (k : Nat) (s : Scope) (m : Instant) : Prop where
  later : ∀ m', t.StopsBy s m' → m < m'
  now : (t.wait m).now = m
  same : (t.wait m).scopes[k]? = some s
  live : ¬ (t.wait m).HasStopped s
  stopsBy : ∀ m', (t.wait m).StopsBy s m' ↔ t.StopsBy s m'

variable {f : Future σ α} {t u v : ScopeTree} {k n : Nat} {s : Scope} {m limit finish : Instant}
  {b : σ} {out : α} {polls : List Instant} {res : Except StopReason α} {r : StopReason}

theorem mem_pending_wait {p : Instant × Nat} :
    p ∈ (t.wait m).pending ↔ p ∈ t.pending ∧ m < p.1 := by
  simp [wait]

theorem wait_beginDelays (t : ScopeTree) (m : Instant) :
    (t.beginDelays.wait m).beginDelays = t.beginDelays.wait m := by
  have hnone : (t.beginDelays.wait m).delayed = [] := act_delayed m t.beginDelays.pending _
  unfold beginDelays at hnone ⊢
  rw [hnone]
  exact congrArg (fun ds => { (t.beginDelays.wait m) with delayed := ds }) hnone.symm

namespace Formed

theorem passes (ht : t.Formed) (hs : t.scopes[k]? = some s) (hgoes : ¬ t.HasStopped s)
    (hlimit : t.now ≤ limit) (hlater : ∀ m, t.StopsBy s m → limit < m) : t.Passes k s limit where
  later := hlater
  now := wait_now t hlimit
  same := ht.wait_getElem? hs hlimit hlater
  live := by
    rintro (⟨d, hd, hle⟩ | hcanceled)
    · rw [wait_now t hlimit] at hle
      exact Nat.not_lt.mpr hle (hlater d (.inl hd))
    · obtain ⟨a, ha, hmem⟩ := isCanceled_iff.mp hcanceled
      rcases mem_of_canceled_act _ hmem with hmem | ⟨p, hp, hdue, rfl⟩
      · exact hgoes (.inr (isCanceled_iff.mpr ⟨a, ha, hmem⟩))
      · exact Nat.not_lt.mpr (Nat.max_le.mpr ⟨hlimit, hdue⟩) (hlater _ (.inr ⟨p, hp, ha, rfl⟩))
  stopsBy := by
    -- What is due after the wait acts when it is due, on both sides.
    have hsame : ∀ p : Instant × Nat, limit < p.1 → max (t.wait limit).now p.1 = max t.now p.1 := by
      intro p hdue
      rw [wait_now t hlimit, Nat.max_eq_right (Nat.le_of_lt hdue),
        Nat.max_eq_right (Nat.le_trans hlimit (Nat.le_of_lt hdue))]
    intro m
    refine or_congr_right ⟨?_, ?_⟩
    · rintro ⟨p, hp, hpath, rfl⟩
      obtain ⟨hp, hdue⟩ := mem_pending_wait.mp hp
      exact ⟨p, hp, hpath, hsame p hdue⟩
    · rintro ⟨p, hp, hpath, rfl⟩
      have hdue : limit < p.1 := Nat.lt_of_not_le fun hdue => Nat.not_lt.mpr
        (Nat.max_le.mpr ⟨hlimit, hdue⟩) (hlater _ (.inr ⟨p, hp, hpath, rfl⟩))
      exact ⟨p, mem_pending_wait.mpr ⟨hp, hdue⟩, hpath, (hsame p hdue).symm⟩

/-- A scope that goes on stops within a wait or after it. -/
theorem ends_or_passes (ht : t.Formed) (hs : t.scopes[k]? = some s) (hgoes : ¬ t.HasStopped s)
    (hlimit : t.now ≤ limit) : (∃ m ≤ limit, t.EndsAt k s m) ∨ t.Passes k s limit := by
  by_cases hwithin : ∃ m ≤ limit, t.stopAt s = some m
  · obtain ⟨m, hle, hm⟩ := hwithin
    have hby := ht.stopsBy_of_stopAt hm
    obtain ⟨hfirst, hahead⟩ := ht.stopAt_first hgoes hm
    exact .inl ⟨m, hle, hm, ⟨hby, hfirst⟩, wait_now t hahead, ht.hasStopped_wait hs hby hahead⟩
  · refine .inr (ht.passes hs hgoes hlimit fun m hm => Nat.lt_of_not_le fun hle => hwithin ?_)
    obtain ⟨m', hm', hle'⟩ := ht.exists_stopAt_le hm
    exact ⟨m', Nat.le_trans hle' hle, hm'⟩

theorem stopped_eq (ht : t.Formed) (hs : t.scopes[k]? = some s) (hstopped : t.HasStopped s) :
    ∃ r u, t.stopped k = (some r, u) ∧ t.err k = (some r, u) ∧ u.now = t.now ∧
      (u.err k).1 = some r := by
  obtain ⟨r, hr⟩ := Option.isSome_iff_exists.mp ((ht.observed_isSome_iff hs).mpr hstopped)
  obtain ⟨herr, hremembered⟩ := err_getElem? hs
  rw [hr] at herr hremembered
  refine ⟨r, (t.err k).2, ?_, Prod.ext herr rfl, rfl, (err_getElem? hremembered).1⟩
  simp only [stopped, herr, Option.getD_some]

theorem observed_eq_none (ht : t.Formed) (hs : t.scopes[k]? = some s)
    (hgoes : ¬ t.HasStopped s) : t.observed s = none := by
  rw [← Option.not_isSome_iff_eq_none, ht.observed_isSome_iff hs]
  exact hgoes

theorem err_of_live (ht : t.Formed) (hs : t.scopes[k]? = some s) (hgoes : ¬ t.HasStopped s) :
    t.err k = (none, t) :=
  (err_eq_self hs (ht.observed_eq_none hs hgoes)).2

end Formed

theorem EndsAt.await (h : t.EndsAt k s m) (hle : m ≤ limit) :
    t.await k s limit = (t.wait m).stopped k := by
  have hfilter : (t.stopAt s).filter (· ≤ limit) = some m := by simp [h.stopAt, hle]
  simp only [ScopeTree.await, hfilter]

theorem Passes.await (h : t.Passes k s limit) (ht : t.Formed) :
    t.await k s limit = (none, t.wait limit) := by
  have hfilter : (t.stopAt s).filter (· ≤ limit) = none := by
    refine Option.filter_eq_none_iff.mpr fun m hm => ?_
    have := h.later m (ht.stopsBy_of_stopAt hm)
    simpa using this
  simp only [ScopeTree.await, hfilter]

theorem EndsAt.wake (h : t.EndsAt k s m) (hle : m ≤ limit) :
    earliest? (t.stopAt s) (some limit) = some m := by
  rw [h.stopAt, earliest?_some_some, Nat.min_eq_left hle]

theorem Passes.wake (h : t.Passes k s limit) (ht : t.Formed) :
    earliest? (t.stopAt s) (some limit) = some limit := by
  cases hstop : t.stopAt s with
  | none => rfl
  | some m =>
    rw [earliest?_some_some, Nat.min_eq_right (Nat.le_of_lt (h.later m (ht.stopsBy_of_stopAt hstop)))]

namespace Settles

variable {waits : Prop}

theorem of_stopped (hstopped : t.HasStopped s) (hnow : u.now = t.now)
    (hr : (u.err k).1 = some r) : t.Settles k s finish waits out [] (.error r) u where
  ok_iff := iff_of_false (fun h => by cases h) fun h => h.1 hstopped
  ok _ h := by cases h
  error r' h := by
    cases h
    exact ⟨.inl ⟨hstopped, hnow⟩, hr⟩
  polled := iff_of_true rfl hstopped

theorem of_ready (hlive : ¬ t.HasStopped s) (hready : ¬ waits) :
    t.Settles k s t.now waits out [t.now] (.ok out) t where
  ok_iff := by
    refine iff_of_true rfl ⟨hlive, fun d hd => Nat.lt_of_not_le fun hpast => ?_, fun h => ?_⟩
    · exact hlive (.inl ⟨d, hd, hpast⟩)
    · exact absurd h hready
  ok a h := by
    cases h
    exact ⟨rfl, rfl⟩
  error r h := by cases h
  polled := iff_of_false (List.cons_ne_nil _ _) hlive

theorem of_endsAt (hlive : ¬ t.HasStopped s) (hends : t.beginDelays.EndsAt k s m)
    (hle : m ≤ finish) (hwaits : waits) (hnow : u.now = m) (hr : (u.err k).1 = some r) :
    t.Settles k s finish waits out [t.now] (.error r) u where
  ok_iff := by
    refine iff_of_false (fun h => by cases h) fun ⟨_, hdeadline, hcancels⟩ => ?_
    rcases hends.least.1 with hd | hcancel
    · exact Nat.not_lt.mpr hle (hdeadline m hd)
    · exact Nat.not_lt.mpr hle (hcancels hwaits m hcancel)
  ok _ h := by cases h
  error r' h := by
    cases h
    exact ⟨.inr ⟨hlive, hnow ▸ hends.least⟩, hr⟩
  polled := iff_of_false (List.cons_ne_nil _ _) hlive

theorem of_passes {waits' : Prop} (hlive : ¬ t.HasStopped s)
    (hpasses : t.beginDelays.Passes k s m) (hwaits : waits) (hfinish : ¬ waits' → finish = m)
    (h : (t.beginDelays.wait m).Settles k s finish waits' out polls res u) :
    t.Settles k s finish waits out (t.now :: polls) res u := by
  have hstops : ∀ m', (m' ∈ s.deadline ∨ (t.beginDelays.wait m).Cancels s m') ↔
      (m' ∈ s.deadline ∨ t.Cancels s m') := by
    intro m'
    rw [Cancels, wait_beginDelays]
    exact hpasses.stopsBy m'
  refine ⟨h.ok_iff.trans ?_, h.ok, fun r hr => ?_, iff_of_false (List.cons_ne_nil _ _) hlive⟩
  · refine ⟨fun ⟨_, hdeadline, hcancels⟩ => ⟨hlive, hdeadline, fun _ m' hm' => ?_⟩,
      fun ⟨_, hdeadline, hcancels⟩ => ⟨hpasses.live, hdeadline, fun _ m' hm' => ?_⟩⟩
    · by_cases hmore : waits'
      · exact ((hstops m').mpr (.inr hm')).elim (hdeadline m') (hcancels hmore m')
      · rw [hfinish hmore]
        exact hpasses.later m' (.inr hm')
    · exact ((hstops m').mp (.inr hm')).elim (hdeadline m') (hcancels hwaits m')
  · obtain ⟨hstop, hseen⟩ := h.error r hr
    refine ⟨.inr ⟨hlive, ?_⟩, hseen⟩
    obtain ⟨hstopped, -⟩ | ⟨-, hleast⟩ := hstop
    · exact absurd hstopped hpasses.live
    · simpa only [hstops] using hleast

end Settles

theorem Races.of_stopped (h : Races f k t b polls res u) (hs : t.scopes[k]? = some s)
    (hstopped : t.HasStopped s) :
    polls = [] ∧ ∃ r, res = .error r ∧ t.stopped k = (some r, u) := by
  cases h with
  | stops _ _ hreason => exact ⟨rfl, _, rfl, hreason⟩
  | ends hs' hlive | waits hs' hlive =>
    cases hs'.symm.trans hs
    exact absurd hstopped hlive

/-- Every race with work that would end at `finish` comes to what it should. -/
theorem Races.settles (h : Races f k t b polls res u) (ht : t.Formed)
    (hs : t.scopes[k]? = some s) (hf : f.Completes finish out t.now b) :
    t.Settles k s finish (f.Waits t.now b) out polls res u := by
  induction h generalizing s with
  | @stops t _ b _ _ hs' hstopped hreason =>
    cases hs'.symm.trans hs
    obtain ⟨r, v, htold, -, hnow, hagain⟩ := ht.stopped_eq hs hstopped
    cases hreason.symm.trans htold
    exact .of_stopped hstopped hnow hagain
  | @ends t b _ a hs' hlive hpoll =>
    cases hs'.symm.trans hs
    cases hf with
    | now hout =>
      cases hpoll.symm.trans hout
      exact .of_ready hlive (by simp [Future.Waits, hpoll])
    | later hpending =>
      rw [hpending] at hpoll
      cases hpoll
  | @waits t u b b' _ m polls res hs' hlive hpoll hwake rest ih =>
    cases hs'.symm.trans hs
    have hwaits : f.Waits t.now b := congrArg Prod.snd hpoll
    cases hf with
    | now hout =>
      rw [hpoll] at hout
      cases hout
    | later hpending hwakes hahead hlater =>
      cases hpending.symm.trans hpoll
      rw [hwakes] at hwake
      -- The scope stops before the work goes on, or nothing happens to it up to then.
      obtain ⟨m', hle, hends⟩ | hpasses := ht.beginDelays.ends_or_passes hs hlive hahead
      · cases hwake.symm.trans (hends.wake hle)
        obtain ⟨s', hs', hstopped⟩ := hends.stopped
        obtain ⟨rfl, r, rfl, hreason⟩ := rest.of_stopped hs' hstopped
        obtain ⟨r', v, htold, -, hnow, hagain⟩ :=
          (ht.beginDelays.wait m).stopped_eq hs' hstopped
        cases hreason.symm.trans htold
        exact .of_endsAt hlive hends (Nat.le_trans hle hlater.le) hwaits (hnow.trans hends.now)
          hagain
      · cases hwake.symm.trans (hpasses.wake ht.beginDelays)
        rw [← hpasses.now] at hlater
        refine .of_passes hlive hpasses hwaits (fun hready => ?_)
          (ih (ht.beginDelays.wait m) hpasses.same hlater)
        exact (Nat.le_antisymm hlater.le
          (Nat.le_of_not_lt fun hlt => hready (hlater.waits hlt))).symm.trans hpasses.now

theorem Runs.settles (h : Runs f k t b polls res u) (ht : t.Formed)
    (hs : t.scopes[k]? = some s) (hf : f.Completes finish out t.now b) :
    t.Settles k s finish (f.Waits t.now b) out polls res u := by
  by_cases hstopped : t.HasStopped s
  · obtain ⟨r, v, -, herr, hnow, hagain⟩ := ht.stopped_eq hs hstopped
    cases h with
    | refused h =>
      cases h.symm.trans herr
      exact .of_stopped hstopped hnow hagain
    | races h => cases h.symm.trans herr
  · have herr := ht.err_of_live hs hstopped
    cases h with
    | refused h => cases h.symm.trans herr
    | races h hrace =>
      cases h.symm.trans herr
      exact hrace.settles ht hs hf

namespace Formed

theorem races_of_stopped (ht : t.Formed) (hs : t.scopes[k]? = some s) (hstopped : t.HasStopped s)
    (f : Future σ α) (b : σ) : ∃ r u, Races f k t b [] (.error r) u := by
  obtain ⟨r, u, htold, -⟩ := ht.stopped_eq hs hstopped
  exact ⟨r, u, .stops hs hstopped htold⟩

theorem exists_races (ht : t.Formed) (hs : t.scopes[k]? = some s)
    (hf : f.Completes finish out t.now b) : ∃ polls res u, Races f k t b polls res u := by
  generalize hnow : t.now = now at hf
  induction hf generalizing t s with
  | @now b hpoll =>
    by_cases hstopped : t.HasStopped s
    · obtain ⟨r, u, hrace⟩ := ht.races_of_stopped hs hstopped f b
      exact ⟨_, _, _, hrace⟩
    · exact ⟨_, _, _, .ends hs hstopped (hnow ▸ hpoll)⟩
  | @later now wake b b' hpoll hwake hahead _ ih =>
    by_cases hstopped : t.HasStopped s
    · obtain ⟨r, u, hrace⟩ := ht.races_of_stopped hs hstopped f b
      exact ⟨_, _, _, hrace⟩
    · subst hnow
      obtain ⟨m, hle, hends⟩ | hpasses := ht.beginDelays.ends_or_passes hs hstopped hahead
      · obtain ⟨s', hs', hstopped'⟩ := hends.stopped
        obtain ⟨r, u, hrace⟩ := (ht.beginDelays.wait m).races_of_stopped hs' hstopped' f b'
        exact ⟨_, _, _, .waits hs hstopped hpoll (hwake ▸ hends.wake hle) hrace⟩
      · obtain ⟨polls, res, u, hrace⟩ := ih (ht.beginDelays.wait wake) hpasses.same hpasses.now
        exact ⟨_, _, _, .waits hs hstopped hpoll (hwake ▸ hpasses.wake ht.beginDelays) hrace⟩

theorem exists_runs (ht : t.Formed) (hs : t.scopes[k]? = some s)
    (hf : f.Completes finish out t.now b) : ∃ polls res u, Runs f k t b polls res u := by
  by_cases hstopped : t.HasStopped s
  · obtain ⟨r, u, -, herr, -⟩ := ht.stopped_eq hs hstopped
    exact ⟨[], _, u, .refused herr⟩
  · obtain ⟨polls, res, u, hrace⟩ := ht.exists_races hs hf
    exact ⟨polls, res, u, .races (ht.err_of_live hs hstopped) hrace⟩

end Formed

def told : Except StopReason α → ScopeAnswer
  | .ok _ => .ran
  | .error r => .stopped r

theorem step_run (hfind : t.find? n = some (k, s)) (d : Duration) :
    t.step (.run n d) = answered .ran (t.run k s d) := by
  simp [step, subject, hfind, stepWith]

theorem step_done (hfind : t.find? n = some (k, s)) (patience : Duration) :
    t.step (.done n patience) = answered .pending (t.done k s patience) := by
  simp [step, subject, hfind, stepWith]

namespace Formed

theorem runs_sleep (ht : t.Formed) (hs : t.scopes[k]? = some s) (d : Duration) :
    ∃ polls res u, Runs (Future.sleep d) k t none polls res u ∧
      answered .ran (t.run k s d) = (told res, u) := by
  by_cases hstopped : t.HasStopped s
  · obtain ⟨r, u, -, herr, -⟩ := ht.stopped_eq hs hstopped
    refine ⟨[], _, u, .refused herr, ?_⟩
    simp [ScopeTree.run, herr, answered, told]
  · have herr := ht.err_of_live hs hstopped
    cases hzero : d.isZero with
    | true =>
      refine ⟨_, _, _, .races herr (.ends hs hstopped (Future.sleep_poll_zero _ hzero)), ?_⟩
      simp [ScopeTree.run, herr, hzero, answered, told]
    | false =>
      have hpoll := Future.sleep_poll_none t.now hzero
      have hrun : t.run k s d = t.beginDelays.await k s (Instant.wake t.now d) := by
        simp only [ScopeTree.run, herr, hzero, Option.isSome_none, Bool.false_eq_true, if_false]
        rfl
      rw [hrun]
      obtain ⟨m, hle, hends⟩ | hpasses :=
        ht.beginDelays.ends_or_passes hs hstopped (Instant.le_wake t.now d)
      · obtain ⟨s', hs', hstopped'⟩ := hends.stopped
        obtain ⟨r, u, htold, -⟩ := (ht.beginDelays.wait m).stopped_eq hs' hstopped'
        refine ⟨_, _, _, .races herr (.waits hs hstopped hpoll (hends.wake hle)
          (.stops hs' hstopped' htold)), ?_⟩
        rw [hends.await hle, htold]
        rfl
      · have hready : ((Future.sleep d).poll (t.beginDelays.wait (Instant.wake t.now d)).now
            (some (Instant.wake t.now d))).2 = some () := by
          rw [hpasses.now]
          exact Future.sleep_poll_some _
        refine ⟨_, _, _, .races herr (.waits hs hstopped hpoll (hpasses.wake ht.beginDelays)
          (.ends hpasses.same hpasses.live hready)), ?_⟩
        rw [hpasses.await ht.beginDelays]
        rfl

theorem done_cases (ht : t.Formed) (hs : t.scopes[k]? = some s) (patience : Duration) :
    (∃ r u, t.done k s patience = (some r, u) ∧ t.FirstStop s u.now ∧
      u.now ≤ t.now + patience.nanos ∧ (u.err k).1 = some r) ∨
    (∃ u, t.done k s patience = (none, u) ∧ ∀ m, t.FirstStop s m → t.now + patience.nanos < m) := by
  unfold ScopeTree.done
  by_cases hstopped : t.HasStopped s
  · obtain ⟨r, u, htold, -, hnow, hagain⟩ := ht.stopped_eq hs hstopped
    rw [if_pos ((ht.observed_isSome_iff hs).mpr hstopped)]
    exact .inl ⟨r, u, htold, .inl ⟨hstopped, hnow⟩, hnow ▸ Nat.le_add_right _ _, hagain⟩
  · have hunseen : ¬ (t.observed s).isSome := by rwa [ht.observed_isSome_iff hs]
    rw [if_neg hunseen]
    change (∃ r u, t.beginDelays.await k s (t.now + patience.nanos) = (some r, u) ∧ _) ∨
      ∃ u, t.beginDelays.await k s (t.now + patience.nanos) = (none, u) ∧ _
    obtain ⟨m, hle, hends⟩ | hpasses :=
      ht.beginDelays.ends_or_passes hs hstopped (Nat.le_add_right t.now patience.nanos)
    · obtain ⟨s', hs', hstopped'⟩ := hends.stopped
      obtain ⟨r, u, htold, -, hnow, hagain⟩ := (ht.beginDelays.wait m).stopped_eq hs' hstopped'
      rw [hends.now] at hnow
      refine .inl ⟨r, u, (hends.await hle).trans htold, ?_, hnow.symm ▸ hle, hagain⟩
      rw [hnow]
      exact .inr ⟨hstopped, hends.least⟩
    · refine .inr ⟨_, hpasses.await ht.beginDelays, fun m hm => ?_⟩
      obtain ⟨hstopped', -⟩ | ⟨-, hleast⟩ := hm
      · exact absurd hstopped' hstopped
      · exact hpasses.later m hleast.1

end Formed

/-- Work inside a scope is done if and only if it ends before the scope stops. After any steps, work
that ends after the time `d`, if nothing stops it, is run inside a scope. It gives its output, at
the instant at which it ends, if the scope has not stopped, its deadline comes later, and no
cancellation of it or of a scope around it acts up to then; one that is due already acts as soon as
the work has to be waited for, as all work has to be that takes some time. Else the run ends with
the reason that is told of the scope from then on, at the first instant at which something stops it.
The work is never polled if the scope has stopped. To take a step that runs something is to run a
sleep, and a wait for the scope lasts up to the same instant, if that is within its patience. -/
theorem run_is_race (xs : List ScopeStep) {n k : Nat} {s : Scope}
    (hfind : (root.steps xs).2.find? n = some (k, s)) :
    let t := (root.steps xs).2
    (∀ {σ α : Type} (f : Future σ α) (b : σ) (d : Nat) (out : α),
      f.Completes (t.now + d) out t.now b →
      (∃ polls res u, Runs f k t b polls res u) ∧
      ∀ polls res u, Runs f k t b polls res u →
        t.Settles k s (t.now + d) (f.Waits t.now b) out polls res u) ∧
    (∀ d : Duration,
      (∃ e, (Future.sleep d).Completes (t.now + e) () t.now none ∧
        (t.now + d.nanos < Instant.limit → e = d.nanos)) ∧
      ∃ polls res u, Runs (Future.sleep d) k t none polls res u ∧
        t.step (.run n d) = (told res, u)) ∧
    ∀ patience : Duration,
      (∃ r u, t.step (.done n patience) = (.stopped r, u) ∧ t.FirstStop s u.now ∧
        u.now ≤ t.now + patience.nanos ∧ (u.err k).1 = some r) ∨
      ∃ u, t.step (.done n patience) = (.pending, u) ∧
        ∀ m, t.FirstStop s m → t.now + patience.nanos < m := by
  intro t
  have ht : t.Formed := formed_root.steps xs
  have hs : t.scopes[k]? = some s := (find?_eq_some hfind).2
  refine ⟨fun f b d out hf => ⟨ht.exists_runs hs hf, fun polls res u h => h.settles ht hs hf⟩,
    fun d => ⟨Future.sleep_completes d t.now, ?_⟩, fun patience => ?_⟩
  · rw [step_run hfind]
    exact ht.runs_sleep hs d
  · rw [step_done hfind]
    obtain ⟨r, u, hdone, hrest⟩ | ⟨u, hdone, hrest⟩ := ht.done_cases hs patience
    · exact .inl ⟨r, u, congrArg (answered .pending) hdone, hrest⟩
    · exact .inr ⟨u, congrArg (answered .pending) hdone, hrest⟩

/-- A scope that lasts for five seconds, to be cancelled after two with the one around it. -/
def limited : List ScopeStep := [.timeout 0 (.ofSecs 5), .cancelAfter 0 (.ofSecs 2)]

/-- Inside it a sleep of a second ends, a sleep of three is cancelled, and so is a wait for it. -/
theorem limited_races :
    ∃ t s, t = (root.steps limited).2 ∧ t.find? 1 = some (1, s) ∧
      (∃ u, t.step (.run 1 (.ofSecs 1)) = (.ran, u) ∧ u.now = 1 * 10 ^ 9) ∧
      (∃ r u, t.step (.run 1 (.ofSecs 3)) = (.stopped r, u) ∧ u.now = 2 * 10 ^ 9 ∧
        (u.err 1).1 = some r) ∧
      ∃ r u, t.step (.done 1 (.ofSecs 9)) = (.stopped r, u) ∧ u.now = 2 * 10 ^ 9 ∧
        (u.err 1).1 = some r := by
  obtain ⟨t, ht⟩ : ∃ t, t = (root.steps limited).2 := ⟨_, rfl⟩
  obtain ⟨s, hs⟩ : ∃ s : Scope, s = ⟨[1, 0], some (5 * 10 ^ 9), none⟩ := ⟨_, rfl⟩
  have hfind : (root.steps limited).2.find? 1 = some (1, s) := hs ▸ rfl
  obtain ⟨hraces, hruns, hdone⟩ := run_is_race limited hfind
  rw [← ht] at hfind hraces hruns hdone
  have hnow : t.now = 0 := ht ▸ rfl
  have hdeadline : s.deadline = some (5 * 10 ^ 9) := hs ▸ rfl
  have hlive : ¬ t.HasStopped s := by
    have hgoes : t.isCanceled s = false := ht ▸ hs ▸ rfl
    simp [HasStopped, hdeadline, hnow, hgoes]
  have hcancels : ∀ m, t.Cancels s m ↔ m = 2 * 10 ^ 9 := by
    have hpending : t.beginDelays.pending = [(2 * 10 ^ 9, 0)] := ht ▸ rfl
    simp [Cancels, hpending, hnow, hs]
  have hfirst : t.FirstStop s (2 * 10 ^ 9) := by
    refine .inr ⟨hlive, .inr ((hcancels _).mpr rfl), fun m hm => ?_⟩
    rcases hm with hm | hm
    · cases hdeadline.symm.trans hm
      decide
    · exact Nat.le_of_eq ((hcancels m).mp hm).symm
  refine ⟨t, s, ht, hfind, ?_, ?_, ?_⟩
  · obtain ⟨⟨e, hcompletes, he⟩, polls, res, u, hrun, hstep⟩ := hruns (.ofSecs 1)
    have hsettles := (hraces _ _ _ _ hcompletes).2 polls res u hrun
    rw [he (by rw [hnow]; decide), hnow] at hsettles
    have hok : res = .ok () := by
      refine hsettles.ok_iff.mpr ⟨hlive, fun d hd => ?_, fun _ m hm => ?_⟩
      · cases hdeadline.symm.trans hd
        decide
      · rw [(hcancels m).mp hm]
        decide
    exact ⟨u, by rw [hstep, hok]; rfl, (hsettles.ok () hok).2⟩
  · obtain ⟨⟨e, hcompletes, he⟩, polls, res, u, hrun, hstep⟩ := hruns (.ofSecs 3)
    have hsettles := (hraces _ _ _ _ hcompletes).2 polls res u hrun
    rw [he (by rw [hnow]; decide), hnow] at hsettles hcompletes
    cases res with
    | ok a =>
      have hwaits := hcompletes.waits (by decide)
      have hlater := (hsettles.ok_iff.mp rfl).2.2 hwaits _ ((hcancels _).mpr rfl)
      exact absurd hlater (by decide)
    | error r =>
      obtain ⟨hstop, hagain⟩ := hsettles.error r rfl
      exact ⟨r, u, hstep, hstop.unique hfirst, hagain⟩
  · obtain ⟨r, u, hstep, hstop, -, hagain⟩ | ⟨u, -, hlater⟩ := hdone (.ofSecs 9)
    · exact ⟨r, u, hstep, hstop.unique hfirst, hagain⟩
    · have hlater := hlater _ hfirst
      rw [hnow] at hlater
      exact absurd hlater (by decide)

end ScopeTree

end PhasedLoad
