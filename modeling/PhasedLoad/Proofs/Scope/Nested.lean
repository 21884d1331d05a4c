import PhasedLoad.Proofs.Scope.Latch

/-! Scopes made for a part of some work: what happens to the new scope is not heard of in those that
were there before, whatever came between. -/

namespace PhasedLoad

namespace ScopeTree

variable {t : ScopeTree} {k n : Nat} {s : Scope} {x : ScopeStep} {limit : Instant}

theorem act_names (limit : Instant) (ps : List (Instant × Nat)) (t : ScopeTree) :
    (act limit ps t).names = t.names := by
  induction ps generalizing t with
  | nil => rfl
  | cons p ps ih =>
    rw [act]
    split
    · exact ih _
    · rfl

theorem wait_names (t : ScopeTree) (limit : Instant) : (t.wait limit).names = t.names :=
  act_names limit t.pending { t with pending := t.pending.filter fun p => limit < p.1 }

theorem await_names (t : ScopeTree) (k : Nat) (s : Scope) (limit : Instant) :
    (t.await k s limit).2.names = t.names := by
  unfold await
  split
  · exact wait_names t _
  · exact wait_names t _

theorem observing_names (hfind : t.find? n = some (k, s)) (hx : x.Observes n) :
    (t.step x).2.names = t.names := by
  obtain ⟨r, -, hstep, -⟩ | ⟨-, -, otherwise, -, hstep⟩ |
    ⟨-, otherwise, limit, -, -, hstep, -⟩ := observes_cases hfind hx
  · rw [hstep]
    rfl
  · rw [hstep]
  · rw [hstep, answered_snd]
    exact await_names t.beginDelays k s limit

theorem names_isPrefix_step (t : ScopeTree) (x : ScopeStep) : t.names <+: (t.step x).2.names := by
  cases hfind : t.find? (subject x) with
  | none => simp [step, hfind]
  | some p =>
    obtain ⟨k, s⟩ := p
    cases x with
    | err => exact observing_names hfind .err ▸ List.prefix_refl _
    | done _ patience => exact observing_names hfind (.done patience) ▸ List.prefix_refl _
    | run _ d => exact observing_names hfind (.run d) ▸ List.prefix_refl _
    | root | child | timeout | clone =>
      simp only [step, hfind]
      exact List.prefix_append _ _
    | cancel | cancelAfter | remaining | deadline =>
      simp only [step, hfind]
      exact List.prefix_refl _
    | advance d =>
      simp only [step, hfind]
      have hwait := wait_names { t with now := t.now + d.nanos } t.now
      exact hwait.symm ▸ List.prefix_refl _

theorem names_isPrefix (t : ScopeTree) (xs : List ScopeStep) :
    t.names <+: (t.steps xs).2.names := by
  induction xs generalizing t with
  | nil => exact List.prefix_refl _
  | cons x xs ih => exact (names_isPrefix_step t x).trans (ih (t.step x).2)

/-- A name stands for the same scope, with the same scopes around it, ever after. -/
theorem find?_steps (h : t.find? n = some (k, s)) (xs : List ScopeStep) :
    ∃ s', (t.steps xs).2.find? n = some (k, s') ∧ s'.path = s.path := by
  obtain ⟨hname, hs⟩ := find?_eq_some h
  obtain ⟨newer, hnames⟩ := names_isPrefix t xs
  obtain ⟨later, hframes⟩ := frames_isPrefix t xs
  have hname' : (t.steps xs).2.names[n]? = some k := by
    rw [← hnames, List.getElem?_append_left (List.getElem?_eq_some_iff.mp hname).1, hname]
  have hframe := frames_getElem? hs
  have hframe' : (t.steps xs).2.frames[k]? = some (s.path, s.deadline) := by
    rw [← hframes, List.getElem?_append_left (List.getElem?_eq_some_iff.mp hframe).1, hframe]
  obtain ⟨s', hs', hsame⟩ := exists_of_frames_getElem? hframe'
  exact ⟨s', by simp [find?, hname', hs'], (Prod.mk.inj hsame).1⟩

theorem find?_add (t : ScopeTree) (path : List Nat) (deadline : Option Instant) :
    (t.add path deadline).2.find? (t.add path deadline).1 =
      some (t.scopes.length, ⟨t.scopes.length :: path, deadline, none⟩) := by
  simp [find?, add]

theorem Formed.lt_of_mem (ht : t.Formed) (hs : t.scopes[k]? = some s) {a : Nat} (ha : a ∈ s.path) :
    a < t.scopes.length := by
  obtain ⟨bs, hrooted⟩ := ht.rooted
  exact hrooted.length ▸ (hrooted.frame k _ _ (frames_getElem? hs)).1.lt_length a ha

theorem step_child {parent name : Nat} (h : (t.step (.child parent)).1 = .name name) :
    ∃ p s, t.find? parent = some (p, s) ∧ name = (t.add s.path s.deadline).1 ∧
      (t.step (.child parent)).2 = (t.add s.path s.deadline).2 := by
  unfold step at h ⊢
  cases hfind : t.find? (subject (.child parent)) with
  | none =>
    rw [hfind] at h
    cases h
  | some q =>
    obtain ⟨p, s⟩ := q
    rw [hfind] at h
    cases h
    exact ⟨p, s, hfind, rfl, rfl⟩

theorem concerns_of_observes (hx : x.Observes n) (hfind : t.find? n = some (k, s)) (id : Nat) :
    t.concerns id x = s.path.contains id := by
  cases hx <;> simp [concerns, subject, hfind]

/-- Whatever comes after a scope was made inside another one: to cancel it is not heard of by those
who ask for a scope that was there before. -/
theorem Formed.cancel_child (ht : t.Formed) {parent child : Nat}
    (hchild : (t.step (.child parent)).1 = .name child) (xs : List ScopeStep)
    (hname : t.find? n = some (k, s)) (hx : x.Observes n) :
    let u := ((t.step (.child parent)).2.steps xs).2
    ((u.step (.cancel child)).2.step x).1 = (u.step x).1 := by
  intro u
  have hu : u.Formed := (ht.step (.child parent)).steps xs
  obtain ⟨p, outer, -, rfl, hmade⟩ := step_child hchild
  have hnew := find?_add t outer.path outer.deadline
  rw [← hmade] at hnew
  obtain ⟨inner, hinner, hpath⟩ : ∃ s', u.find? _ = some (t.scopes.length, s') ∧ s'.path = _ :=
    find?_steps hnew xs
  obtain ⟨s', hs', hsame⟩ : ∃ s', u.find? n = some (k, s') ∧ s'.path = s.path :=
    find?_steps hname (.child parent :: xs)
  -- The new scope is inside itself and around nothing that was there before.
  have hconcerns : u.concerns t.scopes.length (.cancel (t.add outer.path outer.deadline).1) =
      true := by
    simp [concerns, subject, hinner, hpath]
  have hother : u.concerns t.scopes.length x = false := by
    rw [concerns_of_observes hx hs', hsame]
    have hnot : t.scopes.length ∉ s.path := fun hmem =>
      Nat.lt_irrefl _ (ht.lt_of_mem (find?_eq_some hname).2 hmem)
    simpa using hnot
  have hleft := hu.without_step hconcerns rfl rfl
  have hlike := hu.step_like (hu.step (.cancel (t.add outer.path outer.deadline).1)) hleft.symm
    (x := x) (by rw [hother, Bool.and_false])
  exact (hlike.2 hother).symm

theorem step_timeout {parent name : Nat} {d : Duration}
    (h : (t.step (.timeout parent d)).1 = .name name) :
    ∃ p s, t.find? parent = some (p, s) ∧
      ((t.step (.timeout parent d)).2.find? name).isSome := by
  unfold step at h ⊢
  cases hfind : t.find? (subject (.timeout parent d)) with
  | none =>
    rw [hfind] at h
    cases h
  | some q =>
    obtain ⟨p, s⟩ := q
    rw [hfind] at h
    cases h
    refine ⟨p, s, hfind, ?_⟩
    have hnew := find?_add t s.path (earliest? s.deadline (Instant.after? t.now d))
    exact Option.isSome_iff_exists.mpr ⟨_, hnew⟩

/-- Inside a scope that lasts for some time another one was made: to cancel that is heard of neither
in the scope that lasts nor in the one around it. -/
theorem Formed.cancel_grandchild (ht : t.Formed) {parent group reporter : Nat} {d : Duration}
    (hgroup : (t.step (.timeout parent d)).1 = .name group)
    (hreporter : ((t.step (.timeout parent d)).2.step (.child group)).1 = .name reporter)
    (xs : List ScopeStep) (hn : n ∈ [parent, group]) (hx : x.Observes n) :
    let u := (((t.step (.timeout parent d)).2.step (.child group)).2.steps xs).2
    ((u.step (.cancel reporter)).2.step x).1 = (u.step x).1 := by
  obtain ⟨p, outer, houter, hinner⟩ := step_timeout hgroup
  have hfind : ∃ k s, (t.step (.timeout parent d)).2.find? n = some (k, s) := by
    rcases List.mem_cons.mp hn with rfl | hn
    · obtain ⟨s, hs, -⟩ := find?_steps houter [.timeout n d]
      exact ⟨p, s, hs⟩
    · obtain rfl := List.mem_singleton.mp hn
      obtain ⟨⟨k, s⟩, hs⟩ := Option.isSome_iff_exists.mp hinner
      exact ⟨k, s, hs⟩
  obtain ⟨k, s, hname⟩ := hfind
  exact (ht.step (.timeout parent d)).cancel_child hreporter xs hname hx

end ScopeTree

end PhasedLoad
