import PhasedLoad.Proofs.Scope.Lineage

/-! How stops spread. A scope that any steps bring about has stopped once its deadline has passed or
it was cancelled with a scope around it: the reason that it remembers tells of nothing else. So it
has stopped whenever a scope around it has. -/

namespace PhasedLoad

namespace ScopeTree

variable {bs : List Birth} {t u : ScopeTree} {id k a : Nat} {s : Scope}

/-- Its deadline has passed, or it was cancelled. -/
def HasStopped (t : ScopeTree) (s : Scope) : Prop :=
  (∃ d ∈ s.deadline, d ≤ t.now) ∨ t.isCanceled s = true

theorem isCanceled_iff : t.isCanceled s = true ↔ ∃ a ∈ s.path, a ∈ t.canceled := by
  simp [isCanceled]

theorem HasStopped.mono (h : t.HasStopped s) (hnow : t.now ≤ u.now)
    (hcanceled : t.canceled ⊆ u.canceled) : u.HasStopped s := by
  rcases h with ⟨d, hd, hle⟩ | h
  · exact .inl ⟨d, hd, Nat.le_trans hle hnow⟩
  · obtain ⟨a, ha, hmem⟩ := isCanceled_iff.mp h
    exact .inr (isCanceled_iff.mpr ⟨a, ha, hcanceled hmem⟩)

/-- A reason is seen of scopes that have stopped, if those that remember one have. -/
theorem observed_isSome_iff (hlatched : s.reason.isSome → t.HasStopped s) :
    (t.observed s).isSome ↔ t.HasStopped s := by
  unfold observed
  split
  · next r hr => exact ⟨fun _ => hlatched (by rw [hr]; rfl), fun _ => rfl⟩
  · unfold StopReason.observe HasStopped
    cases s.deadline with
    | none => by_cases hc : t.isCanceled s = true <;> simp [hc]
    | some d =>
      by_cases hd : d ≤ t.now <;> by_cases hc : t.isCanceled s = true <;> simp [hd, hc]

/-- What every step keeps of the scopes and of the cancellations under way. -/
structure Formed (t : ScopeTree) : Prop where
  rooted : ∃ bs, Rooted bs t
  canceled : ∀ k ∈ t.canceled, k < t.scopes.length
  delayed : ∀ p ∈ t.delayed, p.2 < t.scopes.length
  pending : ∀ p ∈ t.pending, p.2 < t.scopes.length
  sorted : t.pending.Pairwise fun p q => p.1 ≤ q.1
  latched : ∀ s ∈ t.scopes, s.reason.isSome → t.HasStopped s

theorem formed_root : root.Formed where
  rooted := ⟨_, rooted_root⟩
  canceled := by simp [root]
  delayed := by simp [root]
  pending := by simp [root]
  sorted := .nil
  latched := by simp [root]

theorem length_of_frames (h : u.frames = t.frames) : u.scopes.length = t.scopes.length := by
  rw [← length_frames, h, length_frames]

theorem Rooted.of_frames (ht : Rooted bs t) (h : u.frames = t.frames) : Rooted bs u where
  length := by rw [length_of_frames h, ht.length]
  frame := by
    rw [h]
    exact ht.frame

namespace Formed

theorem exists_around (ht : t.Formed) (hs : t.scopes[k]? = some s) (ha : a ∈ s.path) :
    ∃ r, t.scopes[a]? = some r ∧ r.path <:+ s.path ∧
      (∀ d ∈ r.deadline, ∃ d' ∈ s.deadline, d' ≤ d) ∧
      (t.HasStopped r → t.HasStopped s) := by
  obtain ⟨bs, hrooted⟩ := ht.rooted
  obtain ⟨hline, hdeadline⟩ := hrooted.frame k _ _ (frames_getElem? hs)
  obtain ⟨path, haround, hsuffix⟩ := hline.exists_suffix ha
  have hlt : a < t.scopes.length := hrooted.length ▸ hline.lt_length a ha
  obtain ⟨r, hr⟩ : ∃ r, t.scopes[a]? = some r := ⟨_, List.getElem?_eq_getElem hlt⟩
  obtain ⟨hline', hdeadline'⟩ := hrooted.frame a _ _ (frames_getElem? hr)
  obtain rfl := haround.unique hline'
  have hearlier : ∀ d ∈ r.deadline, ∃ d' ∈ s.deadline, d' ≤ d := by
    rw [hdeadline, hdeadline']
    exact fun d hd => earliestOn_le hsuffix hd
  refine ⟨r, hr, hsuffix, hearlier, ?_⟩
  rintro (⟨d, hd, hle⟩ | hcanceled)
  · obtain ⟨d', hd', hle'⟩ := hearlier d hd
    exact .inl ⟨d', hd', Nat.le_trans hle' hle⟩
  · obtain ⟨b, hb, hmem⟩ := isCanceled_iff.mp hcanceled
    exact .inr (isCanceled_iff.mpr ⟨b, hsuffix.subset hb, hmem⟩)

theorem err_isSome_iff (ht : t.Formed) (hs : t.scopes[k]? = some s) :
    (t.err k).1.isSome ↔ t.HasStopped s := by
  unfold err
  rw [hs, Option.bind_some]
  exact observed_isSome_iff (ht.latched s (List.mem_of_getElem? hs))

theorem later (ht : t.Formed) {m : Instant} (hm : t.now ≤ m) : Formed { t with now := m } where
  rooted := ht.rooted.imp fun _ h => h.of_frames rfl
  canceled := ht.canceled
  delayed := ht.delayed
  pending := ht.pending
  sorted := ht.sorted
  latched s hs hreason := (ht.latched s hs hreason).mono hm fun _ h => h

theorem err (ht : t.Formed) (id : Nat) : (t.err id).2.Formed where
  rooted := ht.rooted.imp fun _ h => h.of_frames (frames_err t id)
  canceled := by
    rw [length_of_frames (frames_err t id)]
    exact ht.canceled
  delayed := by
    rw [length_of_frames (frames_err t id)]
    exact ht.delayed
  pending := by
    rw [length_of_frames (frames_err t id)]
    exact ht.pending
  sorted := ht.sorted
  latched := by
    intro s hs hreason
    obtain ⟨k, hk⟩ := List.mem_iff_getElem?.mp hs
    rw [ScopeTree.err, remember_getElem?] at hk
    obtain ⟨r, hr, hsr⟩ := Option.map_eq_some_iff.mp hk
    have hbefore := ht.latched r (List.mem_of_getElem? hr)
    split at hsr
    · next hid =>
      subst hid hsr
      rw [hr, Option.bind_some] at hreason
      exact (observed_isSome_iff hbefore).mp hreason
    · obtain rfl : r = s := hsr
      exact hbefore hreason

theorem cancel (ht : t.Formed) (hid : id < t.scopes.length) : (t.cancel id).Formed := by
  have hmarked : Formed { t with canceled := id :: t.canceled } := by
    refine ⟨ht.rooted.imp fun _ h => h.of_frames rfl, fun k hk => ?_, ht.delayed, ht.pending,
      ht.sorted, fun s hs hreason => ?_⟩
    · rcases List.mem_cons.mp hk with rfl | hk
      · exact hid
      · exact ht.canceled k hk
    · exact (ht.latched s hs hreason).mono (Nat.le_refl _) fun _ => List.mem_cons_of_mem id
  exact hmarked.err id

theorem act (ht : t.Formed) {ps : List (Instant × Nat)} (limit : Instant)
    (hps : ∀ p ∈ ps, p.2 < t.scopes.length) : (act limit ps t).Formed := by
  induction ps generalizing t with
  | nil => exact ht
  | cons p ps ih =>
    rw [ScopeTree.act]
    split
    · refine ih ((ht.later (Nat.le_max_left _ _)).cancel (hps p List.mem_cons_self)) fun q hq => ?_
      rw [length_of_frames (frames_cancel _ _)]
      exact hps q (List.mem_cons_of_mem _ hq)
    · exact ht

end Formed

theorem mem_schedule {p q : Instant × Nat} {ps : List (Instant × Nat)} :
    q ∈ schedule p ps ↔ q = p ∨ q ∈ ps := by
  induction ps with
  | nil => simp [schedule]
  | cons r ps ih =>
    rw [schedule]
    split
    · simp
    · simp only [List.mem_cons, ih]
      grind

theorem pairwise_schedule {p : Instant × Nat} {ps : List (Instant × Nat)}
    (h : ps.Pairwise fun p q => p.1 ≤ q.1) : (schedule p ps).Pairwise fun p q => p.1 ≤ q.1 := by
  induction ps with
  | nil => simp [schedule]
  | cons r ps ih =>
    obtain ⟨hr, hps⟩ := List.pairwise_cons.mp h
    rw [schedule]
    split
    · next hlt =>
      refine List.pairwise_cons.mpr ⟨fun q hq => ?_, h⟩
      rcases List.mem_cons.mp hq with rfl | hq
      · exact Nat.le_of_lt hlt
      · exact Nat.le_trans (Nat.le_of_lt hlt) (hr q hq)
    · next hle =>
      refine List.pairwise_cons.mpr ⟨fun q hq => ?_, ih hps⟩
      rcases mem_schedule.mp hq with rfl | hq
      · exact Nat.le_of_not_lt hle
      · exact hr q hq

namespace Formed

theorem wait (ht : t.Formed) (t' : Instant) : (t.wait t').Formed := by
  have hsifted : Formed { t with pending := t.pending.filter fun p => t' < p.1 } :=
    ⟨ht.rooted.imp fun _ h => h.of_frames rfl, ht.canceled, ht.delayed,
      fun p hp => ht.pending p (List.mem_filter.mp hp).1, ht.sorted.filter _, ht.latched⟩
  exact (hsifted.act t' ht.pending).later (Nat.le_max_left _ _)

theorem beginDelays (ht : t.Formed) : t.beginDelays.Formed := by
  -- The cancellations under way stay those of scopes, in order, with each one that begins.
  have hfold : ∀ ds : List (Duration × Nat), (∀ p ∈ ds, p.2 < t.scopes.length) →
      ∀ ps : List (Instant × Nat), (∀ p ∈ ps, p.2 < t.scopes.length) →
      (ps.Pairwise fun p q => p.1 ≤ q.1) →
      (∀ p ∈ ds.foldl (fun ps p => schedule (Instant.wake t.now p.1, p.2) ps) ps,
        p.2 < t.scopes.length) ∧
      (ds.foldl (fun ps p => schedule (Instant.wake t.now p.1, p.2) ps) ps).Pairwise
        fun p q => p.1 ≤ q.1 := by
    intro ds
    induction ds with
    | nil => exact fun _ ps hps hsorted => ⟨hps, hsorted⟩
    | cons d ds ih =>
      intro hds ps hps hsorted
      refine ih (fun p hp => hds p (List.mem_cons_of_mem _ hp)) _ (fun p hp => ?_)
        (pairwise_schedule hsorted)
      rcases mem_schedule.mp hp with rfl | hp
      · exact hds d List.mem_cons_self
      · exact hps p hp
  obtain ⟨hpending, hsorted⟩ := hfold t.delayed ht.delayed t.pending ht.pending ht.sorted
  exact ⟨ht.rooted.imp fun _ h => h.of_frames rfl, ht.canceled, (fun _ h => nomatch h), hpending,
    hsorted, ht.latched⟩

theorem advance (ht : t.Formed) (d : Duration) : (t.advance d).Formed :=
  ((ht.later (Nat.le_add_right _ _)).wait t.now).beginDelays

theorem done (ht : t.Formed) (id : Nat) (s : Scope) (patience : Duration) :
    (t.done id s patience).2.Formed := by
  unfold ScopeTree.done
  dsimp only
  split
  · exact ht.err id
  · split
    · exact (ht.beginDelays.wait _).err id
    · exact ht.beginDelays.wait _

theorem run (ht : t.Formed) (id : Nat) (s : Scope) (d : Duration) : (t.run id s d).2.Formed := by
  unfold ScopeTree.run
  dsimp only
  split
  · exact ht.err id
  · split
    · exact ht.err id
    · split
      · exact ((ht.err id).beginDelays.wait _).err id
      · exact (ht.err id).beginDelays.wait _

theorem add (ht : t.Formed) {path : List Nat} {deadline : Option Instant}
    (hrooted : ∃ bs, Rooted bs (t.add path deadline).2) : (t.add path deadline).2.Formed where
  rooted := hrooted
  canceled k hk := by
    have := ht.canceled k hk
    simp only [ScopeTree.add, List.length_append]
    omega
  delayed p hp := by
    have := ht.delayed p hp
    simp only [ScopeTree.add, List.length_append]
    omega
  pending p hp := by
    have := ht.pending p hp
    simp only [ScopeTree.add, List.length_append]
    omega
  sorted := ht.sorted
  latched := by
    intro s hs hreason
    rcases List.mem_append.mp hs with hs | hs
    · exact ht.latched s hs hreason
    · obtain rfl := List.mem_singleton.mp hs
      cases hreason

theorem step (ht : t.Formed) (x : ScopeStep) : (t.step x).2.Formed := by
  obtain ⟨bs, hrooted⟩ := ht.rooted
  have hafter : ∃ bs, Rooted bs (t.step x).2 := ⟨_, hrooted.step x⟩
  unfold ScopeTree.step at hafter ⊢
  cases hfind : t.find? (subject x) with
  | none => exact ht
  | some p =>
    obtain ⟨id, s⟩ := p
    rw [hfind] at hafter
    have hid : id < t.scopes.length :=
      (List.getElem?_eq_some_iff.mp (find?_eq_some hfind).2).1
    cases x with
    | root => exact ht.add hafter
    | child => exact ht.add hafter
    | timeout => exact ht.add hafter
    | clone =>
      exact ⟨hafter, ht.canceled, ht.delayed, ht.pending, ht.sorted, ht.latched⟩
    | cancel => exact ht.cancel hid
    | cancelAfter name d =>
      refine ⟨hafter, ht.canceled, fun p hp => ?_, ht.pending, ht.sorted, ht.latched⟩
      rcases List.mem_append.mp hp with hp | hp
      · exact ht.delayed p hp
      · obtain rfl := List.mem_singleton.mp hp
        exact hid
    | advance d => exact ht.advance d
    | err => exact (answered_snd _ _).symm ▸ ht.err id
    | remaining => exact ht
    | deadline => exact ht
    | done name patience => exact (answered_snd _ _).symm ▸ ht.done id s patience
    | run name d => exact (answered_snd _ _).symm ▸ ht.run id s d

theorem steps (ht : t.Formed) (xs : List ScopeStep) : (t.steps xs).2.Formed := by
  induction xs generalizing t with
  | nil => exact ht
  | cons x xs ih => exact ih (ht.step x)

end Formed

end ScopeTree

end PhasedLoad
