import PhasedLoad.Proofs.Scope.Propagation

/-! What a cancellation leaves alone. Forget what happened to a scope and to all inside it: every
step about another scope brings the same then, and leaves behind the same but for what is forgotten.
A cancellation of that scope is forgotten with it, so no step about another scope tells of it. -/

namespace PhasedLoad

namespace ScopeStep

def waits : ScopeStep → Bool
  | done .. | run .. => true
  | _ => false

def gives : ScopeStep → Bool
  | root | child _ | clone _ | timeout .. => true
  | _ => false

end ScopeStep

namespace ScopeTree

/-- A step about scope `id` or one inside it. -/
def concerns (id : Nat) (t : ScopeTree) : ScopeStep → Bool
  | .root | .advance _ => false
  | x => (t.find? (subject x)).any fun p => p.2.path.contains id

/-- The steps less those that wait for scope `id` or for one inside it. -/
def unawaited (id : Nat) (t : ScopeTree) : List ScopeStep → List ScopeStep
  | [] => []
  | x :: xs =>
    if x.waits && t.concerns id x then t.unawaited id xs
    else x :: (t.step x).2.unawaited id xs

/-- What steps bring that are about no scope inside `id`, each with the instant after it. -/
def heard (id : Nat) (t : ScopeTree) : List ScopeStep → List (Instant × ScopeAnswer)
  | [] => []
  | x :: xs =>
    if t.concerns id x then (t.step x).2.heard id xs
    else ((t.step x).2.now, (t.step x).1) :: (t.step x).2.heard id xs

def outside (id : Nat) (t : ScopeTree) (k : Nat) : Bool :=
  t.frames[k]?.all fun f => !f.1.contains id

end ScopeTree

def Scope.forget (id : Nat) (s : Scope) : Scope :=
  if id ∈ s.path then { s with reason := none } else s

section

variable {id : Nat} {s : Scope}

@[simp] theorem Scope.forget_path : (s.forget id).path = s.path := by
  unfold forget
  split <;> rfl

@[simp] theorem Scope.forget_deadline : (s.forget id).deadline = s.deadline := by
  unfold forget
  split <;> rfl

theorem Scope.forget_of_notMem (h : id ∉ s.path) : s.forget id = s := if_neg h

theorem Scope.forget_reason (h : id ∈ s.path) (reason : Option StopReason) :
    forget id { s with reason := reason } = s.forget id := by
  unfold forget
  rw [if_pos h, if_pos h]

end

namespace ScopeTree

variable {t u : ScopeTree} {id k : Nat} {s : Scope} {out : Nat → Bool} {x : ScopeStep}

/-- With no more of the scopes inside `id` than their ways and deadlines, where `out` tells the
scopes outside. -/
def strip (id : Nat) (out : Nat → Bool) (t : ScopeTree) : ScopeTree :=
  { t with
    scopes := t.scopes.map (Scope.forget id)
    canceled := t.canceled.filter out
    delayed := t.delayed.filter fun p => out p.2
    pending := t.pending.filter fun p => out p.2 }

/-- With nothing left of what happened to scope `id` and to those inside it. -/
def without (id : Nat) (t : ScopeTree) : ScopeTree := t.strip id (t.outside id)

theorem now_without : (t.without id).now = t.now := rfl

theorem outside_of_frames (h : u.frames = t.frames) : u.outside id = t.outside id := by
  unfold outside
  rw [h]

theorem without_of_frames (h : u.frames = t.frames) : u.without id = u.strip id (t.outside id) := by
  rw [without, outside_of_frames h]

/-- `out` tells the scopes outside `id`, and all around such a scope is outside. -/
def Separates (id : Nat) (out : Nat → Bool) (t : ScopeTree) : Prop :=
  ∀ k f, t.frames[k]? = some f →
    (out k = true ↔ id ∉ f.1) ∧ (id ∉ f.1 → ∀ a ∈ f.1, out a = true)

theorem Formed.separates (ht : t.Formed) (id : Nat) : t.Separates id (t.outside id) := by
  have hout : ∀ k f, t.frames[k]? = some f → (t.outside id k = true ↔ id ∉ f.1) := by
    intro k f hk
    simp [outside, hk]
  refine fun k f hk => ⟨hout k f hk, fun hid a ha => ?_⟩
  obtain ⟨s, hs, rfl⟩ := exists_of_frames_getElem? hk
  obtain ⟨r, hr, hsuffix, -⟩ := ht.exists_around hs ha
  exact (hout a _ (frames_getElem? hr)).mpr fun hmem => hid (hsuffix.subset hmem)

theorem Separates.of_frames (hsep : t.Separates id out) (h : u.frames = t.frames) :
    u.Separates id out := by
  unfold Separates
  rw [h]
  exact hsep

theorem strip_scopes_getElem? : (t.strip id out).scopes[k]? = t.scopes[k]?.map (Scope.forget id) :=
  List.getElem?_map

theorem find?_strip (n : Nat) :
    (t.strip id out).find? n = (t.find? n).map fun p => (p.1, p.2.forget id) := by
  have hnames : (t.strip id out).names[n]? = t.names[n]? := rfl
  unfold find?
  rw [hnames]
  cases t.names[n]? with
  | none => rfl
  | some k =>
    simp only [Option.bind_eq_bind, Option.bind_some, strip_scopes_getElem?]
    cases t.scopes[k]? <;> rfl

theorem concerns_strip : (t.strip id out).concerns id x = t.concerns id x := by
  cases x <;> simp [concerns, find?_strip, Option.any_map]

theorem remember_strip_outer (hs : t.scopes[k]? = some s) (hid : id ∉ s.path)
    (reason : Option StopReason) :
    (t.strip id out).remember k reason = (t.remember k reason).strip id out := by
  have hscopes : ((t.strip id out).remember k reason).scopes =
      ((t.remember k reason).strip id out).scopes := by
    refine List.ext_getElem? fun j => ?_
    rw [remember_getElem?, strip_scopes_getElem?, strip_scopes_getElem?, remember_getElem?]
    by_cases hj : k = j
    · subst hj
      simp [hs, Scope.forget_of_notMem, hid]
    · simp [hj, Function.comp_def]
  simp only [remember, strip] at hscopes ⊢
  rw [hscopes]

theorem remember_strip_inner (hs : t.scopes[k]? = some s) (hid : id ∈ s.path)
    (reason : Option StopReason) :
    (t.remember k reason).strip id out = t.strip id out := by
  have hscopes : ((t.remember k reason).strip id out).scopes = (t.strip id out).scopes := by
    refine List.ext_getElem? fun j => ?_
    rw [strip_scopes_getElem?, strip_scopes_getElem?, remember_getElem?]
    by_cases hj : k = j
    · subst hj
      simp [hs, Scope.forget_reason hid]
    · simp [hj]
  simp only [remember, strip] at hscopes ⊢
  rw [hscopes]

theorem isCanceled_strip (hs : ∀ a ∈ s.path, out a = true) :
    (t.strip id out).isCanceled s = t.isCanceled s := by
  rw [Bool.eq_iff_iff, isCanceled_iff, isCanceled_iff]
  refine exists_congr fun a => and_congr_right fun ha => ?_
  rw [strip, List.mem_filter]
  exact ⟨fun h => h.1, fun h => ⟨h, hs a ha⟩⟩

theorem observed_strip (hs : ∀ a ∈ s.path, out a = true) :
    (t.strip id out).observed s = t.observed s := by
  unfold observed
  rw [isCanceled_strip hs]
  rfl

theorem stopAt_strip (hs : ∀ a ∈ s.path, out a = true) :
    (t.strip id out).stopAt s = t.stopAt s := by
  have hfind : (t.strip id out).pending.find? (fun p => s.path.contains p.2) =
      t.pending.find? fun p => s.path.contains p.2 := by
    rw [strip, List.find?_filter]
    congr 1
    funext p
    by_cases hp : p.2 ∈ s.path
    · simp [hs p.2 hp]
    · simp [hp]
  rw [stopAt, hfind]
  rfl

namespace Separates

theorem outer (hsep : t.Separates id out) (hs : t.scopes[k]? = some s) (hid : id ∉ s.path) :
    out k = true ∧ k < t.scopes.length ∧ ∀ a ∈ s.path, out a = true := by
  obtain ⟨hiff, haround⟩ := hsep k _ (frames_getElem? hs)
  exact ⟨hiff.mpr hid, (List.getElem?_eq_some_iff.mp hs).1, haround hid⟩

theorem inner (hsep : t.Separates id out) (hs : t.scopes[k]? = some s) (hid : id ∈ s.path) :
    out k = false ∧ k < t.scopes.length :=
  ⟨Bool.eq_false_iff.mpr fun h => (hsep k _ (frames_getElem? hs)).1.mp h hid,
    (List.getElem?_eq_some_iff.mp hs).1⟩

theorem exists_outer (hsep : t.Separates id out) (hk : out k = true) (hlt : k < t.scopes.length) :
    ∃ s, t.scopes[k]? = some s ∧ id ∉ s.path ∧ ∀ a ∈ s.path, out a = true := by
  have hs := List.getElem?_eq_getElem hlt
  obtain ⟨hiff, haround⟩ := hsep k _ (frames_getElem? hs)
  exact ⟨_, hs, hiff.mp hk, haround (hiff.mp hk)⟩

theorem exists_inner (hsep : t.Separates id out) (hk : out k = false) (hlt : k < t.scopes.length) :
    ∃ s, t.scopes[k]? = some s ∧ id ∈ s.path := by
  have hs := List.getElem?_eq_getElem hlt
  obtain ⟨hiff, -⟩ := hsep k _ (frames_getElem? hs)
  refine ⟨_, hs, Decidable.byContradiction fun hid => ?_⟩
  rw [hiff.mpr hid] at hk
  cases hk

theorem err_outer (hsep : t.Separates id out) (hk : out k = true) (hlt : k < t.scopes.length) :
    (t.strip id out).err k = ((t.err k).1, (t.err k).2.strip id out) := by
  obtain ⟨s, hs, hid, haround⟩ := hsep.exists_outer hk hlt
  have hs' : (t.strip id out).scopes[k]? = some s := by
    rw [strip_scopes_getElem?, hs, Option.map_some, Scope.forget_of_notMem hid]
  unfold err
  dsimp only
  rw [hs, hs', Option.bind_some, Option.bind_some, observed_strip haround,
    remember_strip_outer hs hid]

theorem stopped_outer (hsep : t.Separates id out) (hk : out k = true) (hlt : k < t.scopes.length) :
    (t.strip id out).stopped k = ((t.stopped k).1, (t.stopped k).2.strip id out) := by
  unfold stopped
  rw [hsep.err_outer hk hlt]

theorem err_inner (hsep : t.Separates id out) (hk : out k = false) (hlt : k < t.scopes.length) :
    (t.err k).2.strip id out = t.strip id out := by
  obtain ⟨s, hs, hid⟩ := hsep.exists_inner hk hlt
  exact remember_strip_inner hs hid _

theorem cancel_outer (hsep : t.Separates id out) (hk : out k = true) (hlt : k < t.scopes.length) :
    (t.strip id out).cancel k = (t.cancel k).strip id out := by
  have hmarked : Separates id out { t with canceled := k :: t.canceled } := hsep
  have herr := congrArg Prod.snd (hmarked.err_outer hk hlt)
  simpa only [cancel, strip, List.filter_cons_of_pos hk] using herr

theorem cancel_inner (hsep : t.Separates id out) (hk : out k = false) (hlt : k < t.scopes.length) :
    (t.cancel k).strip id out = t.strip id out := by
  have hmarked : Separates id out { t with canceled := k :: t.canceled } := hsep
  have herr := hmarked.err_inner hk hlt
  rw [cancel, herr, strip, strip, List.filter_cons_of_neg (by simp [hk])]

end Separates

def clocked (m : Instant) (t : ScopeTree) : ScopeTree := { t with now := m }

theorem act_cons_of_le {limit : Instant} {p : Instant × Nat} (h : p.1 ≤ limit)
    (ps : List (Instant × Nat)) (t : ScopeTree) :
    act limit (p :: ps) t = act limit ps ((t.clocked (max t.now p.1)).cancel p.2) := by
  rw [act, if_pos h]
  rfl

theorem act_eq_self {limit : Instant} {ps : List (Instant × Nat)} (h : ∀ p ∈ ps, limit < p.1)
    (t : ScopeTree) : act limit ps t = t := by
  cases ps with
  | nil => rfl
  | cons p ps => rw [act, if_neg (Nat.not_le_of_lt (h p List.mem_cons_self))]

/-- Cancellations that fall due inside `id` do no more outside than move the clock on, and that only
until the next one, or the end of the wait, does so too. -/
theorem Separates.act_strip {limit : Instant} {ps : List (Instant × Nat)}
    (hsep : t.Separates id out) (hsorted : ps.Pairwise fun p q => p.1 ≤ q.1)
    (hps : ∀ p ∈ ps, p.2 < t.scopes.length) {m : Instant} (hm : max m limit = max t.now limit)
    (hnow : ∀ p ∈ ps, max m p.1 = max t.now p.1) :
    ∃ m', max m' limit = max (act limit ps t).now limit ∧
      act limit (ps.filter fun p => out p.2) ((t.strip id out).clocked m) =
        ((act limit ps t).strip id out).clocked m' := by
  -- The stripped tree has the clock `m`, which may lag behind `t`, but not beyond what acts next.
  induction ps generalizing t m with
  | nil => exact ⟨m, hm, rfl⟩
  | cons p ps ih =>
    obtain ⟨hlater, hsorted⟩ := List.pairwise_cons.mp hsorted
    have hp := hps p List.mem_cons_self
    have hpnow := hnow p List.mem_cons_self
    by_cases hdue : p.1 ≤ limit
    · have hmoved : (t.clocked (max t.now p.1)).Separates id out := hsep
      have hsep' : ((t.clocked (max t.now p.1)).cancel p.2).Separates id out :=
        hmoved.of_frames (frames_cancel _ _)
      have hps' : ∀ q ∈ ps, q.2 < ((t.clocked (max t.now p.1)).cancel p.2).scopes.length := by
        intro q hq
        rw [length_of_frames (frames_cancel _ _)]
        exact hps q (List.mem_cons_of_mem _ hq)
      have hnow' : ((t.clocked (max t.now p.1)).cancel p.2).now = max t.now p.1 := rfl
      rw [act_cons_of_le hdue, List.filter_cons]
      split
      · next hout =>
        have hcancel : ((t.strip id out).clocked (max t.now p.1)).cancel p.2 =
            ((t.clocked (max t.now p.1)).cancel p.2).strip id out := hmoved.cancel_outer hout hp
        obtain ⟨m', hm', heq⟩ := ih hsep' hsorted hps' rfl fun _ _ => rfl
        refine ⟨m', hm', ?_⟩
        rw [act_cons_of_le hdue, ← heq]
        have hclock : ((t.strip id out).clocked m).clocked (max m p.1) =
            (t.strip id out).clocked (max t.now p.1) := by rw [hpnow]; rfl
        exact congrArg (act limit _) ((congrArg (cancel · p.2) hclock).trans hcancel)
      · next hout =>
        -- Inside `id` nothing is left of the cancellation but that the clock has come to it.
        have hcancel := hmoved.cancel_inner (Bool.eq_false_iff.mpr hout) hp
        have hm' : max m limit = max (max t.now p.1) limit := by
          rw [Nat.max_assoc, Nat.max_eq_right hdue, hm]
        have hrest : ∀ q ∈ ps, max m q.1 = max (max t.now p.1) q.1 := by
          intro q hq
          rw [Nat.max_assoc, Nat.max_eq_right (hlater q hq), hnow q (List.mem_cons_of_mem _ hq)]
        obtain ⟨m', hm', heq⟩ := ih hsep' hsorted hps' hm' hrest
        refine ⟨m', hm', ?_⟩
        rw [← heq, hcancel]
        rfl
    · have hlate : ∀ q ∈ p :: ps, limit < q.1 := by
        intro q hq
        rcases List.mem_cons.mp hq with rfl | hq
        · exact Nat.lt_of_not_le hdue
        · exact Nat.lt_of_lt_of_le (Nat.lt_of_not_le hdue) (hlater q hq)
      refine ⟨m, ?_, ?_⟩
      · rw [act_eq_self hlate, hm]
      · rw [act_eq_self hlate, act_eq_self fun q hq => hlate q (List.mem_filter.mp hq).1]

theorem Separates.wait_strip (hsep : t.Separates id out) (ht : t.Formed) (t' : Instant) :
    (t.strip id out).wait t' = (t.wait t').strip id out := by
  have hsifted : Separates id out { t with pending := t.pending.filter fun p => t' < p.1 } := hsep
  obtain ⟨m', hm', heq⟩ := hsifted.act_strip ht.sorted ht.pending
    (Eq.refl (max t.now t')) fun _ _ => rfl
  have hpending : (t.pending.filter fun p => out p.2).filter (fun p => t' < p.1) =
      (t.pending.filter fun p => t' < p.1).filter fun p => out p.2 := by
    rw [List.filter_filter, List.filter_filter]
    congr 1
    funext p
    exact Bool.and_comm _ _
  have hstart : { t.strip id out with
      pending := (t.pending.filter fun p => out p.2).filter fun p => t' < p.1 } =
      (strip id out { t with pending := t.pending.filter fun p => t' < p.1 }).clocked t.now := by
    rw [hpending]
    rfl
  have hwait : (t.strip id out).wait t' = ((act t' t.pending { t with
      pending := t.pending.filter fun p => t' < p.1 }).strip id out).clocked (max m' t') :=
    congrArg (fun u : ScopeTree => u.clocked (max u.now t'))
      ((congrArg (act t' _) hstart).trans heq)
  rw [hwait, hm']
  rfl

theorem filter_schedule {p : Instant × Nat} {ps : List (Instant × Nat)}
    (hsorted : ps.Pairwise fun p q => p.1 ≤ q.1) :
    (schedule p ps).filter (fun q => out q.2) =
      if out p.2 then schedule p (ps.filter fun q => out q.2) else ps.filter fun q => out q.2 := by
  induction ps with
  | nil => cases hp : out p.2 <;> simp [schedule, hp]
  | cons q ps ih =>
    obtain ⟨hlater, hsorted⟩ := List.pairwise_cons.mp hsorted
    rw [schedule]
    split
    · next hlt =>
      -- All that is left after `q` falls due after `p` too.
      have hhead : schedule p ((q :: ps).filter fun q => out q.2) =
          p :: (q :: ps).filter fun q => out q.2 := by
        cases hrest : (q :: ps).filter fun q => out q.2 with
        | nil => rfl
        | cons r rs =>
          have hr : r ∈ q :: ps := by
            have hmem : r ∈ (q :: ps).filter fun q => out q.2 := by
              rw [hrest]
              exact List.mem_cons_self
            exact (List.mem_filter.mp hmem).1
          have hlt' : p.1 < r.1 := by
            rcases List.mem_cons.mp hr with rfl | hr
            · exact hlt
            · exact Nat.lt_of_lt_of_le hlt (hlater r hr)
          rw [schedule, if_pos hlt']
      rw [hhead, List.filter_cons]
    · next hle =>
      rw [List.filter_cons, List.filter_cons, ih hsorted]
      by_cases hq : out q.2 = true
      · rw [if_pos hq, if_pos hq, schedule, if_neg hle]
        split <;> rfl
      · rw [if_neg hq, if_neg hq]

theorem beginDelays_strip (ht : t.Formed) (id : Nat) (out : Nat → Bool) :
    (t.strip id out).beginDelays = t.beginDelays.strip id out := by
  have hfold : ∀ (ds : List (Duration × Nat)) (ps : List (Instant × Nat)),
      (ps.Pairwise fun p q => p.1 ≤ q.1) →
      (ds.filter fun p => out p.2).foldl (fun ps p => schedule (Instant.wake t.now p.1, p.2) ps)
          (ps.filter fun p => out p.2) =
        (ds.foldl (fun ps p => schedule (Instant.wake t.now p.1, p.2) ps) ps).filter
          fun p => out p.2 := by
    intro ds
    induction ds with
    | nil => exact fun _ _ => rfl
    | cons d ds ih =>
      intro ps hsorted
      rw [List.foldl_cons, ← ih _ (pairwise_schedule hsorted), filter_schedule hsorted]
      rw [List.filter_cons]
      split <;> rfl
  have hpending := hfold t.delayed t.pending ht.sorted
  unfold beginDelays
  simp only [strip] at hpending ⊢
  rw [hpending]
  rfl

theorem Separates.advance_strip (hsep : t.Separates id out) (ht : t.Formed) (d : Duration) :
    (t.strip id out).advance d = (t.advance d).strip id out := by
  have hmoved : Separates id out { t with now := t.now + d.nanos } := hsep
  have htm := ht.later (Nat.le_add_right t.now d.nanos)
  have hwait := hmoved.wait_strip htm t.now
  have hbegin := beginDelays_strip (htm.wait t.now) id out
  unfold advance
  dsimp only
  rw [← hbegin, ← hwait]
  rfl

theorem Separates.wait_stopped (hsep : t.Separates id out) (ht : t.Formed) (hk : out k = true)
    (hlt : k < t.scopes.length) (stop : Instant) :
    ((t.strip id out).wait stop).stopped k =
      (((t.wait stop).stopped k).1, ((t.wait stop).stopped k).2.strip id out) := by
  rw [hsep.wait_strip ht]
  refine (hsep.of_frames (frames_wait t stop)).stopped_outer hk ?_
  rw [length_of_frames (frames_wait t stop)]
  exact hlt

theorem Separates.done_strip (hsep : t.Separates id out) (ht : t.Formed)
    (hs : t.scopes[k]? = some s) (hid : id ∉ s.path) (patience : Duration) :
    (t.strip id out).done k s patience =
      ((t.done k s patience).1, (t.done k s patience).2.strip id out) := by
  obtain ⟨hk, hlt, haround⟩ := hsep.outer hs hid
  have hsep' : t.beginDelays.Separates id out := hsep.of_frames (frames_beginDelays t)
  have hbegin := beginDelays_strip ht id out
  unfold done
  rw [observed_strip haround, hbegin]
  dsimp only
  rw [stopAt_strip haround]
  have hnow : (t.beginDelays.strip id out).now = t.beginDelays.now := rfl
  rw [hnow]
  split
  · exact hsep.stopped_outer hk hlt
  · split
    · exact hsep'.wait_stopped ht.beginDelays hk hlt _
    · rw [hsep'.wait_strip ht.beginDelays]

theorem Separates.run_strip (hsep : t.Separates id out) (ht : t.Formed)
    (hs : t.scopes[k]? = some s) (hid : id ∉ s.path) (d : Duration) :
    (t.strip id out).run k s d = ((t.run k s d).1, (t.run k s d).2.strip id out) := by
  obtain ⟨hk, hlt, haround⟩ := hsep.outer hs hid
  have hlt' : k < (t.err k).2.scopes.length := length_of_frames (frames_err t k) ▸ hlt
  have hsep' : (t.err k).2.beginDelays.Separates id out :=
    hsep.of_frames ((frames_beginDelays _).trans (frames_err t k))
  have hbegun := (ht.err k).beginDelays
  have hbegin := beginDelays_strip (ht.err k) id out
  unfold run
  rw [hsep.err_outer hk hlt]
  dsimp only
  rw [hbegin, stopAt_strip haround]
  have hnow : ((t.err k).2.beginDelays.strip id out).now = (t.err k).2.beginDelays.now := rfl
  rw [hnow]
  split
  · rfl
  · split
    · rfl
    · split
      · exact hsep'.wait_stopped hbegun hk hlt' _
      · rw [hsep'.wait_strip hbegun]

theorem add_strip (path : List Nat) (deadline : Option Instant) :
    (t.strip id out).add path deadline =
      ((t.add path deadline).1, (t.add path deadline).2.strip id out) := by
  have hnew : Scope.forget id ⟨t.scopes.length :: path, deadline, none⟩ =
      ⟨t.scopes.length :: path, deadline, none⟩ := by
    unfold Scope.forget
    split <;> rfl
  simp only [add, strip, List.map_append, List.map_cons, List.map_nil, List.length_map, hnew]

theorem Formed.strip_congr (ht : t.Formed) {out' : Nat → Bool}
    (h : ∀ k < t.scopes.length, out k = out' k) : t.strip id out = t.strip id out' := by
  unfold strip
  rw [List.filter_congr fun k hk => h k (ht.canceled k hk),
    List.filter_congr fun p hp => h p.2 (ht.delayed p hp),
    List.filter_congr fun p hp => h p.2 (ht.pending p hp)]

theorem Formed.add_without (ht : t.Formed) (id : Nat) (path : List Nat)
    (deadline : Option Instant) :
    (t.without id).add path deadline =
      ((t.add path deadline).1, (t.add path deadline).2.without id) := by
  have hout : ∀ k < t.scopes.length, t.outside id k = (t.add path deadline).2.outside id k := by
    intro k hk
    rw [← length_frames] at hk
    rw [outside, outside, frames_add, List.getElem?_append_left hk]
  rw [without, ht.strip_congr hout, add_strip]
  rfl

theorem answered_without (otherwise : ScopeAnswer) (r : Option StopReason × ScopeTree) :
    answered otherwise (r.1, r.2.without id) =
      ((answered otherwise r).1, (answered otherwise r).2.without id) := by
  unfold answered
  dsimp only
  split <;> rfl

theorem Formed.step_without (ht : t.Formed) (hx : t.concerns id x = true → x.gives = true) :
    (t.without id).step x = ((t.step x).1, (t.step x).2.without id) := by
  have hsep := ht.separates id
  unfold ScopeTree.step
  rw [without, find?_strip, ← without]
  cases hfind : t.find? (subject x) with
  | none => rfl
  | some p =>
    obtain ⟨k, s⟩ := p
    obtain ⟨-, hs⟩ := find?_eq_some hfind
    -- A step that gives no name and moves no clock is about a scope outside.
    have houter (h : t.concerns id x = s.path.contains id) (hgives : x.gives = false) :
        id ∉ s.path := by
      intro hid
      rw [hx (by simp [h, hid])] at hgives
      cases hgives
    dsimp only [Option.map_some]
    cases x with
    | root => exact congrArg named (ht.add_without id [] none)
    | child =>
      have hadd := ht.add_without id s.path s.deadline
      simp only [stepWith, addChild, Scope.forget_path, Scope.forget_deadline, hadd, named]
    | timeout parent d =>
      have hadd := ht.add_without id s.path (earliest? s.deadline (Instant.after? t.now d))
      simp only [stepWith, addTimed, Scope.forget_path, Scope.forget_deadline, now_without, hadd,
        named]
    | clone => rfl
    | advance d =>
      have hadvance := hsep.advance_strip ht d
      rw [← without_of_frames (frames_advance t d)] at hadvance
      exact congrArg (Prod.mk _) hadvance
    | remaining =>
      simp only [stepWith, remaining, Scope.forget_deadline]
      rfl
    | deadline => simp only [stepWith, Scope.forget_deadline]
    | cancel =>
      have hid := houter (by simp [concerns, hfind]) rfl
      obtain ⟨hout, hlt, -⟩ := hsep.outer hs hid
      have hcancel := hsep.cancel_outer hout hlt
      rw [← without_of_frames (frames_cancel t k)] at hcancel
      exact congrArg (Prod.mk _) hcancel
    | cancelAfter name d =>
      have hid := houter (by simp [concerns, hfind]) rfl
      obtain ⟨hout, -⟩ := hsep.outer hs hid
      have hdelayed : (t.delayed ++ [(d, k)]).filter (fun p => t.outside id p.2) =
          (t.delayed.filter fun p => t.outside id p.2) ++ [(d, k)] := by
        simp [hout]
      have hmarked : { t.without id with delayed := (t.without id).delayed ++ [(d, k)] } =
          without id { t with delayed := t.delayed ++ [(d, k)] } := by
        simp only [without, strip] at hdelayed ⊢
        rw [← hdelayed]
        rfl
      exact congrArg (Prod.mk _) hmarked
    | err =>
      have hid := houter (by simp [concerns, hfind]) rfl
      obtain ⟨hout, hlt, -⟩ := hsep.outer hs hid
      have herr := hsep.err_outer hout hlt
      rw [← without_of_frames (frames_err t k)] at herr
      exact (congrArg (answered _) herr).trans (answered_without _ _)
    | done name patience =>
      have hid := houter (by simp [concerns, hfind]) rfl
      have hdone := hsep.done_strip ht hs hid patience
      rw [← without_of_frames (frames_done t k s patience)] at hdone
      rw [Scope.forget_of_notMem hid]
      exact (congrArg (answered _) hdone).trans (answered_without _ _)
    | run name d =>
      have hid := houter (by simp [concerns, hfind]) rfl
      have hrun := hsep.run_strip ht hs hid d
      rw [← without_of_frames (frames_run t k s d)] at hrun
      rw [Scope.forget_of_notMem hid]
      exact (congrArg (answered _) hrun).trans (answered_without _ _)

theorem exists_of_concerns (h : t.concerns id x = true) :
    ∃ k s, t.find? (subject x) = some (k, s) ∧ t.scopes[k]? = some s ∧ id ∈ s.path := by
  have hany : (t.find? (subject x)).any (fun p => p.2.path.contains id) = true := by
    cases x <;> first | exact h | cases h
  obtain ⟨⟨k, s⟩, hfind, hid⟩ := (Option.any_eq_true _ _).mp hany
  exact ⟨k, s, hfind, (find?_eq_some hfind).2, List.contains_iff_mem.mp hid⟩

theorem Formed.without_err (ht : t.Formed) (hs : t.scopes[k]? = some s) (hid : id ∈ s.path) :
    (t.err k).2.without id = t.without id := by
  have hsep := ht.separates id
  obtain ⟨hout, hlt⟩ := hsep.inner hs hid
  rw [without_of_frames (frames_err t k), hsep.err_inner hout hlt, without]

/-- A step about a scope inside `id` that waits for nothing leaves nothing behind that counts
outside, unless it gives a name. -/
theorem Formed.without_step (ht : t.Formed) (hx : t.concerns id x = true)
    (hwaits : x.waits = false) (hgives : x.gives = false) :
    (t.step x).2.without id = t.without id := by
  obtain ⟨k, s, hfind, hs, hid⟩ := exists_of_concerns hx
  have hsep := ht.separates id
  obtain ⟨hout, hlt⟩ := hsep.inner hs hid
  unfold ScopeTree.step
  rw [hfind]
  cases x with
  | root | child | clone | timeout => cases hgives
  | done | run => cases hwaits
  | advance => cases hx
  | remaining | deadline => rfl
  | cancel => exact (without_of_frames (frames_cancel t k)).trans (hsep.cancel_inner hout hlt)
  | cancelAfter name d =>
    have hdelayed : (t.delayed ++ [(d, k)]).filter (fun p => t.outside id p.2) =
        t.delayed.filter fun p => t.outside id p.2 := by
      simp [hout]
    change without id { t with delayed := t.delayed ++ [(d, k)] } = t.without id
    simp only [without, strip]
    rw [← hdelayed]
    rfl
  | err =>
    change (answered .nothing (t.err k)).2.without id = t.without id
    rw [answered_snd, ht.without_err hs hid]

theorem concerns_without : (t.without id).concerns id x = t.concerns id x := concerns_strip

theorem Formed.step_like (ht : t.Formed) (hu : u.Formed) (h : t.without id = u.without id)
    (hx : (x.waits && t.concerns id x) = false) :
    (t.step x).2.without id = (u.step x).2.without id ∧
      (t.concerns id x = false → (t.step x).1 = (u.step x).1) := by
  have hconcerns : t.concerns id x = u.concerns id x := by
    rw [← concerns_without, h, concerns_without]
  by_cases hgives : t.concerns id x = true → x.gives = true
  · have htx := ht.step_without hgives
    have hux := hu.step_without (hconcerns ▸ hgives)
    rw [h, hux] at htx
    exact ⟨(congrArg Prod.snd htx).symm, fun _ => (congrArg Prod.fst htx).symm⟩
  · obtain ⟨hinside, hgives⟩ := Classical.not_imp.mp hgives
    have hwaits : x.waits = false := by
      rw [hinside, Bool.and_true] at hx
      exact hx
    have hgives := Bool.eq_false_iff.mpr hgives
    rw [ht.without_step hinside hwaits hgives,
      hu.without_step (hconcerns ▸ hinside) hwaits hgives]
    exact ⟨h, fun houtside => by rw [hinside] at houtside; cases houtside⟩

theorem Formed.heard_like (ht : t.Formed) (hu : u.Formed) (h : t.without id = u.without id)
    (xs : List ScopeStep) :
    t.unawaited id xs = u.unawaited id xs ∧
      t.heard id (t.unawaited id xs) = u.heard id (u.unawaited id xs) := by
  induction xs generalizing t u with
  | nil => exact ⟨rfl, rfl⟩
  | cons x xs ih =>
    have hconcerns : t.concerns id x = u.concerns id x := by
      rw [← concerns_without, h, concerns_without]
    rw [unawaited, unawaited, ← hconcerns]
    cases hx : x.waits && t.concerns id x with
    | true =>
      rw [if_pos rfl, if_pos rfl]
      exact ih ht hu h
    | false =>
      obtain ⟨hleft, hanswer⟩ := ht.step_like hu h hx
      obtain ⟨hsteps, hheard⟩ := ih (ht.step x) (hu.step x) hleft
      have hnow : (t.step x).2.now = (u.step x).2.now := by
        rw [← now_without, hleft, now_without]
      rw [if_neg Bool.false_ne_true, if_neg Bool.false_ne_true, heard, heard, ← hconcerns, hheard,
        hsteps, hnow]
      refine ⟨rfl, ?_⟩
      split
      · rfl
      · next houtside => rw [hanswer (Bool.eq_false_iff.mpr houtside)]

/-! A cancelled scope stays cancelled. -/

theorem canceled_act (limit : Instant) (ps : List (Instant × Nat)) (t : ScopeTree) :
    t.canceled ⊆ (act limit ps t).canceled := by
  induction ps generalizing t with
  | nil => exact fun _ h => h
  | cons p ps ih =>
    rw [act]
    split
    · exact fun _ h => ih _ (List.mem_cons_of_mem _ h)
    · exact fun _ h => h

theorem canceled_wait (t : ScopeTree) (t' : Instant) : t.canceled ⊆ (t.wait t').canceled :=
  canceled_act t' t.pending { t with pending := t.pending.filter fun p => t' < p.1 }

theorem canceled_done (t : ScopeTree) (k : Nat) (s : Scope) (patience : Duration) :
    t.canceled ⊆ (t.done k s patience).2.canceled := by
  unfold done
  dsimp only
  split
  · exact fun _ h => h
  · split <;> exact canceled_wait t.beginDelays _

theorem canceled_run (t : ScopeTree) (k : Nat) (s : Scope) (d : Duration) :
    t.canceled ⊆ (t.run k s d).2.canceled := by
  unfold run
  dsimp only
  split
  · exact fun _ h => h
  · split
    · exact fun _ h => h
    · split <;> exact canceled_wait (t.err k).2.beginDelays _

theorem canceled_step (t : ScopeTree) (x : ScopeStep) : t.canceled ⊆ (t.step x).2.canceled := by
  unfold step
  cases t.find? (subject x) with
  | none => exact fun _ h => h
  | some p =>
    obtain ⟨k, s⟩ := p
    cases x with
    | root | child | clone | timeout | remaining | deadline | cancelAfter => exact fun _ h => h
    | cancel => exact fun _ h => List.mem_cons_of_mem _ h
    | advance d => exact canceled_wait { t with now := t.now + d.nanos } t.now
    | err => exact (answered_snd _ _).symm ▸ fun _ h => h
    | done name patience => exact (answered_snd _ _).symm ▸ canceled_done t k s patience
    | run name d => exact (answered_snd _ _).symm ▸ canceled_run t k s d

theorem Formed.without_step_of_canceled (ht : t.Formed) (hid : id ∈ t.canceled)
    (hx : t.concerns id x = true) (hwaits : x.waits = true) :
    (t.step x).2.without id = t.without id := by
  obtain ⟨k, s, hfind, hs, hinside⟩ := exists_of_concerns hx
  have hstopped : t.HasStopped s := .inr (isCanceled_iff.mpr ⟨id, hinside, hid⟩)
  have hobserved := (observed_isSome_iff (ht.latched s (List.mem_of_getElem? hs))).mpr hstopped
  have herr := (ht.err_isSome_iff hs).mpr hstopped
  unfold ScopeTree.step
  rw [hfind]
  cases x with
  | done name patience =>
    change (answered .pending (t.done k s patience)).2.without id = t.without id
    rw [answered_snd, ScopeTree.done, if_pos hobserved, stopped_snd, ht.without_err hs hinside]
  | run name d =>
    change (answered .ran (t.run k s d)).2.without id = t.without id
    rw [answered_snd, ScopeTree.run]
    dsimp only
    rw [if_pos herr, ht.without_err hs hinside]
  | _ => cases hwaits

theorem Formed.heard_of_canceled (ht : t.Formed) (hid : id ∈ t.canceled) (xs : List ScopeStep) :
    t.heard id xs = t.heard id (t.unawaited id xs) := by
  induction xs generalizing t with
  | nil => rfl
  | cons x xs ih =>
    have hrest := ih (ht.step x) (canceled_step t x hid)
    rw [unawaited]
    cases hx : x.waits && t.concerns id x with
    | true =>
      obtain ⟨hwaits, hinside⟩ := Bool.and_eq_true_iff.mp hx
      have hlike := ht.without_step_of_canceled hid hinside hwaits
      rw [if_pos rfl, heard, if_pos hinside, hrest, ((ht.step x).heard_like ht hlike xs).2]
    | false => rw [if_neg Bool.false_ne_true, heard, heard, hrest]

/-- After any steps, every scope has the earliest deadline that the timers on the way from its root
have set, and it has stopped if any scope around it has. A cancellation, at once or after a delay,
changes nothing that a step about a scope outside brings. Nobody waits any more inside what was
cancelled, so without the cancellation the waits there are left out. -/
theorem steps_spread_stops (xs : List ScopeStep) :
    let bs := ⟨none, none⟩ :: root.births xs
    let t := (root.steps xs).2
    bs.length = t.scopes.length ∧
    (∀ k s, t.scopes[k]? = some s →
      Lineage bs k s.path ∧ s.deadline = earliestOn bs s.path ∧
      ∀ a ∈ s.path, ∃ r, t.scopes[a]? = some r ∧
        (∀ d ∈ r.deadline, ∃ d' ∈ s.deadline, d' ≤ d) ∧
        ((t.err a).1.isSome → (t.err k).1.isSome)) ∧
    ∀ n id s, t.find? n = some (id, s) → ∀ ys,
      (t.step (.cancel n)).2.heard id ys = t.heard id (t.unawaited id ys) ∧
      ∀ d, (t.step (.cancelAfter n d)).2.heard id (t.unawaited id ys) =
        t.heard id (t.unawaited id ys) := by
  intro bs t
  have hrooted : Rooted bs t := rooted_root.steps xs
  have ht : t.Formed := formed_root.steps xs
  refine ⟨hrooted.length, fun k s hs => ?_, fun n id s hfind ys => ?_⟩
  · obtain ⟨hline, hdeadline⟩ := hrooted.frame k _ _ (frames_getElem? hs)
    refine ⟨hline, hdeadline, fun a ha => ?_⟩
    obtain ⟨r, hr, -, hearlier, hstops⟩ := ht.exists_around hs ha
    refine ⟨r, hr, hearlier, ?_⟩
    rw [ht.err_isSome_iff hr, ht.err_isSome_iff hs]
    exact hstops
  · obtain ⟨-, hs⟩ := find?_eq_some hfind
    have hself : id ∈ s.path := (hrooted.frame id _ _ (frames_getElem? hs)).1.mem
    -- Either step leaves outside `id` what it found there, so the same is heard from then on.
    constructor
    · have hconcerns : t.concerns id (.cancel n) = true := by
        simp [concerns, subject, hfind, hself]
      have hleft := ht.without_step hconcerns rfl rfl
      have hcanceled : id ∈ (t.step (.cancel n)).2.canceled := by
        simp only [step, subject, hfind]
        exact List.mem_cons_self
      rw [(ht.step _).heard_of_canceled hcanceled ys]
      exact ((ht.step _).heard_like ht hleft ys).2
    · intro d
      have hconcerns : t.concerns id (.cancelAfter n d) = true := by
        simp [concerns, subject, hfind, hself]
      have hleft := ht.without_step hconcerns rfl rfl
      obtain ⟨hsteps, hheard⟩ := (ht.step (.cancelAfter n d)).heard_like ht hleft ys
      rw [← hsteps, hheard, hsteps]

/-- Two timers, one inside the other, and a scope beside them; the outer timer's scope is cancelled
1 s before the instant that is looked at. -/
def nested : List ScopeStep :=
  [.timeout 0 (.ofSecs 5), .timeout 1 (.ofSecs 9), .clone 2, .child 0, .cancel 1,
    .advance (.ofSecs 1)]

theorem nested_spread_stops :
    ∃ t, t = (root.steps nested).2 ∧
      (∃ s, t.scopes[2]? = some s ∧ 1 ∈ s.path ∧ s.deadline = some 5000000000 ∧
        (t.err 1).1.isSome ∧ (t.err 2).1.isSome) ∧
      (∃ s, t.find? 4 = some (3, s)) ∧
      (t.step (.cancel 4)).2.heard 3 [.done 4 (.ofSecs 3), .err 3, .run 0 (.ofSecs 2)] =
        [(1000000000, .stopped .canceled), (3000000000, .ran)] := by
  obtain ⟨-, hscopes, hheard⟩ := steps_spread_stops nested
  obtain ⟨s, hs⟩ : ∃ s, (root.steps nested).2.scopes[2]? = some s := ⟨_, rfl⟩
  have hpath : 1 ∈ s.path := by
    cases hs
    decide
  obtain ⟨-, hdeadline, haround⟩ := hscopes 2 s hs
  obtain ⟨-, -, -, hstops⟩ := haround 1 hpath
  have houter : ((root.steps nested).2.err 1).1.isSome := rfl
  refine ⟨_, rfl, ⟨s, hs, hpath, ?_, houter, hstops houter⟩, ⟨_, rfl⟩, ?_⟩
  · rw [hdeadline]
    cases hs
    rfl
  · rw [(hheard 4 3 _ rfl _).1]
    rfl

end ScopeTree

end PhasedLoad
