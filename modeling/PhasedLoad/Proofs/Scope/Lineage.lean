import PhasedLoad.Proofs.Passage
import PhasedLoad.Scope

/-! The lineage of scopes: which timers were set on the way from a root to a scope. They settle its
deadline, and a scope stops no later than any scope around it. -/

namespace PhasedLoad

/-- How a scope came to be: inside another one or not, with a timer set at some instant or not. -/
structure Birth where
  parent : Option Nat
  timer : Option (Instant × Duration)

def Birth.expiry? (b : Birth) : Option Instant := b.timer.bind fun p => Instant.after? p.1 p.2

namespace ScopeTree

def birth? (t : ScopeTree) (x : ScopeStep) : Option Birth :=
  match t.find? (subject x), x with
  | some _, .root => some ⟨none, none⟩
  | some (id, _), .child _ => some ⟨some id, none⟩
  | some (id, _), .timeout _ d => some ⟨some id, some (t.now, d)⟩
  | _, _ => none

def births (t : ScopeTree) : List ScopeStep → List Birth
  | [] => []
  | x :: xs => (t.birth? x).toList ++ births (t.step x).2 xs

end ScopeTree

inductive Lineage (bs : List Birth) : Nat → List Nat → Prop
  | root {id : Nat} {b : Birth} (born : bs[id]? = some b) (free : b.parent = none) :
      Lineage bs id [id]
  | child {id parent : Nat} {b : Birth} {path : List Nat} (born : bs[id]? = some b)
      (inside : b.parent = some parent) (line : Lineage bs parent path) :
      Lineage bs id (id :: path)

def earliestOn (bs : List Birth) (path : List Nat) : Option Instant :=
  (path.filterMap fun id => bs[id]?.bind Birth.expiry?).min?

section

variable {bs : List Birth} {id a : Nat} {path path' : List Nat}

theorem Lineage.lt_length (hl : Lineage bs id path) : ∀ a ∈ path, a < bs.length := by
  induction hl with
  | root hborn _ =>
    intro a ha
    obtain rfl := List.mem_singleton.mp ha
    exact (List.getElem?_eq_some_iff.mp hborn).1
  | child hborn _ _ ih =>
    intro a ha
    rcases List.mem_cons.mp ha with rfl | ha
    · exact (List.getElem?_eq_some_iff.mp hborn).1
    · exact ih a ha

theorem Lineage.mem (hl : Lineage bs id path) : id ∈ path := by
  cases hl <;> exact List.mem_cons_self

theorem born_append {b : Birth} (hb : bs[id]? = some b) (later : List Birth) :
    (bs ++ later)[id]? = some b := by
  rw [List.getElem?_append_left (List.getElem?_eq_some_iff.mp hb).1, hb]

theorem Lineage.append (hl : Lineage bs id path) (later : List Birth) :
    Lineage (bs ++ later) id path := by
  induction hl with
  | root hborn hfree => exact .root (born_append hborn later) hfree
  | child hborn hinside _ ih => exact .child (born_append hborn later) hinside ih

theorem Lineage.unique (hl : Lineage bs id path) (hl' : Lineage bs id path') : path = path' := by
  induction hl generalizing path' with
  | root hborn hfree =>
    cases hl' with
    | root => rfl
    | child hborn' hinside' _ =>
      rw [hborn] at hborn'
      cases hborn'
      rw [hfree] at hinside'
      cases hinside'
  | child hborn hinside _ ih =>
    cases hl' with
    | root hborn' hfree' =>
      rw [hborn] at hborn'
      cases hborn'
      rw [hfree'] at hinside
      cases hinside
    | child hborn' hinside' hline' =>
      rw [hborn] at hborn'
      cases hborn'
      rw [hinside] at hinside'
      cases hinside'
      rw [ih hline']

theorem Lineage.exists_suffix (hl : Lineage bs id path) (ha : a ∈ path) :
    ∃ path', Lineage bs a path' ∧ path' <:+ path := by
  induction hl with
  | root hborn hfree =>
    obtain rfl := List.mem_singleton.mp ha
    exact ⟨_, .root hborn hfree, List.suffix_refl _⟩
  | child hborn hinside hline ih =>
    rcases List.mem_cons.mp ha with rfl | ha
    · exact ⟨_, .child hborn hinside hline, List.suffix_refl _⟩
    · obtain ⟨path', hl', hsuffix⟩ := ih ha
      exact ⟨path', hl', hsuffix.trans (List.suffix_cons _ _)⟩

theorem earliestOn_cons {b : Birth} (hb : bs[id]? = some b) :
    earliestOn bs (id :: path) = earliest? (earliestOn bs path) b.expiry? := by
  unfold earliestOn
  rw [List.filterMap_cons, hb, Option.bind_some]
  cases b.expiry? with
  | none => rw [earliest?_none_right]
  | some t =>
    rw [List.min?_cons]
    cases (path.filterMap fun id => bs[id]?.bind Birth.expiry?).min? with
    | none => rfl
    | some u => simp [Nat.min_comm]

theorem earliestOn_append (hl : Lineage bs id path) (later : List Birth) :
    earliestOn (bs ++ later) path = earliestOn bs path := by
  induction hl with
  | root hborn _ => rw [earliestOn_cons (born_append hborn later), earliestOn_cons hborn]; rfl
  | child hborn _ _ ih => rw [earliestOn_cons (born_append hborn later), earliestOn_cons hborn, ih]

theorem earliestOn_le (h : path' <:+ path) {d : Instant} (hd : d ∈ earliestOn bs path') :
    ∃ d' ∈ earliestOn bs path, d' ≤ d := by
  obtain ⟨hmem, -⟩ := List.min?_eq_some_iff.mp hd
  have hmore := (h.sublist.filterMap fun id => bs[id]?.bind Birth.expiry?).subset hmem
  cases hmin : earliestOn bs path with
  | none =>
    rw [earliestOn, List.min?_eq_none_iff] at hmin
    rw [hmin] at hmore
    cases hmore
  | some d' => exact ⟨d', rfl, (List.min?_eq_some_iff.mp hmin).2 d hmore⟩

end

namespace ScopeTree

variable {bs : List Birth} {t u : ScopeTree} {x : ScopeStep} {id k : Nat} {s : Scope}

/-- The ways and the deadlines of all scopes. -/
def frames (t : ScopeTree) : List (List Nat × Option Instant) :=
  t.scopes.map fun s => (s.path, s.deadline)

section Frames

variable (t : ScopeTree) (id : Nat) (s : Scope)

theorem remember_getElem? (reason : Option StopReason) (k : Nat) :
    (t.remember id reason).scopes[k]? =
      t.scopes[k]?.map fun s => if id = k then { s with reason := reason } else s := by
  rw [remember, List.getElem?_modify]
  rfl

@[simp] theorem frames_remember (reason : Option StopReason) :
    (t.remember id reason).frames = t.frames := by
  refine List.ext_getElem? fun k => ?_
  rw [frames, frames, List.getElem?_map, List.getElem?_map, remember_getElem?, Option.map_map]
  congr 1
  funext s
  rw [Function.comp_apply]
  split <;> rfl

@[simp] theorem frames_err : (t.err id).2.frames = t.frames := frames_remember t id _

@[simp] theorem stopped_snd : (t.stopped id).2 = (t.err id).2 := rfl

@[simp] theorem frames_cancel : (t.cancel id).frames = t.frames := frames_err _ id

@[simp] theorem frames_act (limit : Instant) (ps : List (Instant × Nat)) :
    (act limit ps t).frames = t.frames := by
  induction ps generalizing t with
  | nil => rfl
  | cons p ps ih =>
    rw [act]
    split
    · rw [ih, frames_cancel]
      rfl
    · rfl

@[simp] theorem frames_wait (t' : Instant) : (t.wait t').frames = t.frames :=
  frames_act { t with pending := t.pending.filter fun p => t' < p.1 } t' t.pending

@[simp] theorem frames_beginDelays : t.beginDelays.frames = t.frames := rfl

@[simp] theorem frames_advance (d : Duration) : (t.advance d).frames = t.frames :=
  frames_wait { t with now := t.now + d.nanos } t.now

@[simp] theorem frames_done (patience : Duration) :
    (t.done id s patience).2.frames = t.frames := by
  unfold done
  dsimp only
  split
  · exact frames_err t id
  · split
    · rw [stopped_snd, frames_err, frames_wait, frames_beginDelays]
    · rw [frames_wait, frames_beginDelays]

@[simp] theorem frames_run (d : Duration) : (t.run id s d).2.frames = t.frames := by
  unfold run
  dsimp only
  split
  · exact frames_err t id
  · split
    · exact frames_err t id
    · split
      · rw [stopped_snd, frames_err, frames_wait, frames_beginDelays, frames_err]
      · rw [frames_wait, frames_beginDelays, frames_err]

@[simp] theorem answered_snd (otherwise : ScopeAnswer) (r : Option StopReason × ScopeTree) :
    (answered otherwise r).2 = r.2 := by
  unfold answered
  split <;> rfl

theorem frames_add (path : List Nat) (deadline : Option Instant) :
    (t.add path deadline).2.frames = t.frames ++ [(t.scopes.length :: path, deadline)] := by
  simp [frames, add]

end Frames

theorem frames_getElem? (h : t.scopes[k]? = some s) : t.frames[k]? = some (s.path, s.deadline) := by
  rw [frames, List.getElem?_map, h]
  rfl

theorem exists_of_frames_getElem? {f : List Nat × Option Instant} (h : t.frames[k]? = some f) :
    ∃ s, t.scopes[k]? = some s ∧ (s.path, s.deadline) = f := by
  rw [frames, List.getElem?_map] at h
  exact Option.map_eq_some_iff.mp h

theorem find?_eq_some {n : Nat} (h : t.find? n = some (id, s)) :
    t.names[n]? = some id ∧ t.scopes[id]? = some s := by
  simp only [find?, Option.bind_eq_bind, Option.bind_eq_some_iff, Option.some.injEq,
    Prod.mk.injEq] at h
  obtain ⟨id', hid, s', hs, rfl, rfl⟩ := h
  exact ⟨hid, hs⟩

theorem step_grows (t : ScopeTree) (x : ScopeStep) :
    (t.birth? x = none ∧ (t.step x).2.frames = t.frames) ∨
    ∃ b path deadline, t.birth? x = some b ∧
      (t.step x).2.frames = t.frames ++ [(t.scopes.length :: path, deadline)] ∧
      ((b = ⟨none, none⟩ ∧ path = [] ∧ deadline = none) ∨
        ∃ id s, t.scopes[id]? = some s ∧ b.parent = some id ∧ path = s.path ∧
          deadline = earliest? s.deadline b.expiry?) := by
  unfold step birth?
  cases hfind : t.find? (subject x) with
  | none => exact .inl ⟨rfl, rfl⟩
  | some p =>
    obtain ⟨id, s⟩ := p
    obtain ⟨-, hs⟩ := find?_eq_some hfind
    cases x with
    | root => exact .inr ⟨_, [], none, rfl, frames_add t [] none, .inl ⟨rfl, rfl, rfl⟩⟩
    | child =>
      exact .inr ⟨_, s.path, s.deadline, rfl, frames_add t s.path s.deadline,
        .inr ⟨id, s, hs, rfl, rfl, (earliest?_none_right _).symm⟩⟩
    | timeout parent d =>
      exact .inr ⟨_, s.path, _, rfl, frames_add t s.path _, .inr ⟨id, s, hs, rfl, rfl, rfl⟩⟩
    | clone => exact .inl ⟨rfl, rfl⟩
    | cancel => exact .inl ⟨rfl, frames_cancel t id⟩
    | cancelAfter => exact .inl ⟨rfl, rfl⟩
    | advance d => exact .inl ⟨rfl, frames_advance t d⟩
    | err => exact .inl ⟨rfl, (congrArg frames (answered_snd _ _)).trans (frames_err t id)⟩
    | remaining => exact .inl ⟨rfl, rfl⟩
    | deadline => exact .inl ⟨rfl, rfl⟩
    | done name patience =>
      exact .inl ⟨rfl, (congrArg frames (answered_snd _ _)).trans (frames_done t id s patience)⟩
    | run name d =>
      exact .inl ⟨rfl, (congrArg frames (answered_snd _ _)).trans (frames_run t id s d)⟩

/-- Scopes came to be as `bs` says, and the timers on their ways settle their deadlines. -/
structure Rooted (bs : List Birth) (t : ScopeTree) : Prop where
  length : bs.length = t.scopes.length
  frame : ∀ (k : Nat) path deadline, t.frames[k]? = some (path, deadline) →
    Lineage bs k path ∧ deadline = earliestOn bs path

theorem rooted_root : Rooted [⟨none, none⟩] root where
  length := rfl
  frame := by
    intro k path deadline h
    cases k with
    | zero =>
      cases h
      exact ⟨.root rfl rfl, rfl⟩
    | succ k => simp [frames, root] at h

theorem length_frames (t : ScopeTree) : t.frames.length = t.scopes.length := List.length_map _

theorem Rooted.step (ht : Rooted bs t) (x : ScopeStep) :
    Rooted (bs ++ (t.birth? x).toList) (t.step x).2 := by
  have hlength := ht.length
  rw [← length_frames] at hlength
  obtain ⟨hnone, hframes⟩ | ⟨b, path, deadline, hbirth, hframes, hcases⟩ := step_grows t x
  · rw [hnone, Option.toList_none, List.append_nil]
    constructor
    · rw [← length_frames, hframes, hlength]
    · rw [hframes]
      exact ht.frame
  · rw [hbirth, Option.toList_some]
    have hborn : (bs ++ [b])[t.scopes.length]? = some b := by simp [← ht.length]
    -- The new scope has the way and the deadline of the one it is inside.
    have hnew : Lineage (bs ++ [b]) t.scopes.length (t.scopes.length :: path) ∧
        deadline = earliestOn (bs ++ [b]) (t.scopes.length :: path) := by
      rw [earliestOn_cons hborn]
      obtain ⟨rfl, rfl, rfl⟩ | ⟨id, s, hs, hparent, rfl, rfl⟩ := hcases
      · exact ⟨.root hborn rfl, rfl⟩
      · obtain ⟨hline, hdeadline⟩ := ht.frame id _ _ (frames_getElem? hs)
        refine ⟨.child hborn hparent (hline.append [b]), ?_⟩
        rw [earliestOn_append hline, ← hdeadline]
    constructor
    · rw [← length_frames, hframes, List.length_append, List.length_append, hlength]
      rfl
    · intro k path' deadline' hk
      rw [hframes, List.getElem?_append, length_frames] at hk
      split at hk
      · obtain ⟨hline, hdeadline⟩ := ht.frame k _ _ hk
        rw [earliestOn_append hline]
        exact ⟨hline.append [b], hdeadline⟩
      · next hlast =>
        rw [List.getElem?_singleton] at hk
        split at hk
        · next hzero =>
          obtain rfl : k = t.scopes.length := by omega
          cases hk
          exact hnew
        · cases hk

theorem Rooted.steps (ht : Rooted bs t) (xs : List ScopeStep) :
    Rooted (bs ++ t.births xs) (t.steps xs).2 := by
  induction xs generalizing bs t with
  | nil =>
    rw [births, List.append_nil]
    exact ht
  | cons x xs ih =>
    have hrest := ih (ht.step x)
    rw [List.append_assoc] at hrest
    exact hrest

end ScopeTree

end PhasedLoad
