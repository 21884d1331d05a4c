import PhasedLoad.Proofs.Scope.Contacts

/-! The reason that a scope remembers. The contacts with scopes, first to last, settle all reasons:
a scope remembers what held at the first contact with it that found it stopped, and nothing changes
that any more. -/

namespace PhasedLoad

namespace Scope

variable (id : Nat) (s : Scope)

def verdict (now : Instant) : StopReason :=
  if s.deadline.any (· ≤ now) then .deadlineExceeded else .canceled

/-- After the contacts `seen`, one more is with `s`, which is scope `id`, and finds it stopped: its
deadline has passed or it was cancelled with a scope around it, by this contact at the latest. -/
def finds (seen : List Contact) (c : Contact) : Bool :=
  c.scope == id && (s.deadline.any (· ≤ c.instant) ||
    (seen ++ [c]).any fun b => b.cancels && s.path.contains b.scope)

def firstFound (seen : List Contact) : List Contact → Option Contact
  | [] => none
  | c :: cs => if s.finds id seen c then some c else firstFound (seen ++ [c]) cs

end Scope

namespace Scope

variable {id : Nat} {s : Scope} {seen cs : List Contact} {c : Contact}

theorem passed_iff {now : Instant} :
    s.deadline.any (· ≤ now) = true ↔ ∃ d ∈ s.deadline, d ≤ now := by
  simp [Option.any_eq_true]

theorem finds_iff : s.finds id seen c = true ↔
    c.scope = id ∧ ((∃ d ∈ s.deadline, d ≤ c.instant) ∨
      ∃ b ∈ seen ++ [c], b.cancels = true ∧ b.scope ∈ s.path) := by
  rw [← passed_iff]
  simp [finds]

theorem verdict_eq_canceled {now : Instant} (h : s.verdict now = .canceled) :
    ¬ ∃ d ∈ s.deadline, d ≤ now := by
  unfold verdict at h
  split at h
  · cases h
  · next hlive => exact fun hpassed => hlive (passed_iff.mpr hpassed)

/-- What a scope remembers has no part in this. -/
theorem firstFound_reason (reason : Option StopReason) :
    firstFound id { s with reason := reason } seen cs = s.firstFound id seen cs := by
  induction cs generalizing seen with
  | nil => rfl
  | cons c cs ih =>
    have hfinds : finds id { s with reason := reason } seen c = s.finds id seen c := rfl
    rw [firstFound, firstFound, hfinds, ih]

theorem firstFound_concat (c : Contact) : s.firstFound id seen (cs ++ [c]) =
    (s.firstFound id seen cs).or (if s.finds id (seen ++ cs) c then some c else none) := by
  induction cs generalizing seen with
  | nil => simp [firstFound]
  | cons b cs ih =>
    rw [List.cons_append, firstFound, firstFound]
    split
    · rfl
    · rw [ih, List.append_assoc]
      rfl

theorem firstFound_append (h : s.firstFound id seen cs = some c) (later : List Contact) :
    s.firstFound id seen (cs ++ later) = some c := by
  induction cs generalizing seen with
  | nil => cases h
  | cons b cs ih =>
    rw [List.cons_append, firstFound]
    rw [firstFound] at h
    split at h
    · next hfinds => rw [if_pos hfinds, h]
    · next hfinds =>
      rw [if_neg hfinds]
      exact ih h

theorem firstFound_eq_none (h : ∀ c ∈ cs, c.scope ≠ id) : s.firstFound id seen cs = none := by
  induction cs generalizing seen with
  | nil => rfl
  | cons b cs ih =>
    have hb : ¬ s.finds id seen b = true := fun hfinds =>
      h b List.mem_cons_self (finds_iff.mp hfinds).1
    rw [firstFound, if_neg hb]
    exact ih fun c hc => h c (List.mem_cons_of_mem b hc)

theorem finds_of_firstFound (h : s.firstFound id seen cs = some c) :
    c ∈ cs ∧ ∃ before, before ⊆ seen ++ cs ∧ s.finds id before c = true := by
  induction cs generalizing seen with
  | nil => cases h
  | cons b cs ih =>
    rw [firstFound] at h
    split at h
    · next hfinds =>
      cases h
      exact ⟨List.mem_cons_self, seen, List.subset_append_left _ _, hfinds⟩
    · obtain ⟨hmem, before, hbefore, hfinds⟩ := ih h
      rw [List.append_assoc] at hbefore
      exact ⟨List.mem_cons_of_mem b hmem, before, hbefore, hfinds⟩

end Scope

namespace ScopeTree

variable {t : ScopeTree} {cs : List Contact} {id k n : Nat} {s : Scope} {x : ScopeStep}
  {ps : List (Instant × Nat)}

/-- One of the steps asks for a cancellation of scope `id`, at once or after a delay, by any of the
names that it has then. -/
def Asks (t : ScopeTree) (xs : List ScopeStep) (id : Nat) : Prop :=
  ∃ before n after, (t.steps before).2.names[n]? = some id ∧
    (xs = before ++ .cancel n :: after ∨ ∃ d, xs = before ++ .cancelAfter n d :: after)

/-- The contacts so far settle which scopes were cancelled and what every scope remembers. -/
structure Logged (cs : List Contact) (t : ScopeTree) : Prop where
  ordered : cs.Pairwise fun c c' => c.instant ≤ c'.instant
  past : ∀ c ∈ cs, c.instant ≤ t.now
  known : ∀ c ∈ cs, c.scope < t.scopes.length
  canceled : ∀ a, a ∈ t.canceled ↔ ∃ c ∈ cs, c.cancels = true ∧ c.scope = a
  reason : ∀ (k : Nat) s, t.scopes[k]? = some s →
    s.reason = (s.firstFound k [] cs).map fun c => s.verdict c.instant

theorem logged_root : Logged [] root where
  ordered := .nil
  past := by simp
  known := by simp
  canceled := by simp [root]
  reason := by
    intro k s hs
    obtain rfl := List.mem_singleton.mp (List.mem_of_getElem? hs)
    rfl

/-- What is seen of a scope that remembers nothing yet is what the next contact with it finds. -/
theorem observe_eq_of_finds {cancels : Bool} (hcanceled : t.isCanceled s = true ↔
      ∃ b ∈ cs ++ [⟨t.now, id, cancels⟩], b.cancels = true ∧ b.scope ∈ s.path) :
    StopReason.observe s.deadline (if t.isCanceled s then some t.now else none) t.now =
      if s.finds id cs ⟨t.now, id, cancels⟩ then some (s.verdict t.now) else none := by
  have hfinds : s.finds id cs ⟨t.now, id, cancels⟩ = true ↔ _ := Scope.finds_iff
  rw [← hcanceled, ← Scope.passed_iff] at hfinds
  unfold StopReason.observe Scope.verdict
  by_cases hdeadline : s.deadline.any (· ≤ t.now) = true
  · rw [if_pos hdeadline, if_pos hdeadline, if_pos (hfinds.mpr ⟨rfl, .inl hdeadline⟩)]
  · rw [if_neg hdeadline, if_neg hdeadline]
    by_cases hc : t.isCanceled s = true
    · rw [if_pos (hfinds.mpr ⟨rfl, .inr hc⟩)]
      simp [hc]
    · have hgoes : ¬ s.finds id cs ⟨t.now, id, cancels⟩ = true := by
        rw [hfinds]
        rintro ⟨-, h | h⟩
        · exact hdeadline h
        · exact hc h
      rw [if_neg hgoes]
      simp [hc]

def marked (t : ScopeTree) (id : Nat) (cancels : Bool) : ScopeTree :=
  { t with canceled := if cancels then id :: t.canceled else t.canceled }

namespace Logged

theorem later (ht : Logged cs t) {m : Instant} (hm : t.now ≤ m) : Logged cs { t with now := m } :=
  ⟨ht.ordered, fun c hc => Nat.le_trans (ht.past c hc) hm, ht.known, ht.canceled, ht.reason⟩

theorem mem_marked (ht : Logged cs t) (id : Nat) (cancels : Bool) (a : Nat) :
    a ∈ (t.marked id cancels).canceled ↔
      ∃ b ∈ cs ++ [⟨t.now, id, cancels⟩], b.cancels = true ∧ b.scope = a := by
  have hsplit : (∃ b ∈ cs ++ [⟨t.now, id, cancels⟩], b.cancels = true ∧ b.scope = a) ↔
      a ∈ t.canceled ∨ cancels = true ∧ id = a := by
    simp only [List.mem_append, List.mem_singleton, or_and_right, exists_or, exists_eq_left,
      ht.canceled a]
  rw [hsplit, marked]
  cases cancels <;> simp [or_comm, eq_comm]

theorem observed_marked (ht : Logged cs t) (hs : t.scopes[k]? = some s) (cancels : Bool) :
    (t.marked k cancels).observed s =
      (s.firstFound k [] (cs ++ [⟨t.now, k, cancels⟩])).map fun c => s.verdict c.instant := by
  have hbefore := ht.reason k s hs
  rw [Scope.firstFound_concat, List.nil_append]
  unfold observed
  cases hfound : s.firstFound k [] cs with
  | some c =>
    rw [hfound] at hbefore
    rw [hbefore]
    rfl
  | none =>
    rw [hfound] at hbefore
    have hcanceled : (t.marked k cancels).isCanceled s = true ↔
        ∃ b ∈ cs ++ [⟨t.now, k, cancels⟩], b.cancels = true ∧ b.scope ∈ s.path := by
      rw [isCanceled_iff]
      constructor
      · rintro ⟨a, ha, hmem⟩
        obtain ⟨b, hb, hcancels, rfl⟩ := (ht.mem_marked k cancels a).mp hmem
        exact ⟨b, hb, hcancels, ha⟩
      · rintro ⟨b, hb, hcancels, hmem⟩
        exact ⟨b.scope, hmem, (ht.mem_marked k cancels b.scope).mpr ⟨b, hb, hcancels, rfl⟩⟩
    have hseen := observe_eq_of_finds hcanceled
    rw [hbefore, Option.none_or]
    refine hseen.trans ?_
    change (if s.finds k cs ⟨t.now, k, cancels⟩ then some (s.verdict t.now) else none) = _
    split <;> rfl

theorem contact (ht : Logged cs t) (hid : id < t.scopes.length) (cancels : Bool) :
    Logged (cs ++ [⟨t.now, id, cancels⟩]) ((t.marked id cancels).err id).2 := by
  have hlength : ((t.marked id cancels).err id).2.scopes.length = t.scopes.length :=
    length_of_frames (frames_err (t.marked id cancels) id)
  refine ⟨?_, ?_, ?_, ht.mem_marked id cancels, fun k s hs => ?_⟩
  · refine List.pairwise_append.mpr ⟨ht.ordered, List.pairwise_singleton _ _, fun c hc c' hc' => ?_⟩
    obtain rfl := List.mem_singleton.mp hc'
    exact ht.past c hc
  · intro c hc
    rcases List.mem_append.mp hc with hc | hc
    · exact ht.past c hc
    · obtain rfl := List.mem_singleton.mp hc
      exact Nat.le_refl _
  · intro c hc
    rw [hlength]
    rcases List.mem_append.mp hc with hc | hc
    · exact ht.known c hc
    · obtain rfl := List.mem_singleton.mp hc
      exact hid
  · rw [err, remember_getElem?] at hs
    obtain ⟨r, hr, hsr⟩ := Option.map_eq_some_iff.mp hs
    have hr' : t.scopes[k]? = some r := hr
    split at hsr
    · next hk =>
      subst hk hsr
      rw [hr, Option.bind_some, Scope.firstFound_reason]
      exact ht.observed_marked hr' cancels
    · next hk =>
      subst hsr
      have hother : ¬ r.finds k ([] ++ cs) ⟨t.now, id, cancels⟩ = true := fun hfinds =>
        hk (Scope.finds_iff.mp hfinds).1
      rw [Scope.firstFound_concat, if_neg hother, Option.or_none]
      exact ht.reason k r hr'

theorem look (ht : Logged cs t) (hid : id < t.scopes.length) :
    Logged (cs ++ [⟨t.now, id, false⟩]) (t.err id).2 :=
  ht.contact hid false

theorem cancel (ht : Logged cs t) (hid : id < t.scopes.length) :
    Logged (cs ++ [⟨t.now, id, true⟩]) (t.cancel id) :=
  ht.contact hid true

theorem act (ht : Logged cs t) (limit : Instant) (hps : ∀ p ∈ ps, p.2 < t.scopes.length) :
    Logged (cs ++ strikes limit ps t.now) (act limit ps t) := by
  induction ps generalizing t cs with
  | nil =>
    rw [strikes, List.append_nil]
    exact ht
  | cons p ps ih =>
    by_cases hdue : p.1 ≤ limit
    · have hnext := (ht.later (Nat.le_max_left _ p.1)).cancel (hps p List.mem_cons_self)
      have hrest := ih hnext fun q hq => by
        rw [length_of_frames (frames_cancel _ _)]
        exact hps q (List.mem_cons_of_mem p hq)
      rw [List.append_assoc] at hrest
      rw [strikes, if_pos hdue, act_cons_of_le hdue]
      exact hrest
    · rw [strikes, if_neg hdue, ScopeTree.act, if_neg hdue, List.append_nil]
      exact ht

theorem wait (ht : Logged cs t) (hpending : ∀ p ∈ t.pending, p.2 < t.scopes.length)
    (limit : Instant) : Logged (cs ++ strikes limit t.pending t.now) (t.wait limit) := by
  have hsifted : Logged cs { t with pending := t.pending.filter fun p => limit < p.1 } :=
    ⟨ht.ordered, ht.past, ht.known, ht.canceled, ht.reason⟩
  exact (hsifted.act limit hpending).later (Nat.le_max_left _ _)

theorem beginDelays (ht : Logged cs t) : Logged cs t.beginDelays :=
  ⟨ht.ordered, ht.past, ht.known, ht.canceled, ht.reason⟩

theorem add (ht : Logged cs t) (path : List Nat) (deadline : Option Instant) :
    Logged cs (t.add path deadline).2 := by
  refine ⟨ht.ordered, ht.past, fun c hc => ?_, ht.canceled, fun k s hs => ?_⟩
  · have := ht.known c hc
    simp only [ScopeTree.add, List.length_append]
    omega
  · rw [ScopeTree.add, List.getElem?_append] at hs
    split at hs
    · exact ht.reason k s hs
    · next hlast =>
      obtain rfl := List.mem_singleton.mp (List.mem_of_getElem? hs)
      rw [Scope.firstFound_eq_none]
      · rfl
      · intro c hc
        have := ht.known c hc
        omega

end Logged

namespace Logged

theorem await (ht : Logged cs t) (hf : t.Formed) (hs : t.scopes[k]? = some s) (limit : Instant) :
    Logged (cs ++ t.awaitContacts k s limit) (t.await k s limit).2 := by
  unfold ScopeTree.await awaitContacts
  split
  · next stop _ =>
    have hk : k < (t.wait stop).scopes.length := by
      rw [length_of_frames (frames_wait t stop)]
      exact (List.getElem?_eq_some_iff.mp hs).1
    rw [← List.append_assoc]
    exact (ht.wait hf.pending stop).look hk
  · exact ht.wait hf.pending limit

theorem observing (ht : Logged cs t) (hf : t.Formed) (hfind : t.find? n = some (k, s))
    (hx : x.Observes n) : Logged (cs ++ t.contacts x) (t.step x).2 := by
  have hs := (find?_eq_some hfind).2
  have hlook := ht.look (List.getElem?_eq_some_iff.mp hs).1
  obtain ⟨r, -, hstep, hcontacts⟩ | ⟨hseen, hcontacts, otherwise, -, hstep⟩ |
    ⟨hseen, otherwise, limit, -, -, hstep, hcontacts⟩ := observes_cases hfind hx
  · rw [hstep, hcontacts]
    exact hlook
  · rw [(err_eq_self hs hseen).2] at hlook
    rw [hstep, hcontacts]
    exact hlook
  · rw [(err_eq_self hs hseen).2] at hlook
    have hs' : t.beginDelays.scopes[k]? = some s := hs
    have hawait := hlook.beginDelays.await hf.beginDelays hs' limit
    rw [List.append_assoc] at hawait
    rw [hstep, hcontacts, answered_snd]
    exact hawait

theorem step (ht : Logged cs t) (hf : t.Formed) (x : ScopeStep) :
    Logged (cs ++ t.contacts x) (t.step x).2 := by
  cases hfind : t.find? (subject x) with
  | none =>
    have hcontacts : t.contacts x = [] := by simp [contacts, hfind]
    have hstep : (t.step x).2 = t := by simp [ScopeTree.step, hfind]
    rw [hcontacts, hstep, List.append_nil]
    exact ht
  | some p =>
    obtain ⟨id, s⟩ := p
    have hid := (List.getElem?_eq_some_iff.mp (find?_eq_some hfind).2).1
    have hquiet : Logged (cs ++ []) t := (List.append_nil cs).symm ▸ ht
    cases x with
    | err => exact ht.observing hf hfind .err
    | done _ patience => exact ht.observing hf hfind (.done patience)
    | run _ d => exact ht.observing hf hfind (.run d)
    | root =>
      simp only [contacts, ScopeTree.step, hfind]
      exact hquiet.add [] none
    | child =>
      simp only [contacts, ScopeTree.step, hfind]
      exact hquiet.add s.path s.deadline
    | timeout _ d =>
      simp only [contacts, ScopeTree.step, hfind]
      exact hquiet.add s.path _
    | clone | cancelAfter | remaining | deadline =>
      simp only [contacts, ScopeTree.step, hfind]
      exact ⟨hquiet.ordered, hquiet.past, hquiet.known, hquiet.canceled, hquiet.reason⟩
    | cancel =>
      simp only [contacts, ScopeTree.step, hfind]
      exact ht.cancel hid
    | advance d =>
      simp only [contacts, ScopeTree.step, hfind]
      exact ((ht.later (Nat.le_add_right _ d.nanos)).wait hf.pending t.now).beginDelays

theorem steps (ht : Logged cs t) (hf : t.Formed) (xs : List ScopeStep) :
    Logged (cs ++ t.history xs) (t.steps xs).2 := by
  induction xs generalizing cs t with
  | nil =>
    rw [history, List.append_nil]
    exact ht
  | cons x xs ih =>
    have hrest := ih (ht.step hf x) (hf.step x)
    rw [List.append_assoc] at hrest
    exact hrest

end Logged

/-! Every cancellation was asked for. -/

/-- Scope `a` was cancelled, or a cancellation of it is to come. -/
def Called (t : ScopeTree) (a : Nat) : Prop :=
  a ∈ t.canceled ∨ (∃ p ∈ t.delayed, p.2 = a) ∨ ∃ p ∈ t.pending, p.2 = a

theorem called_root (a : Nat) : ¬ root.Called a := by
  simp [Called, root]

theorem mem_of_canceled_act {limit : Instant} {a : Nat} (t : ScopeTree)
    (h : a ∈ (act limit ps t).canceled) :
    a ∈ t.canceled ∨ ∃ p ∈ ps, p.1 ≤ limit ∧ p.2 = a := by
  induction ps generalizing t with
  | nil => exact .inl h
  | cons p ps ih =>
    by_cases hdue : p.1 ≤ limit
    · rw [act_cons_of_le hdue] at h
      rcases ih _ h with h | ⟨q, hq, ha⟩
      · rcases List.mem_cons.mp h with rfl | h
        · exact .inr ⟨p, List.mem_cons_self, hdue, rfl⟩
        · exact .inl h
      · exact .inr ⟨q, List.mem_cons_of_mem p hq, ha⟩
    · rw [act, if_neg hdue] at h
      exact .inl h

@[simp] theorem act_delayed (limit : Instant) (ps : List (Instant × Nat)) (t : ScopeTree) :
    (act limit ps t).delayed = t.delayed := by
  induction ps generalizing t with
  | nil => rfl
  | cons p ps ih =>
    rw [act]
    split
    · exact ih _
    · rfl

@[simp] theorem act_pending (limit : Instant) (ps : List (Instant × Nat)) (t : ScopeTree) :
    (act limit ps t).pending = t.pending := by
  induction ps generalizing t with
  | nil => rfl
  | cons p ps ih =>
    rw [act]
    split
    · exact ih _
    · rfl

theorem called_of_wait {limit : Instant} {a : Nat} (h : (t.wait limit).Called a) : t.Called a := by
  rcases h with h | ⟨p, hp, ha⟩ | ⟨p, hp, ha⟩
  · rcases mem_of_canceled_act _ h with h | ⟨p, hp, -, ha⟩
    · exact .inl h
    · exact .inr (.inr ⟨p, hp, ha⟩)
  · exact .inr (.inl ⟨p, by simpa [wait] using hp, ha⟩)
  · have hp' : p ∈ t.pending ∧ limit < p.1 := by simpa [wait] using hp
    exact .inr (.inr ⟨p, hp'.1, ha⟩)

theorem called_of_beginDelays {a : Nat} (h : t.beginDelays.Called a) : t.Called a := by
  -- What is under way after the delays was so before or had a delay.
  have hfold : ∀ (ds : List (Duration × Nat)) (ps : List (Instant × Nat)) (p : Instant × Nat),
      p ∈ ds.foldl (fun ps p => schedule (Instant.wake t.now p.1, p.2) ps) ps →
      p ∈ ps ∨ ∃ q ∈ ds, q.2 = p.2 := by
    intro ds
    induction ds with
    | nil => exact fun ps p hp => .inl hp
    | cons d ds ih =>
      intro ps p hp
      rcases ih _ p hp with hp | ⟨q, hq, ha⟩
      · rcases mem_schedule.mp hp with rfl | hp
        · exact .inr ⟨d, List.mem_cons_self, rfl⟩
        · exact .inl hp
      · exact .inr ⟨q, List.mem_cons_of_mem d hq, ha⟩
  rcases h with h | ⟨p, hp, ha⟩ | ⟨p, hp, ha⟩
  · exact .inl h
  · cases hp
  · rcases hfold t.delayed t.pending p hp with hp | ⟨q, hq, ha'⟩
    · exact .inr (.inr ⟨p, hp, ha⟩)
    · exact .inr (.inl ⟨q, hq, ha'.trans ha⟩)

theorem called_of_await {limit : Instant} {a : Nat} (h : (t.await k s limit).2.Called a) :
    t.Called a := by
  unfold ScopeTree.await at h
  split at h
  · next stop _ =>
    have hwait : (t.wait stop).Called a := h
    exact called_of_wait hwait
  · exact called_of_wait h

theorem called_of_observing {a : Nat} (hfind : t.find? n = some (k, s)) (hx : x.Observes n)
    (h : (t.step x).2.Called a) : t.Called a := by
  obtain ⟨r, -, hstep, -⟩ | ⟨-, -, otherwise, -, hstep⟩ |
    ⟨-, otherwise, limit, -, -, hstep, -⟩ := observes_cases hfind hx
  · rw [hstep] at h
    exact h
  · rw [hstep] at h
    exact h
  · rw [hstep, answered_snd] at h
    exact called_of_beginDelays (called_of_await h)

theorem called_of_step {a : Nat} (h : (t.step x).2.Called a) :
    t.Called a ∨ ∃ n, t.names[n]? = some a ∧ (x = .cancel n ∨ ∃ d, x = .cancelAfter n d) := by
  cases hfind : t.find? (subject x) with
  | none => exact .inl (by simpa [ScopeTree.step, hfind] using h)
  | some p =>
    obtain ⟨id, s⟩ := p
    have hname := (find?_eq_some hfind).1
    cases x with
    | err => exact .inl (called_of_observing hfind .err h)
    | done _ patience => exact .inl (called_of_observing hfind (.done patience) h)
    | run _ d => exact .inl (called_of_observing hfind (.run d) h)
    | root | child | timeout | clone | remaining | deadline =>
      simp only [ScopeTree.step, hfind] at h
      exact .inl h
    | advance d =>
      simp only [ScopeTree.step, hfind] at h
      have hwait := called_of_beginDelays (t := wait t.now { t with now := t.now + d.nanos }) h
      exact .inl (called_of_wait (t := { t with now := t.now + d.nanos }) hwait)
    | cancel n =>
      simp only [ScopeTree.step, hfind] at h
      rcases h with h | h
      · rcases List.mem_cons.mp h with rfl | h
        · exact .inr ⟨n, hname, .inl rfl⟩
        · exact .inl (.inl h)
      · exact .inl (.inr h)
    | cancelAfter n d =>
      simp only [ScopeTree.step, hfind] at h
      rcases h with h | ⟨p, hp, ha⟩ | h
      · exact .inl (.inl h)
      · rcases List.mem_append.mp hp with hp | hp
        · exact .inl (.inr (.inl ⟨p, hp, ha⟩))
        · obtain rfl := List.mem_singleton.mp hp
          exact .inr ⟨n, ha ▸ hname, .inr ⟨d, rfl⟩⟩
      · exact .inl (.inr (.inr h))

theorem asks_of_called (xs : List ScopeStep) {a : Nat} (h : (t.steps xs).2.Called a) :
    t.Called a ∨ t.Asks xs a := by
  induction xs generalizing t with
  | nil => exact .inl h
  | cons x xs ih =>
    rcases ih h with h | ⟨before, n, after, hname, hxs⟩
    · rcases called_of_step h with h | ⟨n, hname, hx⟩
      · exact .inl h
      · refine .inr ⟨[], n, xs, hname, ?_⟩
        rcases hx with rfl | ⟨d, rfl⟩
        · exact .inl rfl
        · exact .inr ⟨d, rfl⟩
    · refine .inr ⟨x :: before, n, after, hname, ?_⟩
      rcases hxs with rfl | ⟨d, rfl⟩
      · exact .inl rfl
      · exact .inr ⟨d, rfl⟩

/-! A remembered reason is the answer from then on. -/

theorem frames_isPrefix (t : ScopeTree) (xs : List ScopeStep) :
    t.frames <+: (t.steps xs).2.frames := by
  induction xs generalizing t with
  | nil => exact List.prefix_refl _
  | cons x xs ih =>
    have hstep : t.frames <+: (t.step x).2.frames := by
      obtain ⟨-, hframes⟩ | ⟨b, path, deadline, -, hframes, -⟩ := step_grows t x
      · exact hframes ▸ List.prefix_refl _
      · exact hframes ▸ List.prefix_append _ _
    exact hstep.trans (ih (t.step x).2)

theorem Logged.keeps (ht : Logged cs t) (hf : t.Formed) (hs : t.scopes[k]? = some s)
    {r : StopReason} (hr : s.reason = some r) (xs : List ScopeStep) :
    ∃ s', (t.steps xs).2.scopes[k]? = some s' ∧ s'.reason = some r := by
  obtain ⟨later, hframes⟩ := frames_isPrefix t xs
  have hframe := frames_getElem? hs
  have hlt : k < t.frames.length := (List.getElem?_eq_some_iff.mp hframe).1
  rw [← List.getElem?_append_left hlt, hframes] at hframe
  obtain ⟨s', hs', hsame⟩ := exists_of_frames_getElem? hframe
  have hs'_eq : s' = { s with reason := s'.reason } := by
    obtain ⟨hpath, hdeadline⟩ := Prod.mk.inj hsame
    cases s'
    simp only at hpath hdeadline
    rw [hpath, hdeadline]
  have hbefore := ht.reason k s hs
  have hafter := (ht.steps hf xs).reason k s' hs'
  rw [hr] at hbefore
  obtain ⟨c, hc, hverdict⟩ := Option.map_eq_some_iff.mp hbefore.symm
  rw [hs'_eq, Scope.firstFound_reason, Scope.firstFound_append hc] at hafter
  exact ⟨s', hs', hafter.trans (congrArg some hverdict)⟩

theorem answer_of_reason (hfind : t.find? n = some (k, s)) (hx : x.Observes n) {r : StopReason}
    (hr : s.reason = some r) : (t.step x).1 = .stopped r := by
  have hseen : t.observed s = some r := by simp [observed, hr]
  obtain ⟨r', hr', hstep, -⟩ | ⟨hnone, -⟩ | ⟨hnone, -⟩ := observes_cases hfind hx
  · rw [hseen] at hr'
    cases hr'
    rw [hstep]
  · rw [hseen] at hnone
    cases hnone
  · rw [hseen] at hnone
    cases hnone

/-- After any steps, a scope remembers the reason that held at the first contact with it that found
it stopped: the contacts come in the order of their instants, and a passed deadline goes before a
cancellation. To remember a cancellation, one must have been asked for, of the scope or of one
around it. Whoever asks whether it has stopped is told what it remembers from then on, so no wait
makes up for a reason that is missing, and a wait lasts up to the instant at which the scope stops.
What it remembers once is told by all its names ever after. -/
theorem steps_latch_reasons (xs : List ScopeStep) :
    let t := (root.steps xs).2
    let cs := root.history xs
    (cs.Pairwise fun c c' => c.instant ≤ c'.instant) ∧
    ∀ (k : Nat) s, t.scopes[k]? = some s →
      Lineage (⟨none, none⟩ :: root.births xs) k s.path ∧
      s.reason = (s.firstFound k [] cs).map (fun c => s.verdict c.instant) ∧
      (s.reason = some .canceled →
        ∃ c ∈ cs, c.cancels = true ∧ c.scope ∈ s.path ∧ root.Asks xs c.scope) ∧
      (∀ n x, t.names[n]? = some k → x.Observes n → ∀ r,
        ((t.step x).1 = .stopped r ↔
          ∃ s', (t.step x).2.scopes[k]? = some s' ∧ s'.reason = some r) ∧
        ((t.step x).1 = .stopped r → ¬ t.HasStopped s →
          (∀ d ∈ s.deadline, (t.step x).2.now ≤ d) ∧
          ∀ c ∈ t.contacts x, c.cancels = true → c.scope ∈ s.path →
            (t.step x).2.now ≤ c.instant)) ∧
      ∀ r, s.reason = some r → ∀ ys n x, (t.steps ys).2.names[n]? = some k → x.Observes n →
        ((t.steps ys).2.step x).1 = .stopped r := by
  intro t cs
  have hf : t.Formed := formed_root.steps xs
  have hlogged : Logged cs t := logged_root.steps formed_root xs
  have hrooted : Rooted (⟨none, none⟩ :: root.births xs) t := rooted_root.steps xs
  have hfind : ∀ {u : ScopeTree} {n k : Nat} {s : Scope}, u.names[n]? = some k →
      u.scopes[k]? = some s → u.find? n = some (k, s) := by
    intro u n k s hn hs
    simp [find?, hn, hs]
  refine ⟨hlogged.ordered, fun k s hs => ⟨(hrooted.frame k _ _ (frames_getElem? hs)).1,
    hlogged.reason k s hs, fun hcanceled => ?_, fun n x hn hx r => ?_, fun r hr ys n x hn hx => ?_⟩⟩
  · have hreason := hlogged.reason k s hs
    rw [hcanceled] at hreason
    obtain ⟨c, hc, hverdict⟩ := Option.map_eq_some_iff.mp hreason.symm
    obtain ⟨hmem, before, hbefore, hfinds⟩ := Scope.finds_of_firstFound hc
    -- The scope was found stopped before its deadline, so someone had cancelled it by then.
    obtain ⟨-, hdeadline | ⟨b, hb, hcancels, hpath⟩⟩ := Scope.finds_iff.mp hfinds
    · exact absurd hdeadline (Scope.verdict_eq_canceled hverdict)
    · have hb' : b ∈ cs := by
        rcases List.mem_append.mp hb with hb | hb
        · exact hbefore hb
        · obtain rfl := List.mem_singleton.mp hb
          exact hmem
      have hcalled : t.Called b.scope := .inl ((hlogged.canceled _).mpr ⟨b, hb', hcancels, rfl⟩)
      have hasks := (asks_of_called xs hcalled).resolve_left (called_root b.scope)
      exact ⟨b, hb', hcancels, hpath, hasks⟩
  · exact ⟨hf.answer_iff (hfind hn hs) hx r,
      fun hanswer hlive => hf.stops_first (hfind hn hs) hx hlive hanswer⟩
  · obtain ⟨s', hs', hr'⟩ := hlogged.keeps hf hs hr ys
    exact answer_of_reason (hfind hn hs') hx hr'

/-- A timer inside a scope that is cancelled before the timer fires; nobody asks before it has. -/
def late : List ScopeStep :=
  [.timeout 0 (.ofSecs 5), .clone 1, .advance (.ofSecs 1), .cancel 0, .advance (.ofSecs 9), .err 2]

theorem late_latches :
    ∃ t, t = (root.steps late).2 ∧
      (∃ s, t.scopes[1]? = some s ∧ s.reason = some .deadlineExceeded) ∧
      (∃ s, t.scopes[0]? = some s ∧ s.reason = some .canceled ∧ root.Asks late 0) ∧
      (t.step (.run 1 (.ofSecs 1))).1 = .stopped .deadlineExceeded ∧
      ∃ u, u = (t.steps [.cancel 2, .clone 1]).2 ∧ u.names[3]? = some 1 ∧
        (u.step (.done 3 (.ofSecs 1))).1 = .stopped .deadlineExceeded := by
  obtain ⟨-, hscopes⟩ := steps_latch_reasons late
  obtain ⟨timed, htimed⟩ : ∃ s, (root.steps late).2.scopes[1]? = some s := ⟨_, rfl⟩
  obtain ⟨outer, houter⟩ : ∃ s, (root.steps late).2.scopes[0]? = some s := ⟨_, rfl⟩
  obtain ⟨-, -, -, hanswers, hkeeps⟩ := hscopes 1 timed htimed
  obtain ⟨-, -, hasked, -⟩ := hscopes 0 outer houter
  have hexpired : timed.reason = some .deadlineExceeded := by
    cases htimed
    rfl
  have hcanceled : outer.reason = some .canceled := by
    cases houter
    rfl
  have hpath : outer.path = [0] := by
    cases houter
    rfl
  obtain ⟨c, -, -, hmem, hasks⟩ := hasked hcanceled
  rw [hpath, List.mem_singleton] at hmem
  rw [hmem] at hasks
  refine ⟨_, rfl, ⟨timed, htimed, hexpired⟩, ⟨outer, houter, hcanceled, hasks⟩, ?_, _, rfl, rfl, ?_⟩
  · exact (hanswers 1 _ rfl (.run _) _).1.mpr ⟨_, rfl, rfl⟩
  · exact hkeeps _ hexpired [.cancel 2, .clone 1] 3 _ rfl (.done _)

end ScopeTree

end PhasedLoad
