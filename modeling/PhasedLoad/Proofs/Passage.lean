import PhasedLoad.World

/-! Passages from one world to another with what happens on the way: events in the order of the
clock, of which none that a cancelled run must not start comes after the cancellation. -/

namespace PhasedLoad

namespace Event

def cancels : Event → Bool
  | answered _ _ reply _ => reply.cancels
  | _ => false

/-- A cancelled run starts no execution and calls for no setup and no work. -/
def opens : Event → Bool
  | called .teardown _ => false
  | called _ _ => true
  | logged (.phaseStarting ..) => true
  | _ => false

/-- A line of the log that tells of no start. -/
def isLine : Event → Bool
  | logged (.phaseStarting ..) => false
  | logged _ => true
  | _ => false

theorem cancels_of_isLine {event : Event} (h : event.isLine = true) : event.cancels = false := by
  cases event <;> simp_all [isLine, cancels]

theorem opens_of_isLine {event : Event} (h : event.isLine = true) : event.opens = false := by
  cases event with
  | logged line => cases line <;> simp_all [isLine, opens]
  | _ => simp [isLine] at h

end Event

/-- When the run is cancelled, as far as that is settled with the entry. -/
def Entry.cancellation (c : Option Instant) (e : Entry) : Option Instant :=
  if e.event.cancels then earliest? (some e.instant) c else c

namespace History

variable {c : Option Instant} {h h' : History} {e : Entry}

def cancellation (c : Option Instant) (h : History) : Option Instant := h.foldl Entry.cancellation c

@[simp] theorem cancellation_nil (c : Option Instant) : cancellation c [] = c := rfl
@[simp] theorem cancellation_cons (c : Option Instant) (e : Entry) (h : History) :
    cancellation c (e :: h) = cancellation (e.cancellation c) h := rfl
@[simp] theorem cancellation_append (c : Option Instant) (h h' : History) :
    cancellation c (h ++ h') = cancellation (cancellation c h) h' := List.foldl_append

/-- Nothing is started once the run is cancelled. -/
def Quiet : Option Instant → History → Prop
  | _, [] => True
  | c, e :: h => (e.event.opens = true → ∀ t ∈ c, e.instant < t) ∧ Quiet (e.cancellation c) h

theorem quiet_append : Quiet c (h ++ h') ↔ Quiet c h ∧ Quiet (cancellation c h) h' := by
  induction h generalizing c with
  | nil => simp [Quiet]
  | cons e h ih => simp [Quiet, ih, and_assoc]

theorem Quiet.lt_cancellation (hq : Quiet c (h ++ e :: h')) (he : e.event.opens = true) :
    ∀ t ∈ cancellation c h, e.instant < t :=
  (quiet_append.mp hq).2.1 he

theorem cancellation_eq_self (hh : ∀ e ∈ h, e.event.cancels = false) : cancellation c h = c := by
  induction h with
  | nil => rfl
  | cons e h ih =>
    simp only [List.forall_mem_cons] at hh
    simp only [cancellation_cons, Entry.cancellation, hh.1, Bool.false_eq_true, if_false]
    exact ih hh.2

theorem quiet_of_not_opens (hh : ∀ e ∈ h, e.event.opens = false) : Quiet c h := by
  induction h generalizing c with
  | nil => trivial
  | cons e h ih =>
    simp only [List.forall_mem_cons] at hh
    exact ⟨by simp [hh.1], ih hh.2⟩

/-- The clock never goes back. -/
def Ordered (h : History) : Prop := h.Pairwise fun a b => a.instant ≤ b.instant

end History

theorem earliest?_le {a b : Option Instant} {t : Instant} (h : t ∈ b) :
    ∃ s ∈ earliest? a b, s ≤ t := by
  obtain rfl : b = some t := h
  cases a with
  | none => exact ⟨t, rfl, Nat.le_refl t⟩
  | some s => exact ⟨min s t, rfl, Nat.min_le_right s t⟩

theorem earliest?_le_left {a b : Option Instant} {t : Instant} (h : t ∈ a) :
    ∃ s ∈ earliest? a b, s ≤ t := by
  obtain rfl : a = some t := h
  cases b with
  | none => exact ⟨t, rfl, Nat.le_refl t⟩
  | some s => exact ⟨min t s, rfl, Nat.min_le_left t s⟩

theorem Entry.cancellation_le {c : Option Instant} {t : Instant} (e : Entry) (h : t ∈ c) :
    ∃ s ∈ e.cancellation c, s ≤ t := by
  unfold Entry.cancellation
  split
  · exact earliest?_le h
  · exact ⟨t, h, Nat.le_refl t⟩

theorem History.cancellation_le {c : Option Instant} {t : Instant} (h : History) (ht : t ∈ c) :
    ∃ s ∈ cancellation c h, s ≤ t := by
  induction h generalizing c t with
  | nil => exact ⟨t, ht, Nat.le_refl t⟩
  | cons e h ih =>
    obtain ⟨s, hs, hst⟩ := e.cancellation_le ht
    obtain ⟨u, hu, hus⟩ := ih hs
    exact ⟨u, hu, Nat.le_trans hus hst⟩

theorem History.cancellation_le_of_mem {c : Option Instant} {h : History} {e : Entry} (he : e ∈ h)
    (hcancels : e.event.cancels = true) : ∃ t ∈ cancellation c h, t ≤ e.instant := by
  obtain ⟨before, after, rfl⟩ := List.append_of_mem he
  obtain ⟨s, hs, hle⟩ := earliest?_le_left (b := cancellation c before) (Option.mem_some_self e.instant)
  have hsettled : s ∈ e.cancellation (cancellation c before) := by
    rwa [Entry.cancellation, if_pos hcancels]
  obtain ⟨t, ht, hts⟩ := cancellation_le after hsettled
  rw [cancellation_append, cancellation_cons]
  exact ⟨t, ht, Nat.le_trans hts hle⟩

/-- The way from one world to another, with what happens on it. -/
structure Passage {σ : Type} (w : World σ) (h : History) (w' : World σ) : Prop where
  le : w.now ≤ w'.now
  since : ∀ e ∈ h, w.now ≤ e.instant
  until_ : ∀ e ∈ h, e.instant ≤ w'.now
  ordered : h.Ordered
  canceledAt : w'.canceledAt = h.cancellation w.canceledAt
  quiet : h.Quiet w.canceledAt

namespace Passage

variable {σ : Type} {u v w : World σ} {h h' : History}

theorem congr_right (p : Passage u h v) (hnow : w.now = v.now) (hc : w.canceledAt = v.canceledAt) :
    Passage u h w where
  le := hnow ▸ p.le
  since := p.since
  until_ := hnow ▸ p.until_
  ordered := p.ordered
  canceledAt := hc.trans p.canceledAt
  quiet := p.quiet

theorem refl (w : World σ) : Passage w [] w where
  le := Nat.le_refl _
  since := by simp
  until_ := by simp
  ordered := List.Pairwise.nil
  canceledAt := rfl
  quiet := trivial

theorem trans (p : Passage u h v) (q : Passage v h' w) : Passage u (h ++ h') w where
  le := Nat.le_trans p.le q.le
  since := by
    intro e he
    rcases List.mem_append.mp he with he | he
    · exact p.since e he
    · exact Nat.le_trans p.le (q.since e he)
  until_ := by
    intro e he
    rcases List.mem_append.mp he with he | he
    · exact Nat.le_trans (p.until_ e he) q.le
    · exact q.until_ e he
  ordered := List.pairwise_append.mpr ⟨p.ordered, q.ordered, fun a ha b hb =>
    Nat.le_trans (p.until_ a ha) (q.since b hb)⟩
  canceledAt := by rw [q.canceledAt, p.canceledAt, History.cancellation_append]
  quiet := History.quiet_append.mpr ⟨p.quiet, p.canceledAt ▸ q.quiet⟩

theorem advance (w : World σ) (t : Instant) : Passage w [] (w.advance t) where
  le := Nat.le_max_left _ _
  since := by simp
  until_ := by simp
  ordered := List.Pairwise.nil
  canceledAt := rfl
  quiet := trivial

theorem post (w : World σ) (env : Environment σ) (call : Call) :
    Passage w [] (w.post env call).2 :=
  (refl w).congr_right rfl rfl

theorem note (w : World σ) (event : Event) (hcancels : event.cancels = false)
    (hopens : event.opens = true → ∀ t ∈ w.canceledAt, w.now < t) :
    Passage w [⟨w.now, event⟩] w where
  le := Nat.le_refl _
  since := by simp
  until_ := by simp
  ordered := List.pairwise_singleton _ _
  canceledAt := by simp [Entry.cancellation, hcancels]
  quiet := ⟨hopens, trivial⟩

theorem answered (w : World σ) (who : Caller) (took : Duration) (reply : Reply)
    (stopped : Option StopReason) :
    Passage w [⟨w.now, .answered who took reply stopped⟩] (w.receive reply) where
  le := by simp
  since := by simp
  until_ := by simp
  ordered := List.pairwise_singleton _ _
  canceledAt := by
    cases hc : reply.cancels <;>
      simp [World.receive, World.cancel, Entry.cancellation, Event.cancels, hc]
  quiet := ⟨by simp [Event.opens], trivial⟩

theorem lines {t : Instant} (hlines : ∀ e ∈ h, e.event.isLine = true)
    (hsince : ∀ e ∈ h, w.now ≤ e.instant) (huntil : ∀ e ∈ h, e.instant ≤ t)
    (hordered : h.Ordered) : Passage w h (w.advance t) where
  le := Nat.le_max_left _ _
  since := hsince
  until_ := fun e he => Nat.le_trans (huntil e he) (Nat.le_max_right _ _)
  ordered := hordered
  canceledAt :=
    (History.cancellation_eq_self fun e he => Event.cancels_of_isLine (hlines e he)).symm
  quiet := History.quiet_of_not_opens fun e he => Event.opens_of_isLine (hlines e he)

theorem linesNow (w : World σ) (hlines : ∀ e ∈ h, e.event.isLine = true)
    (hnow : ∀ e ∈ h, e.instant = w.now) : Passage w h w := by
  have p : Passage w h (w.advance w.now) :=
    .lines hlines (fun e he => Nat.le_of_eq (hnow e he).symm)
      (fun e he => Nat.le_of_eq (hnow e he))
      (List.pairwise_of_forall_mem_list fun a ha b hb =>
        Nat.le_of_eq ((hnow a ha).trans (hnow b hb).symm))
  exact p.congr_right (by simp) rfl

end Passage

end PhasedLoad
