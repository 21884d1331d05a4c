import PhasedLoad.Proofs.Histogram

/-! Statistics do not depend on the order in which workers update them. The counters are sums; a
histogram in which each status stands once, in the order of the statuses, is given by which statuses
it has and by their counts. -/

namespace PhasedLoad

namespace Histogram

variable {h other : Histogram} {status : Nat}

def statuses (h : Histogram) : List Nat := h.map (·.1)

/-- The counts of a status together, however many bits that takes. -/
def tally (status : Nat) (h : Histogram) : Nat :=
  h.foldr (fun e n => (if e.1 = status then e.2.toNat else 0) + n) 0

def tallyAll (status : Nat) (hs : List Histogram) : Nat :=
  hs.foldr (fun h n => h.tally status + n) 0

theorem tallyAll_perm {hs ks : List Histogram} (h : hs.Perm ks) (status : Nat) :
    tallyAll status hs = tallyAll status ks :=
  h.foldr_eq' (fun a _ b _ _ => Nat.add_left_comm (b.tally status) (a.tally status) _) 0

theorem tallyAll_append (status : Nat) (hs ks : List Histogram) :
    tallyAll status (hs ++ ks) = tallyAll status hs + tallyAll status ks := by
  induction hs with
  | nil => simp [tallyAll]
  | cons h hs ih =>
    have hcons : ∀ l, tallyAll status (h :: l) = h.tally status + tallyAll status l := fun _ => rfl
    rw [List.cons_append, hcons, hcons, ih, Nat.add_assoc]

theorem weight_eq_tally (status : Nat) (h : Histogram) :
    weight (· == status) h = .ofNat (tally status h) := by
  induction h with
  | nil => rfl
  | cons e rest ih =>
    have htally : tally status (e :: rest) =
        (if e.1 = status then e.2.toNat else 0) + tally status rest := rfl
    rw [htally, UInt64.ofNat_add, ← ih]
    by_cases heq : e.1 = status <;> simp [weight, heq]

theorem mem_statuses_add (status : Nat) (n : UInt64) (c : Nat) (h : Histogram) :
    c ∈ (add status n h).statuses ↔ c = status ∨ c ∈ h.statuses := by
  induction h with
  | nil => simp [add, statuses]
  | cons e rest ih =>
    obtain ⟨s, k⟩ := e
    unfold add
    split
    · simp [statuses]
    · split
      · next heq => simp [statuses, heq]
      · simp only [statuses, List.map_cons, List.mem_cons] at ih ⊢
        rw [ih]
        grind

theorem mem_statuses_merge (c : Nat) (h other : Histogram) :
    c ∈ (h.merge other).statuses ↔ c ∈ h.statuses ∨ c ∈ other.statuses := by
  induction other generalizing h with
  | nil => simp [merge, statuses]
  | cons e rest ih =>
    have hrest := ih (add e.1 e.2 h)
    rw [mem_statuses_add] at hrest
    refine hrest.trans ?_
    simp only [statuses, List.map_cons, List.mem_cons]
    grind

theorem Ascending.mem_iff (hh : Ascending h) {c : Nat} {n : UInt64} :
    (c, n) ∈ h ↔ c ∈ h.statuses ∧ n = weight (· == c) h := by
  induction h with
  | nil => simp [statuses]
  | cons e rest ih =>
    obtain ⟨he, hrest⟩ := List.pairwise_cons.mp hh
    obtain ⟨s, k⟩ := e
    by_cases hc : c = s
    · subst hc
      have hfirst : ∀ m, (c, m) ∉ rest := fun m hm => Nat.lt_irrefl c (he _ hm)
      have hzero : weight (· == c) rest = 0 :=
        weight_eq_zero fun d hd => by simpa using Nat.ne_of_gt (he d hd)
      simp [statuses, weight, hfirst, hzero]
    · have hne : s ≠ c := fun heq => hc heq.symm
      simpa [statuses, weight, hc, hne] using ih hrest

theorem Ascending.nodup (hh : Ascending h) : h.Nodup :=
  hh.imp fun {a b} hlt (heq : a = b) => Nat.lt_irrefl b.1 (heq ▸ hlt)

/-- Histograms in order are the same if they list the same statuses with the same counts. -/
theorem Ascending.ext (hh : Ascending h) (ho : Ascending other)
    (hstatuses : ∀ c, c ∈ h.statuses ↔ c ∈ other.statuses)
    (hweight : ∀ c, weight (· == c) h = weight (· == c) other) : h = other := by
  have hmem : ∀ e, e ∈ h ↔ e ∈ other := by
    rintro ⟨c, n⟩
    rw [hh.mem_iff, ho.mem_iff, hstatuses, hweight]
  have hperm := (List.perm_ext_iff_of_nodup hh.nodup ho.nodup).mpr hmem
  exact hperm.eq_of_pairwise (fun a b _ _ hab hba => absurd hab (Nat.lt_asymm hba)) hh ho

/-- The histograms `parts` are `h` split up: they list the same statuses, whose counts add up to
those in `h`. -/
structure Splits (h : Histogram) (parts : List Histogram) : Prop where
  statuses : ∀ c, c ∈ h.statuses ↔ ∃ part ∈ parts, c ∈ part.statuses
  tally : ∀ c, tallyAll c parts = h.tally c

end Histogram

namespace Statistics

inductive Update
  | request (took : Duration)
  | error
  | merge (codes : Histogram)
deriving DecidableEq

namespace Update

def took? : Update → Option Duration
  | request took => some took
  | _ => none

def isError : Update → Bool
  | error => true
  | _ => false

def codes? : Update → Option Histogram
  | merge codes => some codes
  | _ => none

def requests (us : List Update) : List Duration := us.filterMap took?

def errors (us : List Update) : Nat := us.countP isError

def merged (us : List Update) : List Histogram := us.filterMap codes?

variable (us vs : List Update) (hs : List Histogram)

@[simp] theorem requests_append : requests (us ++ vs) = requests us ++ requests vs :=
  List.filterMap_append
@[simp] theorem errors_append : errors (us ++ vs) = errors us + errors vs := List.countP_append
@[simp] theorem merged_append : merged (us ++ vs) = merged us ++ merged vs := List.filterMap_append

@[simp] theorem requests_map_merge : requests (hs.map merge) = [] := by
  simp [requests, List.filterMap_map, Function.comp_def, took?]
@[simp] theorem errors_map_merge : errors (hs.map merge) = 0 := by simp [errors, isError]
@[simp] theorem merged_map_merge : merged (hs.map merge) = hs := by
  simp [merged, List.filterMap_map, Function.comp_def, codes?]

end Update

/-- The microseconds of requests, each as many as 64 bits hold, together. -/
def microsOfAll (ds : List Duration) : Nat := ds.foldr (fun d n => min d.micros (2 ^ 64 - 1) + n) 0

def update (s : Statistics) : Update → Statistics
  | .request took => s.recordRequest took
  | .error => s.recordError
  | .merge codes => s.mergeCodes codes

def after (s : Statistics) (us : List Update) : Statistics := us.foldl update s

variable {s : Statistics} {us vs : List Update}

@[simp] theorem after_nil (s : Statistics) : s.after [] = s := rfl
@[simp] theorem after_cons (s : Statistics) (u : Update) (us : List Update) :
    s.after (u :: us) = (s.update u).after us := rfl

theorem microsOfAll_cons (d : Duration) (ds : List Duration) :
    UInt64.ofNat (microsOfAll (d :: ds)) = microsOf d + .ofNat (microsOfAll ds) :=
  UInt64.ofNat_add _ _

theorem counters_after (s : Statistics) (us : List Update) :
    (s.after us).counters =
      { requests := s.counters.requests + .ofNat (Update.requests us).length
        errors := s.counters.errors + .ofNat (Update.errors us)
        micros := s.counters.micros + .ofNat (microsOfAll (Update.requests us)) } := by
  induction us generalizing s with
  | nil => simp [Update.requests, Update.errors, microsOfAll]
  | cons u us ih =>
    rw [after_cons, ih]
    cases u with
    | request took =>
      have hrequests : Update.requests (.request took :: us) = took :: Update.requests us := rfl
      have herrors : Update.errors (.request took :: us) = Update.errors us := rfl
      rw [hrequests, herrors, microsOfAll_cons, List.length_cons, UInt64.ofNat_add]
      simp only [update, recordRequest, UInt64.add_assoc, Snapshot.mk.injEq, and_true]
      exact congrArg _ (UInt64.add_comm _ _)
    | error =>
      have hrequests : Update.requests (.error :: us) = Update.requests us := rfl
      have herrors : Update.errors (.error :: us) = Update.errors us + 1 :=
        List.countP_cons_of_pos rfl
      rw [hrequests, herrors, UInt64.ofNat_add]
      simp only [update, recordError, UInt64.add_assoc, Snapshot.mk.injEq, true_and, and_true]
      exact congrArg _ (UInt64.add_comm _ _)
    | merge codes => rfl

theorem ascending_after (hs : s.codes.Ascending) (us : List Update) :
    (s.after us).codes.Ascending := by
  induction us generalizing s with
  | nil => exact hs
  | cons u us ih =>
    refine ih ?_
    cases u with
    | request took => exact hs
    | error => exact hs
    | merge codes => exact hs.merge codes

theorem mem_statuses_after (c : Nat) (s : Statistics) (us : List Update) :
    c ∈ (s.after us).codes.statuses ↔
      c ∈ s.codes.statuses ∨ ∃ m ∈ Update.merged us, c ∈ m.statuses := by
  induction us generalizing s with
  | nil => simp [Update.merged]
  | cons u us ih =>
    rw [after_cons, ih]
    cases u with
    | request took => rfl
    | error => rfl
    | merge codes =>
      have hmerged : Update.merged (.merge codes :: us) = codes :: Update.merged us := rfl
      simp only [update, mergeCodes, Histogram.mem_statuses_merge, hmerged, List.mem_cons,
        exists_eq_or_imp, or_assoc]

theorem weight_after (c : Nat) (s : Statistics) (us : List Update) :
    (s.after us).codes.weight (· == c) =
      s.codes.weight (· == c) + .ofNat (Histogram.tallyAll c (Update.merged us)) := by
  induction us generalizing s with
  | nil => simp [Update.merged, Histogram.tallyAll]
  | cons u us ih =>
    rw [after_cons, ih]
    cases u with
    | request took => rfl
    | error => rfl
    | merge codes =>
      have hmerged : Histogram.tallyAll c (Update.merged (.merge codes :: us)) =
          codes.tally c + Histogram.tallyAll c (Update.merged us) := rfl
      simp only [update, mergeCodes, Histogram.weight_merge, hmerged, UInt64.ofNat_add,
        Histogram.weight_eq_tally, UInt64.add_assoc]

theorem microsOfAll_perm {ds es : List Duration} (h : ds.Perm es) :
    microsOfAll ds = microsOfAll es :=
  h.foldr_eq' (fun d _ e _ _ =>
    Nat.add_left_comm (min e.micros (2 ^ 64 - 1)) (min d.micros (2 ^ 64 - 1)) _) 0

theorem after_congr (hs : s.codes.Ascending)
    (hrequests : (Update.requests us).Perm (Update.requests vs))
    (herrors : Update.errors us = Update.errors vs)
    (hstatuses : ∀ c, (∃ m ∈ Update.merged us, c ∈ m.statuses) ↔
      ∃ m ∈ Update.merged vs, c ∈ m.statuses)
    (htally : ∀ c, Histogram.tallyAll c (Update.merged us) = Histogram.tallyAll c (Update.merged vs)) :
    s.after us = s.after vs := by
  have hcounters : (s.after us).counters = (s.after vs).counters := by
    rw [counters_after, counters_after, hrequests.length_eq, herrors, microsOfAll_perm hrequests]
  have hcodes : (s.after us).codes = (s.after vs).codes := by
    refine (ascending_after hs us).ext (ascending_after hs vs) (fun c => ?_) fun c => ?_
    · rw [mem_statuses_after, mem_statuses_after, hstatuses]
    · rw [weight_after, weight_after, htally]
  cases hus : s.after us
  cases hvs : s.after vs
  rw [hus, hvs] at hcounters hcodes
  exact congr (congrArg mk hcounters) hcodes

theorem after_perm (hs : s.codes.Ascending) (h : us.Perm vs) : s.after us = s.after vs := by
  have hmerged : (Update.merged us).Perm (Update.merged vs) := h.filterMap _
  refine after_congr hs (h.filterMap _) (h.countP_eq _) (fun c => ?_)
    (Histogram.tallyAll_perm hmerged)
  simp only [hmerged.mem_iff]

theorem after_merges (hs : s.codes.Ascending) (us : List Update) {ms ns : List Histogram}
    (hstatuses : ∀ c, (∃ m ∈ ms, c ∈ m.statuses) ↔ ∃ n ∈ ns, c ∈ n.statuses)
    (htally : ∀ c, Histogram.tallyAll c ms = Histogram.tallyAll c ns) :
    s.after (us ++ ms.map .merge) = s.after (us ++ ns.map .merge) := by
  refine after_congr hs (by simp) (by simp) (fun c => ?_) fun c => ?_
  · simp [or_and_right, exists_or, hstatuses]
  · rw [Update.merged_append, Update.merged_append, Update.merged_map_merge,
      Update.merged_map_merge, Histogram.tallyAll_append, Histogram.tallyAll_append, htally]

theorem after_parts (hs : s.codes.Ascending) {whole : Histogram} {parts : List Histogram}
    (hparts : whole.Splits parts) (h : vs.Perm (us ++ parts.map .merge)) :
    s.after vs = (s.after us).mergeCodes whole := by
  have hwhole : (s.after us).mergeCodes whole = s.after (us ++ [whole].map .merge) := by
    rw [after, after, List.foldl_append]
    rfl
  rw [hwhole, after_perm hs h]
  refine after_merges hs us (fun c => ?_) fun c => ?_
  · simp [hparts.statuses]
  · exact hparts.tally c

/-- Whatever workers do to the statistics that they share, and in whatever order it is done: the
counters are the numbers of requests and of errors and the microseconds together, all in 64 bits;
each status that is in some histogram that is merged stands once, in the order of the statuses, with
its counts together. A histogram may be merged as a whole, or in parts between which other things
happen. -/
theorem after_in_any_order (workers : List (List Update)) (h : us.Perm workers.flatten) :
    empty.after us = empty.after workers.flatten ∧
    (empty.after us).counters.requests.toNat =
      (Update.requests workers.flatten).length % 2 ^ 64 ∧
    (empty.after us).counters.errors.toNat = Update.errors workers.flatten % 2 ^ 64 ∧
    (empty.after us).counters.micros.toNat =
      microsOfAll (Update.requests workers.flatten) % 2 ^ 64 ∧
    ((empty.after us).codes.Pairwise fun a b => a.1 < b.1) ∧
    (∀ c, c ∈ (empty.after us).codes.statuses ↔
      ∃ m ∈ Update.merged workers.flatten, c ∈ m.statuses) ∧
    (∀ e ∈ (empty.after us).codes, Histogram.tallyAll e.1 (Update.merged workers.flatten) < 2 ^ 64 →
      e.2.toNat = Histogram.tallyAll e.1 (Update.merged workers.flatten)) ∧
    ∀ whole parts, Histogram.Splits whole parts → ∀ vs, vs.Perm (us ++ parts.map .merge) →
      empty.after vs = (empty.after us).mergeCodes whole := by
  have hempty : empty.codes.Ascending := List.Pairwise.nil
  have hall := after_perm hempty h
  have hcounters := counters_after empty workers.flatten
  rw [← hall] at hcounters
  refine ⟨hall, ?_, ?_, ?_, ascending_after hempty us, fun c => ?_, ?_, ?_⟩
  · rw [hcounters]
    simp [empty, Snapshot.zero]
  · rw [hcounters]
    simp [empty, Snapshot.zero]
  · rw [hcounters]
    simp [empty, Snapshot.zero]
  · rw [hall, mem_statuses_after]
    simp [empty, Histogram.statuses]
  · rintro ⟨c, n⟩ he hlt
    have hn := ((ascending_after hempty us).mem_iff.mp he).2
    rw [hall, weight_after] at hn
    rw [hn]
    simpa [empty] using hlt
  · exact fun whole parts hparts vs hvs => after_parts hempty hparts hvs

/-- What one worker does: its second request takes longer than 64 bits of microseconds. -/
def lasting : List Update :=
  [.request (.ofMillis 5), .request (.ofSecs (2 ^ 64 - 1)), .merge [(200, 2)]]

def failing : List Update := [.request (.ofMillis 4), .error, .merge [(503, 1), (200, 0)], .merge []]

/-- The two in turn. The microseconds wrap; the statuses come in their order, and those of a third
worker may come in two parts. -/
theorem failing_in_any_order :
    let us : List Update := [.request (.ofMillis 4), .request (.ofMillis 5), .error,
      .merge [(503, 1), (200, 0)], .request (.ofSecs (2 ^ 64 - 1)), .merge [], .merge [(200, 2)]]
    us.Perm [lasting, failing].flatten ∧
    Histogram.Splits [(200, 3), (404, 1)] [[(404, 1), (200, 1)], [(200, 2)]] ∧
    (empty.after us).counters.micros.toNat = 8999 ∧
    (empty.after us).codes = [(200, 2), (503, 1)] ∧
    empty.after (.merge [(200, 2)] :: us ++ [.merge [(404, 1), (200, 1)]]) =
      (empty.after us).mergeCodes [(200, 3), (404, 1)] := by
  intro us
  have hus : us.Perm [lasting, failing].flatten := by decide
  have hparts : Histogram.Splits [(200, 3), (404, 1)] [[(404, 1), (200, 1)], [(200, 2)]] := by
    constructor
    · intro c
      simp [Histogram.statuses]
      grind
    · intro c
      simp [Histogram.tallyAll, Histogram.tally]
      grind
  obtain ⟨hall, -, -, hmicros, -, -, -, hsplit⟩ := after_in_any_order [lasting, failing] hus
  refine ⟨hus, hparts, ?_, ?_, hsplit _ _ hparts _ ?_⟩
  · rw [hmicros]
    decide
  · rw [hall]
    decide
  · decide

end Statistics

end PhasedLoad
