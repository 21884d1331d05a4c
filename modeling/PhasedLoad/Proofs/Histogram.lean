import PhasedLoad.Statistics

/-! What a histogram weighs: the counts of some statuses together. Weights add up whatever the order
of the statuses; with the statuses in order, the weight of one status is its count. -/

namespace PhasedLoad

namespace Histogram

variable {p : Nat → Bool} {status : Nat} {n : UInt64} {h other : Histogram}

/-- The counts of the statuses with property `p` together. -/
def weight (p : Nat → Bool) : Histogram → UInt64
  | [] => 0
  | (s, k) :: rest => (if p s then k else 0) + weight p rest

@[simp] theorem weight_nil : weight p [] = 0 := rfl

theorem weight_add (p : Nat → Bool) (status : Nat) (n : UInt64) (h : Histogram) :
    weight p (add status n h) = weight p h + if p status then n else 0 := by
  induction h with
  | nil => simp [add, weight]
  | cons e rest ih =>
    obtain ⟨s, k⟩ := e
    unfold add
    split
    · simp only [weight]
      exact UInt64.add_comm _ _
    · split
      · next heq =>
        subst heq
        by_cases hp : p status
        · simp only [weight, hp, if_true]
          rw [UInt64.add_assoc, UInt64.add_comm n, ← UInt64.add_assoc]
        · simp [weight, hp]
      · simp only [weight, ih, UInt64.add_assoc]

theorem weight_merge (p : Nat → Bool) (h other : Histogram) :
    weight p (h.merge other) = weight p h + weight p other := by
  induction other generalizing h with
  | nil => simp [merge]
  | cons e rest ih =>
    have hrest := ih (add e.1 e.2 h)
    rw [weight_add, UInt64.add_assoc] at hrest
    exact hrest

/-- The statuses stand in their order, each once. -/
def Ascending (h : Histogram) : Prop := h.Pairwise fun a b => a.1 < b.1

theorem mem_add {e : Nat × UInt64} (he : e ∈ add status n h) : e.1 = status ∨ ∃ d ∈ h, d.1 = e.1 := by
  induction h with
  | nil =>
    obtain rfl := List.mem_singleton.mp he
    exact .inl rfl
  | cons d rest ih =>
    unfold add at he
    split at he
    · rcases List.mem_cons.mp he with rfl | he
      · exact .inl rfl
      · exact .inr ⟨e, he, rfl⟩
    · split at he
      · next heq =>
        rcases List.mem_cons.mp he with rfl | he
        · exact .inl heq.symm
        · exact .inr ⟨e, List.mem_cons_of_mem _ he, rfl⟩
      · rcases List.mem_cons.mp he with rfl | he
        · exact .inr ⟨_, List.mem_cons_self, rfl⟩
        · rcases ih he with hstatus | ⟨d', hd', heq⟩
          · exact .inl hstatus
          · exact .inr ⟨d', List.mem_cons_of_mem _ hd', heq⟩

theorem Ascending.add (hh : Ascending h) (status : Nat) (n : UInt64) :
    Ascending (add status n h) := by
  induction h with
  | nil => exact List.pairwise_singleton _ _
  | cons d rest ih =>
    obtain ⟨hd, hrest⟩ := List.pairwise_cons.mp hh
    unfold Histogram.add
    split
    · next hlt =>
      refine List.pairwise_cons.mpr ⟨?_, hh⟩
      intro e he
      rcases List.mem_cons.mp he with rfl | he
      · exact hlt
      · exact Nat.lt_trans hlt (hd e he)
    · next hge =>
      split
      · exact List.pairwise_cons.mpr ⟨hd, hrest⟩
      · next hne =>
        refine List.pairwise_cons.mpr ⟨?_, ih hrest⟩
        intro e he
        rcases mem_add he with hstatus | ⟨d', hd', heq⟩
        · exact hstatus ▸ Nat.lt_of_le_of_ne (Nat.le_of_not_lt hge) (Ne.symm hne)
        · exact heq ▸ hd d' hd'

theorem Ascending.merge (hh : Ascending h) (other : Histogram) : Ascending (h.merge other) := by
  induction other generalizing h with
  | nil => exact hh
  | cons e rest ih => exact ih (hh.add e.1 e.2)

theorem weight_eq_zero (hh : ∀ e ∈ h, p e.1 = false) : weight p h = 0 := by
  induction h with
  | nil => rfl
  | cons e rest ih =>
    simp only [List.forall_mem_cons] at hh
    simp [weight, hh.1, ih hh.2]

theorem Ascending.count_eq_weight (hh : Ascending h) (status : Nat) :
    count status h = weight (· == status) h := by
  induction h with
  | nil => rfl
  | cons e rest ih =>
    obtain ⟨he, hrest⟩ := List.pairwise_cons.mp hh
    obtain ⟨s, k⟩ := e
    unfold count weight
    split
    · next heq =>
      subst heq
      rw [weight_eq_zero fun d hd => by simpa using Nat.ne_of_gt (he d hd)]
      simp
    · next hne =>
      rw [ih hrest]
      simp [hne]

def total (h : Histogram) : UInt64 := weight (fun _ => true) h

end Histogram

end PhasedLoad
