import Mathlib.Data.Set.Card
import Mathlib.Order.Interval.Finset.Nat
import PhasedLoad.Proofs.Repeats

/-! Random turns are even. Of all words, equally many settle the pick on each phase with repeats
left, and a pick tells nothing but which phases these are. -/

namespace PhasedLoad

namespace Random

variable {n i : Nat} {word : UInt64}

/-- The first word that stands for choice `i` among `n`. -/
def firstWord (n i : Nat) : Nat := (i * 2 ^ 64 + (n - 1)) / n

theorem firstWord_le_iff (hn : 0 < n) {w : Nat} : firstWord n i ≤ w ↔ i * 2 ^ 64 ≤ w * n := by
  rw [firstWord, Nat.div_le_iff_le_mul_add_pred hn, Nat.mul_comm n w]
  omega

theorem mul_two_pow_leadingZeros_le (hn : n < 2 ^ 64) : n * 2 ^ leadingZeros n ≤ 2 ^ 64 := by
  by_cases hzero : n = 0
  · simp [hzero]
  · have hlog : n.log2 < 64 := (Nat.log2_lt hzero).mpr hn
    calc n * 2 ^ leadingZeros n ≤ 2 ^ (n.log2 + 1) * 2 ^ leadingZeros n :=
          Nat.mul_le_mul_right _ (Nat.le_of_lt Nat.lt_log2_self)
      _ = 2 ^ (n.log2 + 1 + leadingZeros n) := (Nat.pow_add ..).symm
      _ = 2 ^ 64 := by
        rw [leadingZeros, if_neg hzero]
        congr 1
        omega

/-- The words for a choice follow one another, as many for each choice. -/
theorem choiceOf?_eq_some_iff (hn : 0 < n) (hfits : n < 2 ^ 64) :
    choiceOf? n word = some i ↔
      firstWord n i ≤ word.toNat ∧ word.toNat < firstWord n i + 2 ^ leadingZeros n := by
  have hstretch := mul_two_pow_leadingZeros_le hfits
  have hpos : 0 < n * 2 ^ leadingZeros n := Nat.mul_pos hn (Nat.two_pow_pos _)
  have hproduct : choiceOf? n word = some i ↔
      i * 2 ^ 64 ≤ word.toNat * n ∧ word.toNat * n < i * 2 ^ 64 + n * 2 ^ leadingZeros n := by
    have hsplit := Nat.div_add_mod (word.toNat * n) (2 ^ 64)
    have hmod := Nat.mod_lt (word.toNat * n) (Nat.two_pow_pos 64)
    unfold choiceOf? zone
    dsimp only
    split
    · rw [Option.some.injEq]
      omega
    · simp only [reduceCtorEq, false_iff]
      omega
  rw [hproduct, firstWord_le_iff hn]
  refine and_congr_right fun _ => ?_
  by_cases hshort : word.toNat < 2 ^ leadingZeros n
  · have hproduct_lt : n * word.toNat < n * 2 ^ leadingZeros n :=
      Nat.mul_lt_mul_of_pos_left hshort hn
    rw [Nat.mul_comm word.toNat n]
    omega
  · have hback := firstWord_le_iff (i := i) (w := word.toNat - 2 ^ leadingZeros n) hn
    rw [Nat.sub_mul, Nat.mul_comm (2 ^ leadingZeros n) n] at hback
    have hle : n * 2 ^ leadingZeros n ≤ word.toNat * n := by
      rw [Nat.mul_comm word.toNat n]
      exact Nat.mul_le_mul_left n (Nat.le_of_not_lt hshort)
    omega

theorem firstWord_add_le (hfits : n < 2 ^ 64) (hi : i < n) :
    firstWord n i + 2 ^ leadingZeros n ≤ 2 ^ 64 := by
  have hpos : 0 < n := Nat.zero_lt_of_lt hi
  have hstretch := mul_two_pow_leadingZeros_le hfits
  have hshare : 2 ^ leadingZeros n ≤ n * 2 ^ leadingZeros n := Nat.le_mul_of_pos_left _ hpos
  have hnext : i * 2 ^ 64 + 2 ^ 64 ≤ 2 ^ 64 * n := by
    rw [← Nat.succ_mul, Nat.mul_comm (2 ^ 64) n]
    exact Nat.mul_le_mul_right _ hi
  have hfirst : firstWord n i ≤ 2 ^ 64 - 2 ^ leadingZeros n := by
    rw [firstWord_le_iff hpos, Nat.sub_mul, Nat.mul_comm (2 ^ leadingZeros n) n]
    exact Nat.le_sub_of_add_le (Nat.le_trans (Nat.add_le_add_left hstretch _) hnext)
  omega

theorem ncard_words {a b : Nat} (hb : b ≤ 2 ^ 64) :
    {word : UInt64 | a ≤ word.toNat ∧ word.toNat < b}.ncard = b - a := by
  have himage : {word : UInt64 | a ≤ word.toNat ∧ word.toNat < b} = UInt64.ofNat '' Set.Ico a b := by
    ext word
    constructor
    · exact fun h => ⟨word.toNat, h, UInt64.ofNat_toNat⟩
    · rintro ⟨w, hw, rfl⟩
      have hlt : w < 2 ^ 64 := Nat.lt_of_lt_of_le hw.2 hb
      simpa [UInt64.toNat_ofNat_of_lt' hlt] using hw
  have hinjective : Set.InjOn UInt64.ofNat (Set.Ico a b) := by
    intro v hv w hw h
    have heq := congrArg UInt64.toNat h
    rwa [UInt64.toNat_ofNat_of_lt' (Nat.lt_of_lt_of_le hv.2 hb),
      UInt64.toNat_ofNat_of_lt' (Nat.lt_of_lt_of_le hw.2 hb)] at heq
  rw [himage, hinjective.ncard_image, ← Finset.coe_Ico, Set.ncard_coe_finset, Nat.card_Ico]

/-- Each choice stands for equally many words. -/
theorem ncard_choiceOf? (hfits : n < 2 ^ 64) (hi : i < n) :
    {word : UInt64 | choiceOf? n word = some i}.ncard = 2 ^ leadingZeros n := by
  have hwords : {word : UInt64 | choiceOf? n word = some i} =
      {word | firstWord n i ≤ word.toNat ∧ word.toNat < firstWord n i + 2 ^ leadingZeros n} :=
    Set.ext fun _ => choiceOf?_eq_some_iff (by omega) hfits
  rw [hwords, ncard_words (firstWord_add_le hfits hi), Nat.add_sub_cancel_left]

theorem finite_words (words : Set UInt64) : words.Finite := by
  have : Finite UInt64 := Finite.of_injective UInt64.toFin fun _ _ => UInt64.toFin_inj.mp
  exact words.toFinite

theorem card_word : Nat.card UInt64 = 2 ^ 64 := by
  have hall := ncard_words (a := 0) (Nat.le_refl (2 ^ 64))
  have huniv : {word : UInt64 | 0 ≤ word.toNat ∧ word.toNat < 2 ^ 64} = Set.univ :=
    Set.eq_univ_of_forall fun word => ⟨Nat.zero_le _, word.toNat_lt⟩
  rwa [huniv, Set.ncard_univ] at hall

theorem ncard_choices (hfits : n < 2 ^ 64) {m : Nat} (hm : m ≤ n) :
    {word : UInt64 | ∃ i < m, choiceOf? n word = some i}.ncard = m * 2 ^ leadingZeros n := by
  induction m with
  | zero => simp
  | succ m ih =>
    have hsplit : {word : UInt64 | ∃ i < m + 1, choiceOf? n word = some i} =
        {word | ∃ i < m, choiceOf? n word = some i} ∪ {word | choiceOf? n word = some m} := by
      ext word
      simp only [Set.mem_ofPred_eq, Set.mem_union, Nat.lt_succ_iff_lt_or_eq, or_and_right, exists_or,
        exists_eq_left]
    have hdisjoint : Disjoint {word : UInt64 | ∃ i < m, choiceOf? n word = some i}
        {word | choiceOf? n word = some m} := by
      rw [Set.disjoint_left]
      rintro word ⟨i, hi, hword⟩ hlast
      rw [Set.mem_ofPred_eq, hword, Option.some.injEq] at hlast
      omega
    rw [hsplit, Set.ncard_union_eq hdisjoint (finite_words _) (finite_words _),
      ih (Nat.le_of_succ_le hm), ncard_choiceOf? hfits hm, Nat.succ_mul]

theorem ncard_refused (hn : 0 < n) (hfits : n < 2 ^ 64) :
    {word : UInt64 | choiceOf? n word = none}.ncard = 2 ^ 64 - n * 2 ^ leadingZeros n := by
  have hothers : {word : UInt64 | choiceOf? n word = none} =
      {word | ∃ i < n, choiceOf? n word = some i}ᶜ := by
    ext word
    simp only [Set.mem_ofPred_eq, Set.mem_compl_iff, Option.eq_none_iff_forall_ne_some, not_exists,
      not_and]
    exact ⟨fun h i _ => h i, fun h i hi => h i (choiceOf?_lt hn hi) hi⟩
  rw [hothers, Set.ncard_compl _ (finite_words _) (finite_words _), card_word,
    ncard_choices hfits (Nat.le_refl n)]

namespace Chooser

variable {c : Chooser} {tries j : Nat}

theorem choose_of_some (h : choiceOf? n (c.words c.used) = some i) :
    c.choose n (tries + 1) = (i, c.next) := by
  rw [choose, h]

theorem choose_of_none (h : choiceOf? n (c.words c.used) = none) :
    c.choose n (tries + 1) = c.next.choose n tries := by
  rw [choose, h]

theorem used_lt_choose (n tries : Nat) (c : Chooser) : c.used < (c.choose n tries).2.used := by
  induction tries generalizing c with
  | zero => exact Nat.lt_succ_self _
  | succ tries ih =>
    cases h : choiceOf? n (c.words c.used) with
    | some i =>
      rw [choose_of_some h]
      exact Nat.lt_succ_self _
    | none =>
      rw [choose_of_none h]
      exact Nat.lt_of_succ_lt (ih c.next)

theorem choose_of_first (htries : j < tries)
    (hrefused : ∀ m < j, choiceOf? n (c.words (c.used + m)) = none)
    (h : choiceOf? n (c.words (c.used + j)) = some i) :
    c.choose n tries = (i, { c with used := c.used + j + 1 }) := by
  induction tries generalizing c j with
  | zero => cases htries
  | succ tries ih =>
    cases j with
    | zero => exact choose_of_some h
    | succ j =>
      have hshift : ∀ m, c.next.used + m = c.used + (m + 1) := fun m => by
        simp only [next]
        omega
      rw [choose_of_none (hrefused 0 (Nat.zero_lt_succ j)),
        ih (Nat.lt_of_succ_lt_succ htries) (c := c.next) (j := j)]
      · rw [hshift]
        rfl
      · intro m hm
        rw [hshift]
        exact hrefused (m + 1) (Nat.succ_lt_succ hm)
      · rw [hshift]
        exact h

end Chooser

end Random

namespace Repeats

variable {r r' : Repeats} {e e' : Executions} {i : Nat}

theorem mem_eligible : i ∈ r.eligible e ↔ r.hasBudget e i = true := by
  rw [eligible, List.mem_filter, List.mem_range]
  exact ⟨And.right, fun h => ⟨lt_length_of_hasBudget h, h⟩⟩

theorem pairwise_eligible (r : Repeats) (e : Executions) : (r.eligible e).Pairwise (· < ·) :=
  List.pairwise_lt_range.filter _

theorem nodup_eligible (r : Repeats) (e : Executions) : (r.eligible e).Nodup :=
  (r.pairwise_eligible e).imp Nat.ne_of_lt

theorem eligible_congr (h : ∀ i, r.hasBudget e i = r'.hasBudget e' i) :
    r.eligible e = r'.eligible e' := by
  have hperm : (r.eligible e).Perm (r'.eligible e') := by
    refine (List.perm_ext_iff_of_nodup (r.nodup_eligible e) (r'.nodup_eligible e')).mpr fun i => ?_
    rw [mem_eligible, mem_eligible, h]
  exact hperm.eq_of_pairwise (fun a b _ _ hab hba => absurd hab (Nat.lt_asymm hba))
    (r.pairwise_eligible e) (r'.pairwise_eligible e')

theorem length_eligible_le (r : Repeats) (e : Executions) :
    (r.eligible e).length ≤ e.length := by
  have hle := List.length_filter_le (r.hasBudget e) (List.range e.length)
  rwa [List.length_range] at hle

theorem length_eligible_pos (h : r.hasBudget e i = true) : 0 < (r.eligible e).length :=
  List.length_pos_of_mem (mem_eligible.mpr h)

end Repeats

namespace Selector

open PhasedLoad.Random

variable {r : Repeats} {e : Executions} {i : Nat} {word : UInt64}

/-- A selector in random turns picks phase `i` if `word` comes next, and takes no further word. -/
def Settles (r : Repeats) (e : Executions) (word : UInt64) (i : Nat) : Prop :=
  ∀ (chooser : Chooser) (current : Nat), chooser.words chooser.used = word →
    (random chooser).nextPhase current r e = (some i, random chooser.next)

theorem nextPhase_random (hpos : 0 < (r.eligible e).length) (chooser : Chooser) (current : Nat) :
    (random chooser).nextPhase current r e =
      ((r.eligible e)[(chooser.choose (r.eligible e).length Chooser.patience).1]?,
        random (chooser.choose (r.eligible e).length Chooser.patience).2) := by
  have hsome : (r.eligible e).isEmpty = false := by
    rw [List.isEmpty_eq_false_iff]
    exact List.length_pos_iff.mp hpos
  simp [nextPhase, hsome]

theorem settles_iff (hpos : 0 < (r.eligible e).length) :
    Settles r e word i ↔
      ∃ j, choiceOf? (r.eligible e).length word = some j ∧ (r.eligible e)[j]? = some i := by
  constructor
  · intro h
    have hpick := h ⟨fun _ => word, 0⟩ 0 rfl
    rw [nextPhase_random hpos, Chooser.patience] at hpick
    cases hchoice : choiceOf? (r.eligible e).length word with
    | some j =>
      rw [Chooser.choose_of_some hchoice] at hpick
      exact ⟨j, rfl, congrArg Prod.fst hpick⟩
    | none =>
      -- A word that is refused is not the last one taken.
      rw [Chooser.choose_of_none hchoice] at hpick
      have hused := congrArg Prod.snd hpick
      rw [random.injEq] at hused
      have hless := Chooser.used_lt_choose (r.eligible e).length 999 (Chooser.next ⟨fun _ => word, 0⟩)
      rw [hused] at hless
      exact absurd hless (Nat.lt_irrefl _)
  · rintro ⟨j, hchoice, hj⟩ chooser current hword
    rw [nextPhase_random hpos, Chooser.patience, Chooser.choose_of_some (hword ▸ hchoice), hj]

theorem settles_iff_of_getElem? {j : Nat} (hj : (r.eligible e)[j]? = some i) :
    Settles r e word i ↔ choiceOf? (r.eligible e).length word = some j := by
  have hlt : j < (r.eligible e).length := (List.getElem?_eq_some_iff.mp hj).1
  rw [settles_iff (Nat.zero_lt_of_lt hlt)]
  constructor
  · rintro ⟨k, hchoice, hk⟩
    rw [(List.getElem?_inj hlt (r.nodup_eligible e)).mp (hj.trans hk.symm), hchoice]
  · exact fun hchoice => ⟨j, hchoice, hj⟩

theorem not_settles_iff (hpos : 0 < (r.eligible e).length) :
    (∀ i, ¬ Settles r e word i) ↔ choiceOf? (r.eligible e).length word = none := by
  simp only [settles_iff hpos, not_exists, not_and]
  constructor
  · intro h
    rw [Option.eq_none_iff_forall_ne_some]
    intro j hchoice
    have hlt := choiceOf?_lt hpos hchoice
    exact h _ j hchoice (List.getElem?_eq_getElem hlt)
  · intro h i j hchoice
    rw [h] at hchoice
    cases hchoice

/-- Some phases have repeats left. A random turn picks one of them. A word settles the pick on a
phase if the low half of its product with their number is within bounds and the high half is the
place of the phase among them. That holds of equally many words for each phase, and all other words
are refused. The first word that is not refused settles the pick, as far as the patience of the
chooser goes. The pick and the words that it takes depend on nothing but which phases have repeats
left. -/
theorem nextPhase_random_even (hleft : ∃ i, r.hasBudget e i = true) (hfits : e.length < 2 ^ 64) :
    let phases := r.eligible e
    let share := 2 ^ leadingZeros phases.length
    (∀ i, i ∈ phases ↔ r.hasBudget e i = true) ∧
    (∀ chooser current, ∃ i ∈ phases, ((random chooser).nextPhase current r e).1 = some i) ∧
    (∀ word i, Settles r e word i ↔
      word.toNat * phases.length % 2 ^ 64 ≤ phases.length * share - 1 ∧
        phases[word.toNat * phases.length / 2 ^ 64]? = some i) ∧
    (∀ i ∈ phases, {word | Settles r e word i}.ncard = share) ∧
    {word | ∀ i, ¬ Settles r e word i}.ncard = 2 ^ 64 - phases.length * share ∧
    (∀ (chooser : Chooser) (current i j : Nat), j < Chooser.patience →
      (∀ m < j, ∀ k, ¬ Settles r e (chooser.words (chooser.used + m)) k) →
      Settles r e (chooser.words (chooser.used + j)) i →
      (random chooser).nextPhase current r e =
        (some i, random { chooser with used := chooser.used + j + 1 })) ∧
    ∀ r' e', (∀ i, r'.hasBudget e' i = r.hasBudget e i) → ∀ chooser current current',
      (random chooser).nextPhase current' r' e' = (random chooser).nextPhase current r e := by
  intro phases share
  have hpos : 0 < phases.length := by
    obtain ⟨i, hi⟩ := hleft
    exact Repeats.length_eligible_pos hi
  have hwidth : phases.length < 2 ^ 64 := Nat.lt_of_le_of_lt (r.length_eligible_le e) hfits
  refine ⟨fun i => Repeats.mem_eligible, fun chooser current => ?_, fun word i => ?_,
    fun i hi => ?_, ?_, fun chooser current i j hj hrefused hsettles => ?_,
    fun r' e' hsame chooser current current' => ?_⟩
  · have hlt := Chooser.choose_lt hpos Chooser.patience chooser
    rw [nextPhase_random hpos]
    exact ⟨_, List.getElem_mem hlt, List.getElem?_eq_getElem hlt⟩
  · rw [settles_iff hpos]
    unfold choiceOf? zone
    simp only [Option.ite_none_right_eq_some, Option.some.injEq, and_assoc, exists_and_left,
      exists_eq_left']
    rfl
  · -- A phase stands once in the list, so its words are those of one choice.
    obtain ⟨j, hlt, hj⟩ := List.mem_iff_getElem.mp hi
    have hwords : {word | Settles r e word i} = {word | choiceOf? phases.length word = some j} :=
      Set.ext fun _ => settles_iff_of_getElem? (hj ▸ List.getElem?_eq_getElem hlt)
    rw [hwords]
    exact ncard_choiceOf? hwidth hlt
  · have hwords : {word | ∀ i, ¬ Settles r e word i} =
        {word | choiceOf? phases.length word = none} := Set.ext fun _ => not_settles_iff hpos
    rw [hwords]
    exact ncard_refused hpos hwidth
  · obtain ⟨k, hchoice, hk⟩ := (settles_iff hpos).mp hsettles
    rw [nextPhase_random hpos, Chooser.choose_of_first hj
      (fun m hm => (not_settles_iff hpos).mp (hrefused m hm)) hchoice, hk]
  · have heligible : r'.eligible e' = r.eligible e := Repeats.eligible_congr hsame
    rw [nextPhase_random hpos, nextPhase_random (by rw [heligible]; exact hpos), heligible]

/-- Two words, the first of which is refused for a choice among two. -/
def refusedFirst : Chooser :=
  ⟨fun k => if k = 0 then 0x4000000000000000 else 0x8000000000000000, 0⟩

/-- Two of three phases have repeats left: a quarter of all words settles the pick on each of them,
and the second word does. With other repeats left of the same phases the pick is the same. -/
theorem refusedFirst_even :
    (∃ i, (Repeats.uniform 2).hasBudget [2, 0, 1] i = true) ∧ [2, 0, 1].length < 2 ^ 64 ∧
    {word | Settles (.uniform 2) [2, 0, 1] word 2}.ncard = 2 ^ 62 ∧
    (random refusedFirst).nextPhase 0 (.uniform 2) [2, 0, 1] =
      (some 2, random { refusedFirst with used := 2 }) ∧
    (random refusedFirst).nextPhase 1 (.uniform 9) [9, 8, 0] =
      (some 2, random { refusedFirst with used := 2 }) := by
  have hleft : ∃ i, (Repeats.uniform 2).hasBudget [2, 0, 1] i = true := ⟨1, rfl⟩
  have hfits : [2, 0, 1].length < 2 ^ 64 := by simp
  obtain ⟨-, -, hrule, hcount, -, hfirst, hsame⟩ := nextPhase_random_even hleft hfits
  have hrefused : ∀ k, ¬ Settles (.uniform 2) [2, 0, 1] 0x4000000000000000 k := fun k hk =>
    absurd ((hrule _ k).mp hk).1 (by decide +kernel)
  have hsettles : Settles (.uniform 2) [2, 0, 1] 0x8000000000000000 2 :=
    (hrule _ 2).mpr (by decide +kernel)
  have hpick := hfirst refusedFirst 0 2 1 (by decide)
    (fun m hm k => by obtain rfl := Nat.lt_one_iff.mp hm; exact hrefused k) hsettles
  have hother := hsame (.uniform 9) [9, 8, 0] (fun i => by
    match i with
    | 0 | 1 | 2 | i + 3 => rfl) refusedFirst 0 1
  exact ⟨hleft, hfits, hcount 2 (by decide), hpick, hother.trans hpick⟩

end Selector

end PhasedLoad
