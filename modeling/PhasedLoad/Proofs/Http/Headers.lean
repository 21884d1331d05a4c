import Mathlib
import PhasedLoad.Http.Request

/-! Headers that are set one after the other. Of each name the last value stays, in the place where
it was given, and a header that was there before stays as long as none of its name is set. -/

namespace PhasedLoad

namespace Text

variable {a b : String}

theorem toLower_cases (c : Char) : c.toLower = c ∨
    (65 ≤ c.toNat ∧ c.toNat ≤ 90) ∧ c.toLower.toNat = c.toNat + 32 := by
  by_cases hupper : 65 ≤ c.toNat ∧ c.toNat ≤ 90
  · have hletter : c.val ≥ 'A'.val ∧ c.val ≤ 'Z'.val := hupper
    have hmove : c.toLower.val = c.val + 32 := congrArg Char.val (dif_pos hletter)
    have hlt : c.val.toNat + 32 < 2 ^ 32 := by
      have : c.val.toNat ≤ 90 := hupper.2
      omega
    have hnat := congrArg UInt32.toNat hmove
    rw [UInt32.toNat_add] at hnat
    exact .inr ⟨hupper, hnat.trans (Nat.mod_eq_of_lt hlt)⟩
  · exact .inl (dif_neg hupper)

@[simp] theorem lower_ofList_lower (s : String) : lower (String.ofList (lower s)) = lower s := by
  simp [lower]

theorem utf8Size_toLower (c : Char) : c.toLower.utf8Size = c.utf8Size := by
  have hascii : ∀ d : Char, d.toNat ≤ 127 → d.utf8Size = 1 := fun d h => if_pos h
  rcases toLower_cases c with hsame | ⟨hupper, hmove⟩
  · rw [hsame]
  · rw [hascii c (by omega), hascii c.toLower (by omega)]

theorem sameLetters_comm (a b : String) : sameLetters a b = sameLetters b a :=
  Bool.beq_comm

theorem sameLetters_congr (h : sameLetters a b = true) (c : String) :
    sameLetters a c = sameLetters b c := by
  rw [sameLetters, sameLetters, sameLetters_iff.mp h]

theorem utf8ByteSize_eq_of_sameLetters (h : sameLetters a b = true) :
    a.utf8ByteSize = b.utf8ByteSize := by
  have hcons : ∀ (c : Char) (cs : List Char), (String.ofList (c :: cs)).utf8ByteSize =
      c.utf8Size + (String.ofList cs).utf8ByteSize := by
    intro c cs
    rw [← List.singleton_append, String.ofList_append, String.utf8ByteSize_append,
      ← String.singleton_eq_ofList, String.utf8ByteSize_singleton]
  have hlower : ∀ cs : List Char, (String.ofList (cs.map Char.toLower)).utf8ByteSize =
      (String.ofList cs).utf8ByteSize := by
    intro cs
    induction cs with
    | nil => rfl
    | cons c cs ih => rw [List.map_cons, hcons, hcons, utf8Size_toLower, ih]
  have ha := hlower a.toList
  have hb := hlower b.toList
  rw [String.ofList_toList] at ha hb
  rw [← ha, ← hb]
  exact congrArg (fun cs => (String.ofList cs).utf8ByteSize) (sameLetters_iff.mp h)

end Text

namespace Http

open Text

theorem isNameChar_toLower (c : Char) : isNameChar c.toLower = isNameChar c := by
  have hletter : ∀ d : Char, (65 ≤ d.toNat ∧ d.toNat ≤ 90) ∨ (97 ≤ d.toNat ∧ d.toNat ≤ 122) →
      isNameChar d = true := by
    intro d h
    have halpha : d.isAlpha = true := (Bool.or_eq_true _ _).mpr (h.imp
      (fun h => decide_eq_true h) (fun h => (Bool.and_eq_true _ _).mpr
        ⟨decide_eq_true h.1, decide_eq_true h.2⟩))
    have halphanum : d.isAlphanum = true := (Bool.or_eq_true _ _).mpr (.inl halpha)
    rw [isNameChar, halphanum, Bool.true_or]
  rcases toLower_cases c with hsame | ⟨hupper, hmove⟩
  · rw [hsame]
  · rw [hletter c (.inl hupper), hletter c.toLower (.inr (by omega))]

theorem isSome_headerName?_congr {a b : String} (h : sameLetters a b = true) :
    (headerName? a).isSome = (headerName? b).isSome := by
  have hsome : ∀ s : String, (headerName? s).isSome = true ↔
      (lower s).all isNameChar = true ∧ lower s ≠ [] ∧ s.utf8ByteSize ≤ maxNameBytes := by
    intro s
    simp only [headerName?, lower, List.all_map, Function.comp_def, isNameChar_toLower]
    split <;> simp_all
  rw [Bool.eq_iff_iff, hsome, hsome, utf8ByteSize_eq_of_sameLetters h, sameLetters_iff.mp h]

namespace Headers

variable {hs more : Headers} {h : String × String} {name value : String}

def named (hs : Headers) (name : String) : List String :=
  (hs.filter fun h => sameLetters h.1 name).map (·.2)

def last? (hs : Headers) (name : String) : Option String := (hs.named name).getLast?

/-- Names differ by more than the case of their letters. -/
def Distinct (hs : Headers) : Prop := hs.Pairwise fun a b => sameLetters a.1 b.1 = false

/-- The headers without those that a later one of the same name replaces. -/
def lasting : Headers → Headers
  | [] => []
  | h :: hs => if has hs h.1 then lasting hs else h :: lasting hs

def lowered (h : String × String) : String × String := (String.ofList (lower h.1), h.2)

/-! Names. -/

theorem has_cons (h : String × String) (hs : Headers) (name : String) :
    has (h :: hs) name = (sameLetters h.1 name || hs.has name) := List.any_cons

theorem has_congr {a b : String} (hs : Headers) (hsame : sameLetters a b = true) :
    hs.has a = hs.has b := by
  unfold has
  congr 1
  funext h
  rw [sameLetters_comm h.1, sameLetters_congr hsame, sameLetters_comm]

theorem has_lasting (hs : Headers) (name : String) : hs.lasting.has name = hs.has name := by
  induction hs with
  | nil => rfl
  | cons h hs ih =>
    rw [lasting, has_cons]
    by_cases hlater : has hs h.1 = true
    · rw [if_pos hlater, ih]
      by_cases hsame : sameLetters h.1 name = true
      · rw [has_congr hs hsame] at hlater
        rw [hlater, Bool.or_true]
      · rw [Bool.eq_false_iff.mpr hsame, Bool.false_or]
    · rw [if_neg hlater, has_cons, ih]

theorem lasting_sublist (hs : Headers) : hs.lasting.Sublist hs := by
  induction hs with
  | nil => exact List.Sublist.slnil
  | cons h hs ih =>
    rw [lasting]
    split
    · exact ih.cons h
    · exact ih.cons_cons h

theorem has_of_mem (hmem : h ∈ hs) : hs.has h.1 = true :=
  List.any_eq_true.mpr ⟨h, hmem, sameLetters_refl h.1⟩

/-- What is there stays unless its name is set, and of what is set the last of each name. -/
theorem setAll_eq (hs more : Headers) :
    hs.setAll more = hs.filter (fun h => !more.has h.1) ++ more.lasting := by
  induction more generalizing hs with
  | nil => simp [setAll, has, lasting]
  | cons h more ih =>
    have hset : hs.setAll (h :: more) = (hs.set h.1 h.2).setAll more := rfl
    have hstays : (hs.filter fun x => !sameLetters x.1 h.1).filter (fun x => !has more x.1) =
        hs.filter fun x => !has (h :: more) x.1 := by
      rw [List.filter_filter]
      congr 1
      funext x
      rw [has_cons, sameLetters_comm h.1, Bool.not_or, Bool.and_comm]
    rw [hset, ih, set, List.filter_append, hstays, List.append_assoc, lasting]
    by_cases hlater : has more h.1 = true <;> simp [hlater]

/-! Values. -/

theorem named_append (hs more : Headers) (name : String) :
    (hs ++ more : Headers).named name = hs.named name ++ more.named name := by
  simp [named]

theorem named_cons (h : String × String) (hs : Headers) (name : String) :
    named (h :: hs) name = (if sameLetters h.1 name then [h.2] else []) ++ hs.named name := by
  unfold named
  rw [List.filter_cons]
  split <;> rfl

theorem isSome_last? (hs : Headers) (name : String) : (hs.last? name).isSome = hs.has name := by
  rw [Bool.eq_iff_iff, last?, List.getLast?_isSome]
  simp [named, has]

theorem named_lasting (hs : Headers) (name : String) :
    hs.lasting.named name = (hs.last? name).toList := by
  induction hs with
  | nil => rfl
  | cons h hs ih =>
    have hlast : last? (h :: hs) name =
        (last? hs name).or (if sameLetters h.1 name then some h.2 else none) := by
      rw [last?, named_cons, List.getLast?_append]
      split <;> rfl
    rw [lasting, hlast]
    by_cases hsame : sameLetters h.1 name = true
    · by_cases hlater : has hs h.1 = true
      · rw [if_pos hlater, ih]
        rw [has_congr hs hsame, ← isSome_last?] at hlater
        rw [Option.or_of_isSome hlater]
      · rw [if_neg hlater, named_cons, ih, if_pos hsame, if_pos hsame]
        rw [has_congr hs hsame, ← isSome_last?, Option.not_isSome_iff_eq_none] at hlater
        rw [hlater]
        rfl
    · rw [if_neg hsame, Option.or_none]
      split
      · exact ih
      · rw [named_cons, if_neg hsame, ih]
        rfl

theorem named_filter (hs more : Headers) (name : String) :
    named (hs.filter fun h => !more.has h.1) name =
      if more.has name then [] else hs.named name := by
  unfold named
  rw [List.filter_filter]
  by_cases hmore : more.has name = true
  · rw [if_pos hmore, List.map_eq_nil_iff, List.filter_eq_nil_iff]
    intro h _ hboth
    rw [Bool.and_eq_true] at hboth
    rw [has_congr more hboth.1, hmore] at hboth
    exact absurd hboth.2 (by decide)
  · rw [if_neg hmore]
    congr 1
    refine List.filter_congr fun h _ => ?_
    by_cases hsame : sameLetters h.1 name = true
    · rw [has_congr more hsame, Bool.eq_false_iff.mpr hmore, hsame]
      rfl
    · rw [Bool.eq_false_iff.mpr hsame, Bool.false_and]

theorem named_setAll (hs more : Headers) (name : String) :
    (hs.setAll more).named name = ((more.last? name).map fun v => [v]).getD (hs.named name) := by
  rw [setAll_eq, named_append, named_filter, named_lasting]
  rw [← isSome_last?]
  cases more.last? name <;> simp

theorem last?_setAll (hs more : Headers) (name : String) :
    (hs.setAll more).last? name = (more.last? name).or (hs.last? name) := by
  rw [last?, named_setAll]
  cases more.last? name <;> rfl

theorem has_setAll (hs more : Headers) (name : String) :
    (hs.setAll more).has name = (hs.has name || more.has name) := by
  rw [← isSome_last?, last?_setAll, Option.isSome_or, isSome_last?, isSome_last?, Bool.or_comm]

/-! Names that are told apart. -/

theorem distinct_lasting (hs : Headers) : hs.lasting.Distinct := by
  induction hs with
  | nil => exact List.Pairwise.nil
  | cons h hs ih =>
    rw [lasting]
    split
    · exact ih
    · next hlater =>
      refine List.Pairwise.cons (fun x hx => ?_) ih
      rw [← has_lasting, Bool.not_eq_true, has, List.any_eq_false] at hlater
      rw [sameLetters_comm]
      exact Bool.eq_false_iff.mpr (hlater x hx)

theorem Distinct.setAll (hd : hs.Distinct) (more : Headers) : (hs.setAll more).Distinct := by
  rw [setAll_eq, Distinct, List.pairwise_append]
  refine ⟨hd.filter _, distinct_lasting more, fun x hx y hy => ?_⟩
  have hnone := (List.mem_filter.mp hx).2
  rw [Bool.not_eq_true', ← has_lasting, has, List.any_eq_false] at hnone
  rw [sameLetters_comm]
  exact Bool.eq_false_iff.mpr (hnone y hy)

theorem filter_setAll (hs more : Headers) :
    (hs.setAll more).filter (fun h => more.has h.1) = more.lasting := by
  rw [setAll_eq, List.filter_append, List.filter_filter, List.filter_eq_nil_iff.mpr (by simp),
    List.nil_append, List.filter_eq_self]
  intro h hh
  rw [← has_lasting]
  exact has_of_mem hh

/-! Names in lower case. -/

theorem lowered_of_lower (h : lower name = name.toList) (value : String) :
    lowered (name, value) = (name, value) := by
  rw [lowered, h, String.ofList_toList]

theorem sameLetters_lowered (h : String × String) (name : String) :
    sameLetters (lowered h).1 name = sameLetters h.1 name := by
  simp [sameLetters, lowered]

theorem named_map_lowered (hs : Headers) (name : String) :
    named (hs.map lowered) name = hs.named name := by
  simp only [named, List.filter_map, Function.comp_def, sameLetters_lowered, List.map_map]
  rfl

theorem Distinct.map_lowered (hd : hs.Distinct) : Distinct (hs.map lowered) := by
  refine List.pairwise_map.mpr (hd.imp fun {a b} hab => ?_)
  rw [sameLetters_lowered, sameLetters_comm, sameLetters_lowered, sameLetters_comm]
  exact hab

theorem filter_map_lowered (hs more : Headers) :
    (hs.map lowered).filter (fun h => more.has h.1) =
      (hs.filter fun h => more.has h.1).map lowered := by
  rw [List.filter_map]
  congr 1
  refine List.filter_congr fun h _ => has_congr more ?_
  rw [sameLetters_lowered, sameLetters_refl]

/-! Headers that can go out. -/

/-- A name and a value that may stand in a message. -/
def Sound (h : String × String) : Prop :=
  (headerName? h.1).isSome = true ∧ isHeaderValue h.2 = true

theorem names_of_lasting (hnames : ∀ h ∈ hs.lasting, (headerName? h.1).isSome = true) :
    ∀ h ∈ hs, (headerName? h.1).isSome = true := by
  intro h hh
  have hhas := has_of_mem hh
  rw [← has_lasting, has, List.any_eq_true] at hhas
  obtain ⟨x, hx, hsame⟩ := hhas
  rw [← isSome_headerName?_congr hsame]
  exact hnames x hx

theorem headerName?_of_isSome (hname : (headerName? name).isSome = true) :
    headerName? name = some (String.ofList (lower name)) := by
  unfold headerName? at hname ⊢
  split at hname
  · next hchars => rw [if_pos hchars]
  · cases hname

end Headers

theorem checkHeaders_of_sound {hs : Headers} (hsound : ∀ h ∈ hs, Headers.Sound h) :
    checkHeaders hs = .ok (hs.map Headers.lowered) := by
  induction hs with
  | nil => rfl
  | cons h hs ih =>
    obtain ⟨hname, hvalue⟩ := hsound h List.mem_cons_self
    rw [checkHeaders, Headers.headerName?_of_isSome hname,
      ih fun x hx => hsound x (List.mem_cons_of_mem h hx)]
    simp only [hvalue]
    rfl

theorem checkHeaders_of_unsound {hs : Headers} (hunsound : ¬ ∀ h ∈ hs, Headers.Sound h) :
    checkHeaders hs = .error .headerName ∨ checkHeaders hs = .error .headerValue := by
  induction hs with
  | nil => exact absurd (by simp) hunsound
  | cons h hs ih =>
    rw [checkHeaders]
    cases hname : headerName? h.1 with
    | none => exact .inl rfl
    | some name =>
      cases hvalue : isHeaderValue h.2 with
      | false => exact .inr rfl
      | true =>
        have hrest : ¬ ∀ x ∈ hs, Headers.Sound x := fun hall => hunsound
          (List.forall_mem_cons.mpr ⟨⟨by rw [hname]; rfl, hvalue⟩, hall⟩)
        rcases ih hrest with hfault | hfault
        · exact .inl (by rw [hfault]; rfl)
        · exact .inr (by rw [hfault]; rfl)

end Http

end PhasedLoad
