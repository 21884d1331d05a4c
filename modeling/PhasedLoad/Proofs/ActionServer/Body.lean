import PhasedLoad.ActionServer
import PhasedLoad.Proofs.Json.Reading

/-! Bodies that are not UTF-8. What stands for a fault is read as a fault wherever it stands: it is
no escape, no digit and no value, and no string with it is a text. -/

namespace PhasedLoad.ActionServer

open Json

theorem numberFrom_eq_none {base : Nat} {c : Char} (hc : Text.digit? base c = none) :
    ∀ (n : Nat) (cs : List Char), c ∈ cs → Text.numberFrom base n cs = none := by
  intro n cs hmem
  induction cs generalizing n with
  | nil => simp at hmem
  | cons d cs ih =>
    rw [Text.numberFrom]
    split
    · next hd =>
      have hne : c ≠ d := fun h => by simp [← h, hc] at hd
      exact ih _ ((List.mem_cons.mp hmem).resolve_left hne)
    · rfl

/-- The code points of a string among characters and faults, and what follows its closing quote. -/
def readPoints : List (Option Char) → Option (List (Option Nat) × List (Option Char))
  | [] => none
  | some '"' :: rest => some ([], rest)
  | some '\\' :: some 'u' :: some a :: some b :: some c :: some d :: rest => do
    let n ← Text.number? 16 [a, b, c, d]
    let (ns, rest) ← readPoints rest
    some (some n :: ns, rest)
  | some '\\' :: c :: rest => do
    let n ← c.bind escapeOf?
    let (ns, rest) ← readPoints rest
    some (some n :: ns, rest)
  | none :: rest => do
    let (ns, rest) ← readPoints rest
    some (none :: ns, rest)
  | some c :: rest =>
    if c.toNat < 0x20 then none
    else do
      let (ns, rest) ← readPoints rest
      some (some c.toNat :: ns, rest)

/-- Code points with those that are read of each fault. -/
def pointsWithFaults (ns : List (Option Nat)) : List Nat :=
  ns.flatMap fun n => n.elim [0x78, 0xDC00] ([·])

@[simp] theorem withFaults_some (c : Char) (cs : List (Option Char)) :
    withFaults (some c :: cs) = c :: withFaults cs := rfl

theorem withFaults_none (cs : List (Option Char)) :
    withFaults (none :: cs) =
      'x' :: '\\' :: 'u' :: 'd' :: 'c' :: '0' :: '0' :: withFaults cs := by
  have hfault : fault = ['x', '\\', 'u', 'd', 'c', '0', '0'] := by decide
  rw [withFaults, List.flatMap_cons, Option.elim_none, hfault]
  rfl

/-- A body in UTF-8 is read as its text. -/
theorem withFaults_of_utf8? {body : List UInt8} {text : List Char}
    (h : Text.utf8? body = some text) : withFaults (Text.utf8From none body) = text := by
  unfold Text.utf8? at h
  generalize Text.utf8From none body = cs at h ⊢
  induction cs generalizing text with
  | nil => exact Option.some.inj h
  | cons c cs ih =>
    rw [List.mapM_cons, Option.bind_eq_bind, Option.bind_eq_some_iff] at h
    obtain ⟨d, hd, h⟩ := h
    obtain ⟨ds, hds, h⟩ := Option.bind_eq_some_iff.mp h
    obtain rfl : c = some d := hd
    obtain rfl : d :: ds = text := Option.some.inj h
    rw [withFaults_some, ih hds]

theorem number?_eq_none_of_fault {a b c d : Char} (h : 'x' ∈ [a, b, c, d]) :
    Text.number? 16 [a, b, c, d] = none :=
  numberFrom_eq_none (c := 'x') (by decide) 0 _ h

theorem eq_cons_of_withFaults {cs : List (Option Char)} {c : Char} {ds : List Char}
    (h : withFaults cs = c :: ds) (hc : 'x' ≠ c) :
    ∃ cs', cs = some c :: cs' ∧ withFaults cs' = ds := by
  cases cs with
  | nil => cases h
  | cons first cs =>
    cases first with
    | none =>
      rw [withFaults_none] at h
      exact absurd (List.cons.inj h).1 hc
    | some d =>
      obtain ⟨rfl, rfl⟩ := List.cons.inj h
      exact ⟨cs, rfl, rfl⟩

theorem readString_digits_withFaults (cs : List (Option Char))
    (h : ∀ a b c d rest, cs ≠ some a :: some b :: some c :: some d :: rest) :
    readString ('\\' :: 'u' :: withFaults cs) = none := by
  by_contra hread
  obtain ⟨a, b, c, d, ds, hds⟩ : ∃ a b c d ds, withFaults cs = a :: b :: c :: d :: ds := by
    by_contra hshort
    refine hread ?_
    rw [readString]
    · rfl
    · rintro a b c d ds - hds
      exact hshort ⟨a, b, c, d, ds, hds⟩
  have hdigits : 'x' ∉ [a, b, c, d] := by
    intro hx
    rw [hds, readString, number?_eq_none_of_fault hx] at hread
    exact hread rfl
  simp only [List.mem_cons, List.not_mem_nil, or_false, not_or] at hdigits
  obtain ⟨ha, hb, hc, hd⟩ := hdigits
  obtain ⟨cs, rfl, has⟩ := eq_cons_of_withFaults hds ha
  obtain ⟨cs, rfl, hbs⟩ := eq_cons_of_withFaults has hb
  obtain ⟨cs, rfl, hcs⟩ := eq_cons_of_withFaults hbs hc
  obtain ⟨cs, rfl, -⟩ := eq_cons_of_withFaults hcs hd
  exact h a b c d cs rfl

/-- A string is read as if faults were characters of their own. -/
theorem readString_withFaults (cs : List (Option Char)) :
    readString (withFaults cs) = (readPoints cs).map (Prod.map pointsWithFaults withFaults) := by
  fun_induction readPoints cs with
  | case1 => rfl
  | case2 rest =>
    rw [withFaults_some, readString]
    rfl
  | case3 a b c d rest ih =>
    simp only [withFaults_some]
    rw [readString, ih]
    cases Text.number? 16 [a, b, c, d] <;> cases readPoints rest <;> rfl
  | case4 c rest hdigits ih =>
    cases c with
    | none =>
      -- The backslash meets the letter of the fault, which is no escape.
      rw [withFaults_some, withFaults_none, readString_letter (by decide)]
      rfl
    | some c =>
      rw [withFaults_some, withFaults_some]
      by_cases hc : c = 'u'
      · subst hc
        rw [readString_digits_withFaults rest fun a b c d rest' h => hdigits a b c d rest' rfl h]
        rfl
      · rw [readString_letter hc, ih, Option.bind_some]
        cases escapeOf? c <;> cases readPoints rest <;> rfl
  | case5 rest ih =>
    rw [withFaults_none, readString_plain (by decide) (absurd · (by decide)) (by decide),
      readString, ih]
    cases readPoints rest <;> rfl
  | case6 c rest hquote _ _ hcontrol =>
    have hback : c ≠ '\\' := by
      rintro rfl
      exact absurd hcontrol (by decide)
    rw [withFaults_some, readString]
    · exact if_pos hcontrol
    · exact hquote
    · exact fun _ _ _ _ _ h => absurd h hback
    · exact fun _ _ h => absurd h hback
  | case7 c rest hquote _ hback hprintable ih =>
    have hlast : c = '\\' → withFaults rest = [] := by
      intro hc
      cases rest with
      | nil => rfl
      | cons d rest => exact absurd hc (hback d rest rfl)
    rw [withFaults_some, readString_plain hquote hlast hprintable, ih]
    cases readPoints rest <;> rfl

/-- Nothing is put together with a fault: a string with one is no text. -/
theorem joinHalves_pointsWithFaults (ns : List (Option Nat)) :
    joinHalves (pointsWithFaults ns) = (ns.mapM id).bind joinHalves := by
  have hfault : ∀ ms, joinHalves (0x78 :: 0xDC00 :: ms) = none := by
    intro ms
    simp [joinHalves.eq_def]
  have hpoints : ∀ n ns, pointsWithFaults (some n :: ns) = n :: pointsWithFaults ns := fun _ _ => rfl
  -- Two halves are read at once, so the induction is on the length.
  induction hlength : ns.length using Nat.strongRecOn generalizing ns with
  | ind length ih =>
    subst hlength
    rcases ns with _ | ⟨_ | n, ns⟩
    · rfl
    · exact hfault (pointsWithFaults ns)
    have hrest := ih _ (by simp) ns rfl
    by_cases hfirst : 0xD800 ≤ n ∧ n < 0xDC00
    · rcases ns with _ | ⟨_ | m, ns⟩
      · rfl
      · simp [pointsWithFaults, joinHalves, hfirst]
      have hafter := ih _ (by grind) ns rfl
      rw [hpoints, hpoints, joinHalves.eq_def]
      simp only [hfirst, and_self, if_true, hafter]
      cases hns : ns.mapM id <;> simp [hns, joinHalves.eq_def (n :: _), hfirst]
    · rw [hpoints, joinHalves.eq_def]
      simp only [hfirst, if_false, hrest]
      cases hns : ns.mapM id <;> simp [hns, joinHalves.eq_def (n :: _), hfirst]

theorem readTree_string_withFaults (fuel : Nat) (cs : List (Option Char)) :
    readTree (fuel + 1) ('"' :: withFaults cs) = match readPoints cs with
      | some (ns, rest) =>
        (.string (((ns.mapM id).bind joinHalves).map String.ofList), some (withFaults rest))
      | none => (.broken, none) := by
  rw [readTree, skipSpace_of_head (by decide)]
  simp only [readString_withFaults]
  cases readPoints cs with
  | none => rfl
  | some p => simp [joinHalves_pointsWithFaults]

theorem readTree_none_withFaults (fuel : Nat) (cs : List (Option Char)) :
    readTree (fuel + 1) (withFaults (none :: cs)) = (.broken, none) := by
  rw [withFaults_none]
  rfl

example : Action.ofBody? (Text.utf8 "\x7b\"name\":\"\\" ++ 0xFF :: Text.utf8 "\"\x7d") = none := by
  decide +kernel

example :
    Action.ofBody? (Text.utf8 "\x7b\"name\":\"" ++ 0xFF :: Text.utf8 "\\udc00\"\x7d") = none := by
  decide +kernel

example : Action.ofBody? (Text.utf8 "\x7b\"note\":\"" ++ 0xFF :: Text.utf8 "\"\x7d") =
    some ⟨none, none, none⟩ := by
  decide +kernel

end PhasedLoad.ActionServer
