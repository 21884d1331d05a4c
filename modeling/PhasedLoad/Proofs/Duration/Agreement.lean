import PhasedLoad.CommandLine.Value
import PhasedLoad.Proofs.Duration.Reading
import PhasedLoad.Reading.Decode

/-! Lengths of time in plans and on the command line. A plan takes every text that the command line
takes, for the same length; beyond these it takes whole numbers, which count nanoseconds. No text is
both, but for the lone zero: digits alone are no number with a unit. -/

namespace PhasedLoad

namespace Text

variable {cs ds : List Char} {n k high : Nat}

theorem digit?_ten (c : Char) : digit? 10 c = if isDigit c then some (digitVal c) else none := by
  have hdigit : '0' ≤ c ∧ c ≤ '9' ↔ 48 ≤ c.toNat ∧ c.toNat ≤ 57 := Iff.rfl
  have hlower : 'a' ≤ c ∧ c ≤ 'f' ↔ 97 ≤ c.toNat ∧ c.toNat ≤ 102 := Iff.rfl
  have hupper : 'A' ≤ c ∧ c ≤ 'F' ↔ 65 ≤ c.toNat ∧ c.toNat ≤ 70 := Iff.rfl
  simp only [digit?, isDigit, digitVal, Bool.and_eq_true, decide_eq_true_eq, hdigit, hlower, hupper]
  grind

theorem positive_eq_ok_iff (hn : n ≤ high) {i : Int} : signed.positive high n cs = .ok i ↔
    (∀ c ∈ cs, isDigit c = true) ∧ Nat.ofDigitChars 10 cs n ≤ high ∧
      i = Nat.ofDigitChars 10 cs n := by
  induction cs generalizing n with
  | nil =>
    rw [signed.positive, Except.ok.injEq]
    simpa [hn] using eq_comm
  | cons c cs ih =>
    rw [signed.positive, digit?_ten, ofDigitChars_cons', List.forall_mem_cons]
    by_cases hdigit : isDigit c = true
    · rw [if_pos hdigit]
      dsimp only
      by_cases hnext : n * 10 + digitVal c ≤ high
      · rw [if_pos hnext, ih hnext]
        simp [hdigit]
      · have hlarge := le_ofDigitChars (n * 10 + digitVal c) cs
        rw [if_neg hnext]
        simp only [reduceCtorEq, false_iff]
        omega
    · simp [hdigit]

/-- A number below `2 ^ 64` in decimal digits, with an optional plus in front. -/
def Writes64 (n : Nat) (cs : List Char) : Prop :=
  ∃ ds, (cs = ds ∨ cs = '+' :: ds) ∧ ds ≠ [] ∧ (∀ c ∈ ds, isDigit c = true) ∧
    n = Nat.ofDigitChars 10 ds 0 ∧ n < 2 ^ 64

theorem unsigned64?_eq_some_iff : unsigned64? cs = some n ↔ Writes64 n cs := by
  have hresult : unsigned64? cs = some n ↔
      ∃ i : Int, signed 0 (2 ^ 64 - 1) cs = .ok i ∧ i.toNat = n := by
    unfold unsigned64?
    split <;> simp_all
  have hdigits : ∀ ds, (∃ i : Int, signed.positive (2 ^ 64 - 1) 0 ds = .ok i ∧ i.toNat = n) ↔
      (∀ c ∈ ds, isDigit c = true) ∧ n = Nat.ofDigitChars 10 ds 0 ∧ n < 2 ^ 64 := by
    intro ds
    simp only [positive_eq_ok_iff (Nat.zero_le (2 ^ 64 - 1))]
    constructor
    · rintro ⟨i, ⟨hall, hle, rfl⟩, rfl⟩
      exact ⟨hall, by omega, by omega⟩
    · rintro ⟨hall, rfl, hlt⟩
      exact ⟨_, ⟨hall, by omega, rfl⟩, by omega⟩
  have hsign : isDigit '+' = false ∧ isDigit '-' = false := by decide
  rw [hresult, Writes64]
  unfold signed
  split
  · simp
  · simp [hsign]
  · simp [hsign]
  · next ds hne =>
    rw [hdigits]
    constructor
    · rintro ⟨hall, hn, hlt⟩
      exact ⟨ds, .inr rfl, fun hnil => hne (by rw [hnil]), hall, hn, hlt⟩
    · rintro ⟨es, rfl | heq, -, hall, hn, hlt⟩
      · exact absurd (hall '+' List.mem_cons_self) (by rw [hsign.1]; decide)
      · cases heq
        exact ⟨hall, hn, hlt⟩
  · simp [hsign]
  · next hnil _ _ hplus _ =>
    rw [hdigits]
    constructor
    · rintro ⟨hall, hn, hlt⟩
      exact ⟨cs, .inl rfl, hnil, hall, hn, hlt⟩
    · rintro ⟨ds, rfl | heq, -, hall, hn, hlt⟩
      · exact ⟨hall, hn, hlt⟩
      · exact absurd heq (hplus ds)

end Text

namespace Duration

variable {cs : List Char} {n : Nat} {d : Duration}

/-- A text that is a length and a number is the lone zero. -/
theorem eq_zero_of_ofSpan (h : ofSpan cs = .ok d) (hn : Text.Writes64 n cs) :
    d = zero ∧ n = 0 := by
  obtain ⟨ds, hcs, hne, hdigits, hvalue, -⟩ := hn
  unfold ofSpan at h
  split at h
  · next hzero =>
    cases h
    refine ⟨rfl, ?_⟩
    rcases hcs with rfl | hplus
    · rw [hvalue, hzero]
      rfl
    · rw [hzero] at hplus
      cases hplus
  · rcases hcs with rfl | rfl
    · obtain ⟨c, rest, rfl⟩ := List.exists_cons_of_ne_nil hne
      rw [List.forall_mem_cons] at hdigits
      obtain ⟨f, hfault⟩ := exists_fault_of_digits hdigits.2 (Text.digitVal c) none
        (0 + c.utf8Size)
      rw [readFrom_digit hdigits.1, hfault] at h
      cases h
    · have hplus : Text.isDigit '+' = false ∧ Text.isBlank '+' = false := by decide
      rw [readFrom] at h
      simp [hplus] at h

end Duration

namespace Reading

variable {d : Duration}

theorem length_eq_ok_iff (s : String) :
    CommandLine.Value.length s = .ok d ↔ Duration.ofSpan (Text.trim s.toList) = .ok d := by
  have hempty : ∀ d, Duration.ofSpan [] ≠ .ok d := by
    intro d h
    cases h
  unfold CommandLine.Value.length
  dsimp only
  split
  · next hnil =>
    rw [List.isEmpty_iff.mp hnil]
    simp [hempty]
  · split <;> simp_all

theorem ofDurationText_eq_ok_iff (s : String) : ofDurationText s = .ok d ↔
    Duration.ofSpan (Text.trim s.toList) = .ok d ∨
      Text.Writes64 d.nanos (Text.trim s.toList) := by
  unfold ofDurationText
  dsimp only
  split
  · next n hn =>
    have hwrites := Text.unsigned64?_eq_some_iff.mp hn
    have hlt : n < Duration.limit := by
      obtain ⟨-, -, -, -, -, hlt⟩ := hwrites
      rw [Duration.limit]
      omega
    constructor
    · intro h
      cases h
      rw [Duration.ofNanos_nanos_of_lt hlt]
      exact .inr hwrites
    · rintro (hspan | hnanos)
      · obtain ⟨rfl, rfl⟩ := Duration.eq_zero_of_ofSpan hspan hwrites
        rfl
      · rw [← Text.unsigned64?_eq_some_iff, hn, Option.some.injEq] at hnanos
        rw [hnanos, Duration.ofNanos_self]
  · next hnone =>
    rw [← Text.unsigned64?_eq_some_iff, hnone]
    cases Duration.ofSpan (Text.trim s.toList) <;> simp [Except.mapError]

/-- A plan takes a text for a length exactly if the command line does, or if it is a number of
nanoseconds. -/
theorem duration_agrees {scalar : Scalar} {s : String} (h : scalar.any = .ok (.string s))
    (d : Duration) : duration (.scalar scalar) = .ok d ↔
      CommandLine.Value.length s = .ok d ∨ Text.Writes64 d.nanos (Text.trim s.toList) := by
  have htext : duration (.scalar scalar) = ofDurationText s := by
    rw [duration, h]
    rfl
  rw [htext, ofDurationText_eq_ok_iff, length_eq_ok_iff]

/-- A text with units in JSON, and a number of nanoseconds between quotes in YAML. -/
theorem quoted_agrees :
    ((Scalar.ofAtom (.string " 1h 30m")).any = .ok (.string " 1h 30m") ∧
      duration (.scalar (.ofAtom (.string " 1h 30m"))) = .ok (.ofSecs 5400)) ∧
    (Scalar.ofYaml ⟨"+250 ", .quoted, none⟩).any = .ok (.string "+250 ") ∧
      duration (.scalar (.ofYaml ⟨"+250 ", .quoted, none⟩)) = .ok (.ofNanos 250) :=
  ⟨⟨rfl, (duration_agrees rfl _).mpr (.inl (by rfl))⟩, rfl,
    (duration_agrees rfl _).mpr (.inr ⟨['2', '5', '0'], .inr (by decide), by decide,
      List.all_eq_true.mp (by decide), by decide, by decide⟩)⟩

end Reading

end PhasedLoad
