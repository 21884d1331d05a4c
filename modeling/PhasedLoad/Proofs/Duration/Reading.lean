import Mathlib.Data.List.Basic
import PhasedLoad.Duration.Span
import PhasedLoad.Proofs.Json.Reading

/-! How written lengths of time are read: digits make up a number, letters name its unit, and each
term is added to those before it. Where in the text a term stands does not matter. -/

namespace PhasedLoad

namespace Text

variable {c : Char} {n : Nat} {ds : List Char}

theorem isBlank_of_isDigit (h : isDigit c = true) : isBlank c = false := by
  simp only [isDigit, Bool.and_eq_true, decide_eq_true_eq, Char.le_def, UInt32.le_iff_toNat_le] at h
  have hlow : 48 ≤ c.toNat := h.1
  have hhigh : c.toNat ≤ 57 := h.2
  simp only [isBlank, Bool.or_eq_false_iff, Bool.and_eq_false_iff, decide_eq_false_iff_not,
    beq_eq_false_iff_ne]
  omega

theorem ofDigitChars_cons' (n : Nat) (c : Char) (ds : List Char) :
    Nat.ofDigitChars 10 (c :: ds) n = Nat.ofDigitChars 10 ds (n * 10 + digitVal c) := by
  rw [Nat.ofDigitChars_cons, Nat.mul_comm]
  rfl

theorem le_ofDigitChars (n : Nat) (ds : List Char) : n ≤ Nat.ofDigitChars 10 ds n := by
  induction ds generalizing n with
  | nil => simp
  | cons c ds ih =>
    rw [ofDigitChars_cons']
    have := ih (n * 10 + digitVal c)
    omega

theorem ofDigitChars_decimal (n : Nat) : Nat.ofDigitChars 10 (decimal n) 0 = n := by
  rw [decimal, Nat.toString_eq_repr, Nat.toList_repr]
  exact Nat.ofDigitChars_toDigits (by decide) (by decide)

end Text

namespace Duration

variable {c : Char} {ds letters rest : List Char} {n off from_ : Nat} {total : Option Duration}

theorem isUnitLetter_separates (h : isUnitLetter c = true) :
    Text.isDigit c = false ∧ Text.isBlank c = false := by
  have hcases : 65 ≤ c.toNat ∧ c.toNat ≤ 90 ∨ 97 ≤ c.toNat ∧ c.toNat ≤ 122 ∨ c.toNat = 181 := by
    simp only [isUnitLetter, Bool.or_eq_true, Bool.and_eq_true, decide_eq_true_eq, Char.le_def,
      UInt32.le_iff_toNat_le, beq_iff_eq] at h
    rcases h with (⟨hlow, hhigh⟩ | ⟨hlow, hhigh⟩) | rfl
    · exact .inr (.inl ⟨hlow, hhigh⟩)
    · exact .inl ⟨hlow, hhigh⟩
    · exact .inr (.inr rfl)
  constructor
  · simp only [Text.isDigit, Bool.and_eq_false_iff, decide_eq_false_iff_not, Char.le_def,
      UInt32.le_iff_toNat_le]
    right
    show ¬ c.toNat ≤ 57
    omega
  · simp only [Text.isBlank, Bool.or_eq_false_iff, Bool.and_eq_false_iff, decide_eq_false_iff_not,
      beq_eq_false_iff_ne]
    omega

/-! Digits. -/

theorem readFrom_digit (h : Text.isDigit c = true) :
    readFrom (.start from_) total off (c :: rest) =
      readFrom (.number (Text.digitVal c)) total (off + c.utf8Size) rest := by
  simp [readFrom, h]

/-- Digits go on with their number as long as it fits. -/
theorem exists_readFrom_digits (hdigits : ∀ c ∈ ds, Text.isDigit c = true)
    (hfits : Nat.ofDigitChars 10 ds n < 2 ^ 64) (total : Option Duration) (off : Nat)
    (rest : List Char) :
    ∃ off', readFrom (.number n) total off (ds ++ rest) =
      readFrom (.number (Nat.ofDigitChars 10 ds n)) total off' rest := by
  induction ds generalizing n off with
  | nil => exact ⟨off, by simp⟩
  | cons c ds ih =>
    rw [Text.ofDigitChars_cons'] at hfits ⊢
    obtain ⟨off', hread⟩ := ih (fun d hd => hdigits d (List.mem_cons_of_mem c hd)) hfits
      (off + c.utf8Size)
    have hdigit := hdigits c List.mem_cons_self
    have hnext := Nat.lt_of_le_of_lt (Text.le_ofDigitChars (n * 10 + Text.digitVal c) ds) hfits
    refine ⟨off', ?_⟩
    rw [List.cons_append, readFrom, ← hread]
    simp [hdigit, hnext]

theorem exists_fault_of_digits (hdigits : ∀ c ∈ ds, Text.isDigit c = true) (n : Nat)
    (total : Option Duration) (off : Nat) :
    ∃ f, readFrom (.number n) total off ds = .error f := by
  induction ds generalizing n off with
  | nil =>
    have hnone : SpanUnit.ofName? (String.ofList []) = none := by decide
    exact ⟨.unitNeeded n, by rw [readFrom, addTerm, hnone]; rfl⟩
  | cons c ds ih =>
    have hdigit := hdigits c List.mem_cons_self
    rw [readFrom, if_pos hdigit]
    split
    · exact ih (fun d hd => hdigits d (List.mem_cons_of_mem c hd)) _ _
    · exact ⟨.tooLarge, rfl⟩

/-! Terms. -/

theorem exists_readFrom_letters (hletters : ∀ c ∈ letters, isUnitLetter c = true) (n : Nat)
    (f : Option SpanFraction) (before : List Char) (total : Option Duration) (off : Nat)
    (rest : List Char) :
    ∃ off', readFrom (.unit n f before) total off (letters ++ rest) =
      readFrom (.unit n f (letters.reverse ++ before)) total off' rest := by
  induction letters generalizing before off with
  | nil => exact ⟨off, rfl⟩
  | cons c letters ih =>
    have hletter := hletters c List.mem_cons_self
    obtain ⟨hdigit, hblank⟩ := isUnitLetter_separates hletter
    obtain ⟨off', hread⟩ := ih (fun d hd => hletters d (List.mem_cons_of_mem c hd)) (c :: before)
      (off + c.utf8Size)
    refine ⟨off', ?_⟩
    rw [List.reverse_cons, List.append_assoc, List.singleton_append, ← hread, List.cons_append,
      readFrom]
    simp [hdigit, hblank, hletter]

structure SpanTerm where
  number : Nat
  unit : SpanUnit
  name : List Char

namespace SpanTerm

variable {t : SpanTerm} {ts : List SpanTerm}

def chars (t : SpanTerm) : List Char := Text.decimal t.number ++ t.name

def nanos (t : SpanTerm) : Nat := t.number * t.unit.nanos

def nanosOfAll : List SpanTerm → Nat
  | [] => 0
  | t :: ts => t.nanos + nanosOfAll ts

/-- The number fits 64 bits, and the name is one of the unit. -/
structure Readable (t : SpanTerm) : Prop where
  fits : t.number < 2 ^ 64
  letters : ∀ c ∈ t.name, isUnitLetter c = true
  named : SpanUnit.ofName? (String.ofList t.name) = some t.unit

theorem Readable.name_ne_nil (h : t.Readable) : t.name ≠ [] := by
  intro hnil
  have hnone : SpanUnit.ofName? (String.ofList []) = none := by decide
  have hnamed := h.named
  rw [hnil, hnone] at hnamed
  cases hnamed

theorem exists_cons_decimal (n : Nat) : ∃ c ds, Text.decimal n = c :: ds ∧
    Text.isDigit c = true ∧ (∀ d ∈ ds, Text.isDigit d = true) ∧
    Nat.ofDigitChars 10 ds (Text.digitVal c) = n := by
  obtain ⟨c, ds, hdecimal⟩ := List.exists_cons_of_ne_nil (Json.decimal_ne_nil n)
  have hdigits := Json.isDigit_of_mem_decimal (n := n)
  have hvalue := Text.ofDigitChars_decimal n
  rw [hdecimal] at hdigits hvalue
  rw [Text.ofDigitChars_cons', Nat.zero_mul, Nat.zero_add] at hvalue
  exact ⟨c, ds, hdecimal, hdigits c List.mem_cons_self,
    fun d hd => hdigits d (List.mem_cons_of_mem c hd), hvalue⟩

theorem Readable.exists_readFrom (h : t.Readable) (from_ : Nat) (total : Option Duration)
    (off : Nat) (rest : List Char) :
    ∃ off', readFrom (.start from_) total off (t.chars ++ rest) =
      readFrom (.unit t.number none t.name.reverse) total off' rest := by
  obtain ⟨c, ds, hdecimal, hdigit, hdigits, hvalue⟩ := exists_cons_decimal t.number
  obtain ⟨l, letters, hname⟩ := List.exists_cons_of_ne_nil h.name_ne_nil
  have hletters := h.letters
  rw [hname] at hletters
  obtain ⟨hnodigit, hnoblank⟩ := isUnitLetter_separates (hletters l List.mem_cons_self)
  obtain ⟨offUnit, hnumber⟩ := exists_readFrom_digits hdigits (by rw [hvalue]; exact h.fits) total
    (off + c.utf8Size) (t.name ++ rest)
  obtain ⟨off', hunit⟩ := exists_readFrom_letters
    (fun d hd => hletters d (List.mem_cons_of_mem l hd)) t.number none [l] total
    (offUnit + l.utf8Size) rest
  refine ⟨off', ?_⟩
  calc readFrom (.start from_) total off (t.chars ++ rest)
      = readFrom (.number (Text.digitVal c)) total (off + c.utf8Size) (ds ++ (t.name ++ rest)) := by
        rw [chars, hdecimal, List.append_assoc, List.cons_append, readFrom_digit hdigit]
    _ = readFrom (.number t.number) total offUnit (l :: (letters ++ rest)) := by
        rw [hnumber, hvalue, hname, List.cons_append]
    _ = readFrom (.unit t.number none [l]) total (offUnit + l.utf8Size) (letters ++ rest) := by
        rw [readFrom]
        simp [hnodigit, hnoblank, hletters l List.mem_cons_self]
    _ = readFrom (.unit t.number none t.name.reverse) total off' rest := by
        rw [hunit, hname, List.reverse_cons]

theorem Readable.addTerm_eq (h : t.Readable) (d : Duration) :
    addTerm d t.number none t.name.reverse.reverse = addUnits d t.unit t.number := by
  rw [List.reverse_reverse, addTerm, h.named]
  dsimp only
  cases addUnits d t.unit t.number <;> rfl

theorem Readable.readFrom_last (h : t.Readable) (off : Nat) :
    readFrom (.start from_) total off t.chars = addUnits (total.getD zero) t.unit t.number := by
  obtain ⟨off', hread⟩ := h.exists_readFrom from_ total off []
  rw [List.append_nil] at hread
  rw [hread, readFrom, h.addTerm_eq]

theorem Readable.exists_readFrom_blank (h : t.Readable) {d : Duration}
    (hadd : addUnits (total.getD zero) t.unit t.number = .ok d) (from_ off : Nat)
    (rest : List Char) :
    ∃ from' off', readFrom (.start from_) total off (t.chars ++ ' ' :: rest) =
      readFrom (.start from') (some d) off' rest := by
  obtain ⟨off', hread⟩ := h.exists_readFrom from_ total off (' ' :: rest)
  refine ⟨off' + ' '.utf8Size, off' + ' '.utf8Size, ?_⟩
  have hblank : Text.isDigit ' ' = false ∧ Text.isBlank ' ' = true := by decide
  rw [hread, readFrom]
  simp only [hblank.1, hblank.2, h.addTerm_eq, hadd]
  rfl

end SpanTerm

/-! Sums. -/

theorem SpanUnit.secs_mul {unit : SpanUnit} (h : unit.countsNanos = false) :
    unit.nanos / 10 ^ 9 * 10 ^ 9 = unit.nanos := by
  cases unit <;> first | rfl | cases h

theorem within64_of_lt (h : n < 2 ^ 64) : within64 n = pure n := if_pos h

theorem addUnits_of_lt (d : Duration) (unit : SpanUnit) (n : Nat)
    (h : d.nanos + n * unit.nanos < limit)
    (hsmall : unit.countsNanos = true → d.subsecNanos + n * unit.nanos < 2 ^ 64) :
    addUnits d unit n = .ok (ofNanos (d.nanos + n * unit.nanos)) := by
  have hsum : ofNanos? (d.nanos + n * unit.nanos) =
      some (ofNanos (d.nanos + n * unit.nanos)) :=
    ofNanos?_eq_some_iff.mpr (ofNanos_nanos_of_lt h)
  cases hcounts : unit.countsNanos with
  | true =>
    have hpart : n * unit.nanos < 2 ^ 64 := Nat.lt_of_le_of_lt (Nat.le_add_left ..) (hsmall hcounts)
    rw [addUnits, if_pos hcounts, within64_of_lt hpart, pure_bind,
      within64_of_lt (hsmall hcounts), pure_bind, hsum]
  | false =>
    have hwhole : n * (unit.nanos / 10 ^ 9) * 10 ^ 9 = n * unit.nanos := by
      rw [Nat.mul_assoc, SpanUnit.secs_mul hcounts]
    have hpart : n * (unit.nanos / 10 ^ 9) < 2 ^ 64 := by
      simp only [limit] at h
      omega
    rw [addUnits, if_neg (by simp [hcounts]), within64_of_lt hpart, pure_bind, hwhole, hsum]

/-- Terms in large units, one blank between each two, are read as their sum. -/
theorem readFrom_terms {ts : List SpanTerm} (hne : ts ≠ []) (hreadable : ∀ t ∈ ts, t.Readable)
    (hlarge : ∀ t ∈ ts, t.unit.countsNanos = false)
    (hfits : (total.getD zero).nanos + SpanTerm.nanosOfAll ts < limit) :
    readFrom (.start from_) total off ([' '].intercalate (ts.map SpanTerm.chars)) =
      .ok (ofNanos ((total.getD zero).nanos + SpanTerm.nanosOfAll ts)) := by
  induction ts generalizing total from_ off with
  | nil => exact absurd rfl hne
  | cons t ts ih =>
    have ht := hreadable t List.mem_cons_self
    rw [SpanTerm.nanosOfAll, SpanTerm.nanos] at hfits ⊢
    have hadd := addUnits_of_lt (total.getD zero) t.unit t.number (by omega)
      fun hcounts => absurd hcounts (by simp [hlarge t List.mem_cons_self])
    cases ts with
    | nil =>
      rw [List.map_singleton, List.intercalate_singleton, ht.readFrom_last, hadd]
      rfl
    | cons u us =>
      have hsum := ofNanos_nanos_of_lt
        (n := (total.getD zero).nanos + t.number * t.unit.nanos) (by omega)
      obtain ⟨from', off', hread⟩ := ht.exists_readFrom_blank hadd from_ off
        ([' '].intercalate ((u :: us).map SpanTerm.chars))
      rw [List.map_cons, List.map_cons, List.intercalate_cons_cons, List.append_assoc,
        List.singleton_append, ← List.map_cons, hread,
        ih (by simp) (fun v hv => hreadable v (List.mem_cons_of_mem t hv))
          (fun v hv => hlarge v (List.mem_cons_of_mem t hv))
          (by rw [Option.getD_some, hsum]; omega),
        Option.getD_some, hsum, Nat.add_assoc]

end Duration

end PhasedLoad
