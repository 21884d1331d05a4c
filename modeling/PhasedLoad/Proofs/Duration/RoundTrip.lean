import PhasedLoad.CommandLine.Value
import PhasedLoad.Proofs.Duration.Reading

/-! Printed lengths of time are read back. Whole seconds are split into falling units, the terms of
which add up to them again; less than a second is printed as one number, which may have been rounded
up to the next unit and still stands for the right time. -/

namespace PhasedLoad

theorem Text.trim_eq_self {cs : List Char} (hhead : ∀ c ∈ cs.head?, isBlank c = false)
    (hlast : ∀ c ∈ cs.getLast?, isBlank c = false) : trim cs = cs := by
  have hkeeps : ∀ {ds : List Char}, (∀ c ∈ ds.head?, isBlank c = false) →
      ds.dropWhile isBlank = ds := by
    intro ds h
    cases ds with
    | nil => rfl
    | cons d ds => exact trimStart_of_not_blank (h d rfl)
  rw [trim, trimStart, hkeeps hhead, trimEnd, hkeeps, List.reverse_reverse]
  rwa [List.head?_reverse]

namespace Duration

/-- `m` is `n` to the nearest whole number of units, a half going up. -/
def IsNearest (unit n m : Nat) : Prop := unit ∣ m ∧ 2 * n < 2 * m + unit ∧ 2 * m ≤ 2 * n + unit

theorem isNearest_roundHalfUp {unit : Nat} (n : Nat) (hpos : 0 < unit) (heven : 2 ∣ unit) :
    IsNearest unit n (roundHalfUp n unit * unit) := by
  have hsplit := Nat.div_add_mod (n + unit / 2) unit
  have hmod := Nat.mod_lt (n + unit / 2) hpos
  rw [Nat.mul_comm] at hsplit
  refine ⟨Nat.dvd_mul_left .., ?_, ?_⟩
  all_goals
    rw [roundHalfUp]
    omega

namespace SpanTerm

variable {t : SpanTerm} {ts : List SpanTerm} {unit : SpanUnit} {name : String} {n : Nat}

/-! Terms side by side. -/

theorem head?_chars (t : SpanTerm) (rest : List Char) :
    ∀ c ∈ (t.chars ++ rest).head?, Text.isDigit c = true := by
  obtain ⟨d, ds, hdecimal, hdigit, -⟩ := exists_cons_decimal t.number
  rw [chars, hdecimal]
  rintro c hc
  cases hc
  exact hdigit

theorem Readable.getLast?_chars (h : t.Readable) :
    ∀ c ∈ t.chars.getLast?, isUnitLetter c = true := by
  intro c hc
  rw [chars, List.getLast?_append_of_ne_nil _ h.name_ne_nil] at hc
  exact h.letters c (List.mem_of_getLast? hc)

theorem intercalate_cons (t : SpanTerm) (ts : List SpanTerm) : ∃ rest,
    [' '].intercalate ((t :: ts).map chars) = t.chars ++ rest := by
  cases ts with
  | nil => exact ⟨[], by simp⟩
  | cons u us =>
    rw [List.map_cons, List.map_cons, List.intercalate_cons_cons, List.append_assoc]
    exact ⟨_, rfl⟩

theorem getLast?_intercalate (hreadable : ∀ t ∈ ts, t.Readable) :
    ∀ c ∈ ([' '].intercalate (ts.map chars)).getLast?, isUnitLetter c = true := by
  induction ts with
  | nil => simp
  | cons t ts ih =>
    cases ts with
    | nil =>
      rw [List.map_singleton, List.intercalate_singleton]
      exact (hreadable t List.mem_cons_self).getLast?_chars
    | cons u us =>
      obtain ⟨rest, hrest⟩ := intercalate_cons u us
      have hne : [' '].intercalate ((u :: us).map chars) ≠ [] := by
        rw [hrest, chars]
        simp [Json.decimal_ne_nil]
      rw [List.map_cons, List.map_cons, List.intercalate_cons_cons, ← List.map_cons,
        List.getLast?_append_of_ne_nil _ hne]
      exact ih fun v hv => hreadable v (List.mem_cons_of_mem t hv)

theorem length_eq {s : String} {d : Duration} (ts : List SpanTerm) (hne : ts ≠ [])
    (hreadable : ∀ t ∈ ts, t.Readable) (hs : s.toList = [' '].intercalate (ts.map chars))
    (hread : readFrom (.start 0) none 0 s.toList = .ok d) : CommandLine.Value.length s = .ok d := by
  have hlast := getLast?_intercalate hreadable
  obtain ⟨t, ts, rfl⟩ := List.exists_cons_of_ne_nil hne
  obtain ⟨rest, hrest⟩ := intercalate_cons t ts
  have hhead := t.head?_chars rest
  rw [← hrest, ← hs] at hhead
  rw [← hs] at hlast
  have htrim : Text.trim s.toList = s.toList := Text.trim_eq_self
    (fun c hc => Text.isBlank_of_isDigit (hhead c hc))
    (fun c hc => (isUnitLetter_separates (hlast c hc)).2)
  have hempty : s.toList.isEmpty = false := by
    rw [hs, hrest, chars]
    simp [Json.decimal_ne_nil]
  have hzero : s.toList ≠ ['0'] := by
    intro hzero
    rw [hzero] at hlast
    exact absurd (hlast '0' rfl) (by decide)
  simp only [CommandLine.Value.length, htrim, hempty, ofSpan, if_neg hzero, hread]
  rfl

/-! Whole seconds. -/

def ofCount (unit : SpanUnit) (name : String) (n : Nat) : List SpanTerm :=
  if n = 0 then [] else [⟨n, unit, name.toList⟩]

theorem map_chars_ofCount (unit : SpanUnit) (name : String) (n : Nat) :
    (ofCount unit name n).map chars = (shortItem name n).map String.toList := by
  unfold ofCount shortItem
  split
  · rfl
  · simp [chars, Text.decimal]

theorem nanosOfAll_ofCount (unit : SpanUnit) (name : String) (n : Nat) :
    nanosOfAll (ofCount unit name n) = n * unit.nanos := by
  unfold ofCount
  split
  · next h => simp [h, nanosOfAll]
  · simp [nanosOfAll, nanos]

theorem nanosOfAll_append (ts us : List SpanTerm) :
    nanosOfAll (ts ++ us) = nanosOfAll ts + nanosOfAll us := by
  induction ts with
  | nil => simp [nanosOfAll]
  | cons t ts ih => rw [List.cons_append, nanosOfAll, nanosOfAll, ih, Nat.add_assoc]

/-- A name of a unit that counts in seconds. -/
def Names (unit : SpanUnit) (name : String) : Prop :=
  name.toList.all isUnitLetter = true ∧ SpanUnit.ofName? name = some unit ∧
    unit.countsNanos = false

instance (unit : SpanUnit) (name : String) : Decidable (Names unit name) :=
  inferInstanceAs (Decidable (_ ∧ _ ∧ _))

theorem readable_ofCount (hname : Names unit name) (hn : n < 2 ^ 64) :
    ∀ t ∈ ofCount unit name n, t.Readable ∧ t.unit.countsNanos = false := by
  intro t ht
  unfold ofCount at ht
  split at ht
  · simp at ht
  · rw [List.mem_singleton] at ht
    subst ht
    exact ⟨⟨hn, List.all_eq_true.mp hname.1, by rw [String.ofList_toList]; exact hname.2.1⟩, hname.2.2⟩

def plural (name : String) (n : Nat) : String := name ++ if n > 1 then "s" else ""

theorem longItem_eq (name : String) (n : Nat) : longItem name n = shortItem (plural name n) n := by
  unfold longItem shortItem plural
  split
  · rfl
  · rw [String.append_assoc]

theorem names_plural (n : Nat) : Names .year (plural "year" n) ∧ Names .month (plural "month" n) ∧
    Names .day (plural "day" n) := by
  unfold plural
  split <;> decide

def whole (secs : Nat) : List SpanTerm :=
  let inYear := secs % 31557600
  let inMonth := inYear % 2630016
  let inDay := inMonth % 86400
  ofCount .year (plural "year" (secs / 31557600)) (secs / 31557600) ++
    ofCount .month (plural "month" (inYear / 2630016)) (inYear / 2630016) ++
    ofCount .day (plural "day" (inMonth / 86400)) (inMonth / 86400) ++
    ofCount .hour "h" (inDay / 3600) ++ ofCount .minute "m" (inDay % 3600 / 60) ++
    ofCount .second "s" (inDay % 60)

theorem nanosOfAll_whole (secs : Nat) : nanosOfAll (whole secs) = secs * 10 ^ 9 := by
  simp only [whole, nanosOfAll_append, nanosOfAll_ofCount, SpanUnit.nanos]
  omega

theorem readable_whole {secs : Nat} (h : secs < 2 ^ 64) :
    ∀ t ∈ whole secs, t.Readable ∧ t.unit.countsNanos = false := by
  have hfits : ∀ k, k ≤ secs → k < 2 ^ 64 := fun k hk => Nat.lt_of_le_of_lt hk h
  simp only [whole, List.mem_append]
  rintro t (((((ht | ht) | ht) | ht) | ht) | ht)
  · exact readable_ofCount (names_plural _).1 (hfits _ (by omega)) t ht
  · exact readable_ofCount (names_plural _).2.1 (hfits _ (by omega)) t ht
  · exact readable_ofCount (names_plural _).2.2 (hfits _ (by omega)) t ht
  · exact readable_ofCount (by decide) (hfits _ (by omega)) t ht
  · exact readable_ofCount (by decide) (hfits _ (by omega)) t ht
  · exact readable_ofCount (by decide) (hfits _ (by omega)) t ht

theorem toList_wholeSpan {secs : Nat} (h : secs ≠ 0) :
    (wholeSpan secs).toList = [' '].intercalate ((whole secs).map chars) := by
  simp only [wholeSpan, if_neg h, whole, List.map_append, map_chars_ofCount, longItem_eq,
    String.toList_intercalate]
  rfl

end SpanTerm

open SpanTerm

theorem length_wholeSpan {secs : Nat} (hpos : 0 < secs) (hlt : secs < 2 ^ 64) :
    CommandLine.Value.length (wholeSpan secs) = .ok (ofSecs secs) := by
  have hsum := nanosOfAll_whole secs
  have hne : whole secs ≠ [] := by
    intro hnil
    rw [hnil, nanosOfAll] at hsum
    omega
  have htext := toList_wholeSpan (Nat.ne_of_gt hpos)
  refine length_eq (whole secs) hne (fun t ht => (readable_whole hlt t ht).1) htext ?_
  rw [htext, readFrom_terms hne (fun t ht => (readable_whole hlt t ht).1)
    (fun t ht => (readable_whole hlt t ht).2), hsum, Option.getD_none, zero_nanos, Nat.zero_add]
  · rfl
  · rw [hsum, Option.getD_none, zero_nanos, limit]
    omega

theorem length_single {n : Nat} {unit : SpanUnit} {name : String}
    (hletters : name.toList.all isUnitLetter = true)
    (hname : SpanUnit.ofName? name = some unit) (hn : n < 2 ^ 64)
    (hfits : n * unit.nanos < 2 ^ 64) :
    CommandLine.Value.length (toString n ++ name) = .ok (ofNanos (n * unit.nanos)) := by
  have hreadable : (SpanTerm.mk n unit name.toList).Readable :=
    ⟨hn, List.all_eq_true.mp hletters, by rw [String.ofList_toList]; exact hname⟩
  have htext : (toString n ++ name).toList = (SpanTerm.mk n unit name.toList).chars := by
    rw [String.toList_append]
    rfl
  have hsub : zero.subsecNanos = 0 := rfl
  have hadd := addUnits_of_lt zero unit n (by rw [zero_nanos, limit]; omega)
    (fun _ => by rw [hsub]; omega)
  rw [zero_nanos, Nat.zero_add] at hadd
  refine length_eq [⟨n, unit, name.toList⟩] (by simp) (by simpa using hreadable)
    (by simpa using htext) ?_
  rw [htext, hreadable.readFrom_last, Option.getD_none, hadd]

theorem single_reads_back (unit : SpanUnit) {n : Nat} {name : String}
    (hletters : name.toList.all isUnitLetter = true)
    (hname : SpanUnit.ofName? name = some unit) (hpos : 0 < unit.nanos) (heven : 2 ∣ unit.nanos)
    (hunit : unit.nanos < 10 ^ 9) (hn : n < 10 ^ 9) :
    ∃ t, CommandLine.Value.length (toString (roundHalfUp n unit.nanos) ++ name) = .ok t ∧
      IsNearest unit.nanos n t.nanos := by
  have hnearest := isNearest_roundHalfUp n hpos heven
  have hsmall : roundHalfUp n unit.nanos * unit.nanos < 2 * 10 ^ 9 := by
    have := hnearest.2.2
    omega
  have hcount := Nat.le_mul_of_pos_right (roundHalfUp n unit.nanos) hpos
  refine ⟨_, length_single hletters hname (by omega) (by omega), ?_⟩
  rw [ofNanos_nanos_of_lt (by rw [limit]; omega)]
  exact hnearest

/-- Every printed length is read back: from a second on without its fraction, below that to the
nearest millisecond or microsecond. -/
theorem span_reads_back (d : Duration) : ∃ t, CommandLine.Value.length d.span = .ok t ∧
    if 10 ^ 9 ≤ d.nanos then t.nanos = d.secs * 10 ^ 9
    else if 10 ^ 6 ≤ d.nanos then IsNearest (10 ^ 6) d.nanos t.nanos
    else IsNearest 1000 d.nanos t.nanos := by
  by_cases hlong : 10 ^ 9 ≤ d.nanos
  · have hpos : 0 < d.secs := Nat.div_pos hlong (by decide)
    have hlt := d.secs_lt
    refine ⟨ofSecs d.secs, ?_, ?_⟩
    · rw [span, if_neg (Nat.not_lt.mpr hlong)]
      exact length_wholeSpan hpos hlt
    · rw [if_pos hlong, ofSecs, ofNanos_nanos_of_lt]
      rw [limit]
      omega
  have hshort := Nat.lt_of_not_le hlong
  simp only [span, if_pos hshort, single, if_neg hlong]
  by_cases hmillis : 10 ^ 6 ≤ d.nanos
  · simp only [if_pos hmillis]
    exact single_reads_back .millisecond (by decide) (by decide) (by decide) (by decide)
      (by decide) hshort
  · simp only [if_neg hmillis]
    exact single_reads_back .microsecond (by decide) (by decide) (by decide) (by decide)
      (by decide) hshort

-- What rounds up to a second is still printed in milliseconds.
example : (ofNanos 999500000).span = "1000ms" := by decide +kernel

end Duration

end PhasedLoad
