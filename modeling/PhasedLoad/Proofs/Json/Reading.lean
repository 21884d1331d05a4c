import Mathlib.Data.List.Basic
import Mathlib.Data.List.TakeDrop
import PhasedLoad.Json.Printer
import PhasedLoad.Json.Tree

/-! What is printed is read as what it was: a compact text is one line, and it has the tree of its
value. -/

namespace PhasedLoad.Json

/-! Strings. -/

theorem number?_hexDigit : ∀ n < 0x20,
    Text.number? 16 ['0', '0', Text.hexDigit (n / 16), Text.hexDigit (n % 16)] = some n := by
  decide

theorem readString_letter {c : Char} (hc : c ≠ 'u') (rest : List Char) :
    readString ('\\' :: c :: rest) =
      (escapeOf? c).bind fun n => (readString rest).map (Prod.map (n :: ·) id) := by
  rw [readString]
  · cases escapeOf? c <;> cases readString rest <;> rfl
  · intro a b c' d rest' hcu
    exact absurd hcu hc

theorem readString_plain {c : Char} {rest : List Char} (hquote : c ≠ '"')
    (hback : c = '\\' → rest = []) (hprintable : ¬ c.toNat < 0x20) :
    readString (c :: rest) = (readString rest).map (Prod.map (c.toNat :: ·) id) := by
  rw [readString]
  · rw [if_neg hprintable]
    cases readString rest <;> rfl
  · exact hquote
  · rintro a b c' d rest' hc rfl
    simp at hback
    exact hback hc
  · rintro c' rest' hc rfl
    simp at hback
    exact hback hc

theorem readString_escaped {c : Char} {rest after : List Char} {ns : List Nat}
    (h : readString rest = some (ns, after)) :
    readString (escaped c ++ rest) = some (c.toNat :: ns, after) := by
  have hletter : ∀ d n, escapeOf? d = some n → d ≠ 'u' →
      readString ('\\' :: d :: rest) = some (n :: ns, after) := by
    intro d n hd hu
    rw [readString_letter hu, hd, h]
    rfl
  unfold escaped
  split
  · next hc => subst hc; exact hletter _ _ rfl (by decide)
  split
  · next hc => subst hc; exact hletter _ _ rfl (by decide)
  split
  · next hc => subst hc; exact hletter _ _ rfl (by decide)
  split
  · next hc => subst hc; exact hletter _ _ rfl (by decide)
  split
  · next hc => subst hc; exact hletter _ _ rfl (by decide)
  split
  · next hc => rw [hc]; exact hletter _ _ rfl (by decide)
  split
  · next hc => rw [hc]; exact hletter _ _ rfl (by decide)
  split
  · next hc =>
    simp only [List.cons_append, List.nil_append]
    rw [readString, number?_hexDigit _ hc, h]
    rfl
  · next hquote hback _ _ _ _ _ hprintable =>
    rw [List.singleton_append, readString_plain hquote (absurd · hback) hprintable, h]
    rfl

theorem readString_flatMap (cs rest : List Char) :
    readString (cs.flatMap escaped ++ '"' :: rest) = some (cs.map Char.toNat, rest) := by
  induction cs with
  | nil => rw [List.flatMap_nil, List.nil_append, readString, List.map_nil]
  | cons c cs ih =>
    rw [List.flatMap_cons, List.append_assoc, readString_escaped ih, List.map_cons]

theorem joinHalves_map_toNat (cs : List Char) : joinHalves (cs.map Char.toNat) = some cs := by
  induction cs with
  | nil => simp [joinHalves]
  | cons c cs ih =>
    have hvalid : c.toNat < 0xD800 ∨ 0xDFFF < c.toNat ∧ c.toNat < 0x110000 := c.valid
    have hfirst : ¬ (0xD800 ≤ c.toNat ∧ c.toNat < 0xDC00) := by omega
    have hsecond : ¬ (0xDC00 ≤ c.toNat ∧ c.toNat < 0xE000) := by omega
    rw [List.map_cons, joinHalves.eq_def]
    simp [hfirst, hsecond, ih, Char.ofNat_toNat]

/-! Numbers. -/

/-- What may follow a value: the end, or what separates or closes. -/
def Ends (rest : List Char) : Prop :=
  rest = [] ∨ ∃ c cs, rest = c :: cs ∧ c ∈ [',', ']', '\x7d']

theorem separates {c : Char} (hc : c ∈ [',', ']', '\x7d']) :
    Text.isDigit c = false ∧ isSpace c = false := by
  simp only [List.mem_cons, List.not_mem_nil, or_false] at hc
  rcases hc with rfl | rfl | rfl <;> decide

theorem isDigit_of_mem_decimal {n : Nat} : ∀ c ∈ Text.decimal n, Text.isDigit c = true := by
  intro c hc
  rw [Text.decimal, Nat.toString_eq_repr, Nat.toList_repr] at hc
  have hdigit := Nat.isDigit_of_mem_toDigits (by decide) (by decide) hc
  simp only [Char.isDigit, Bool.and_eq_true, decide_eq_true_eq] at hdigit
  simpa [Text.isDigit, Char.le_def] using hdigit

theorem decimal_ne_nil (n : Nat) : Text.decimal n ≠ [] := by
  rw [Text.decimal, Nat.toString_eq_repr, Nat.toList_repr]
  exact Nat.toDigits_ne_nil

theorem head?_decimal {n : Nat} (h : 1 < (Text.decimal n).length) :
    (Text.decimal n).head? ≠ some '0' := by
  rw [Text.decimal, Nat.toString_eq_repr, Nat.toList_repr] at h ⊢
  have hlead : ∀ n, 0 < n → (Nat.toDigits 10 n).head? ≠ some '0' := by
    intro n hn
    induction n using Nat.strongRecOn with
    | ind n ih =>
      by_cases hlt : n < 10
      · rw [Nat.toDigits_of_lt_base hlt]
        have hdigits : ∀ n < 10, 0 < n → [n.digitChar].head? ≠ some '0' := by decide
        exact hdigits n hlt hn
      · rw [Nat.toDigits_of_base_le (by decide) (Nat.le_of_not_lt hlt)]
        have hrest := ih (n / 10) (by omega) (by omega)
        rwa [List.head?_append_of_ne_nil _ Nat.toDigits_ne_nil]
  refine hlead n (Nat.pos_of_ne_zero fun hzero => ?_)
  subst hzero
  exact absurd h (by decide)

theorem spanDigits_decimal (n : Nat) {rest : List Char} (hrest : Ends rest) :
    spanDigits (Text.decimal n ++ rest) = (Text.decimal n, rest) := by
  have hstops : rest.takeWhile Text.isDigit = [] ∧ rest.dropWhile Text.isDigit = rest := by
    rcases hrest with rfl | ⟨c, cs, rfl, hc⟩
    · exact ⟨rfl, rfl⟩
    · simp [(separates hc).1]
  rw [spanDigits, List.span_eq_takeWhile_dropWhile,
    List.takeWhile_append_of_pos isDigit_of_mem_decimal,
    List.dropWhile_append_of_pos isDigit_of_mem_decimal, hstops.1, hstops.2, List.append_nil]

theorem readNumber_decimal (negative : Bool) (n : Nat) {rest : List Char} (hrest : Ends rest) :
    readNumber negative (Text.decimal n ++ rest) =
      some (⟨negative, Text.decimal n, none, none⟩, rest) := by
  have hfraction : readFraction rest = some (none, rest) := by
    rcases hrest with rfl | ⟨c, cs, rfl, hc⟩
    · rfl
    · rw [readFraction]
      rintro cs' hdot
      cases hdot
      simp at hc
  have hexponent : readExponent rest = some (none, rest) := by
    rcases hrest with rfl | ⟨c, cs, rfl, hc⟩
    · rfl
    · have hnone : ¬ (c = 'e' ∨ c = 'E') := by
        rintro (rfl | rfl) <;> simp at hc
      simp [readExponent, hnone]
  rw [readNumber, spanDigits_decimal n hrest]
  simpa [decimal_ne_nil, hfraction, hexponent] using fun h => head?_decimal h

/-! Values. -/

def Number.tree : Number → Tree
  | .whole n => .number ⟨decide (n < 0), Text.decimal n.natAbs, none, none⟩
  | .float _ => .broken

mutual

/-- The tree of a value in which every number is whole. -/
def tree : Json → Tree
  | null => .null
  | bool b => .bool b
  | number n => n.tree
  | string s => .string (some s)
  | array items => .array (itemTrees items) true
  | object members => .object (memberTrees members) true

def itemTrees : List Json → List Tree
  | [] => []
  | v :: rest => v.tree :: itemTrees rest

def memberTrees : List (String × Json) → List (Option String × Tree)
  | [] => []
  | (k, v) :: rest => (some k, v.tree) :: memberTrees rest

end

mutual

def isWhole : Json → Bool
  | number (.float _) => false
  | array items => areWhole items
  | object members => haveWhole members
  | _ => true

def areWhole : List Json → Bool
  | [] => true
  | v :: rest => v.isWhole && areWhole rest

def haveWhole : List (String × Json) → Bool
  | [] => true
  | (_, v) :: rest => v.isWhole && haveWhole rest

end

theorem stringText_append (s : String) (rest : List Char) :
    stringText s ++ rest = '"' :: (s.toList.flatMap escaped ++ '"' :: rest) := by
  simp [stringText]

theorem Number.text_whole (n : Int) : (Number.whole n).text =
    if n < 0 then '-' :: Text.decimal n.natAbs else Text.decimal n.natAbs := by
  cases n with
  | ofNat n => rfl
  | negSucc n =>
    have hrepr : toString (Int.negSucc n) = "-" ++ toString (n + 1) := rfl
    rw [Number.text, hrepr, String.toList_append, if_pos (Int.negSucc_lt_zero n)]
    rfl

theorem skipSpace_of_head {c : Char} (h : isSpace c = false) (cs : List Char) :
    skipSpace (c :: cs) = c :: cs := by
  rw [skipSpace, List.dropWhile_cons_of_neg (by simp [h])]

theorem exists_decimal (n : Nat) : ∃ c cs, Text.decimal n = c :: cs ∧ Text.isDigit c = true := by
  obtain ⟨c, cs, hcs⟩ := List.exists_cons_of_ne_nil (decimal_ne_nil n)
  exact ⟨c, cs, hcs, isDigit_of_mem_decimal c (hcs ▸ List.mem_cons_self)⟩

theorem ne_of_isDigit {c d : Char} (hc : Text.isDigit c = true) (hd : Text.isDigit d = false) :
    c ≠ d := by
  rintro rfl
  rw [hc] at hd
  cases hd

theorem isSpace_of_isDigit {c : Char} (hc : Text.isDigit c = true) : isSpace c = false := by
  have hblank : c ≠ ' ' := ne_of_isDigit hc (by decide)
  have hnewline : c ≠ '\n' := ne_of_isDigit hc (by decide)
  have htab : c ≠ '\t' := ne_of_isDigit hc (by decide)
  have hreturn : c ≠ '\r' := ne_of_isDigit hc (by decide)
  simp [isSpace, hblank, hnewline, htab, hreturn]

theorem exists_chars {v : Json} (hv : v.isWhole = true) :
    ∃ c cs, v.chars = c :: cs ∧ isSpace c = false ∧ c ≠ ']' := by
  cases v with
  | number n =>
    cases n with
    | whole n =>
      obtain ⟨c, cs, hcs, hc⟩ := exists_decimal n.natAbs
      rw [chars, Number.text_whole]
      split
      · exact ⟨'-', _, rfl, by decide, by decide⟩
      · exact ⟨c, cs, hcs, isSpace_of_isDigit hc, ne_of_isDigit hc (by decide)⟩
    | float x => cases hv
  | bool b => cases b <;> exact ⟨_, _, rfl, by decide, by decide⟩
  | null => exact ⟨_, _, rfl, by decide, by decide⟩
  | string s => exact ⟨_, _, rfl, by decide, by decide⟩
  | array items => exact ⟨_, _, rfl, by decide, by decide⟩
  | object members => exact ⟨_, _, rfl, by decide, by decide⟩

theorem readTree_whole (n : Int) (fuel : Nat) {rest : List Char} (hrest : Ends rest) :
    readTree (fuel + 1) ((Number.whole n).text ++ rest) = ((Number.whole n).tree, some rest) := by
  rw [Number.text_whole]
  split
  · next hn =>
    rw [List.cons_append, readTree, skipSpace_of_head (by decide)]
    simp [readTree.number, readNumber_decimal true _ hrest, Number.tree, hn]
  · next hn =>
    obtain ⟨c, cs, hcs, hc⟩ := exists_decimal n.natAbs
    have hread := readNumber_decimal false n.natAbs hrest
    rw [hcs] at hread ⊢
    rw [List.cons_append] at hread ⊢
    rw [readTree, skipSpace_of_head (isSpace_of_isDigit hc)]
    split
    case h_8 => simp [readTree.number, hread, Number.tree, hn, hcs]
    all_goals
      next heq =>
      cases heq
      exact absurd hc (by decide)

/-- The text of a list from its first element on, or from the comma before the next. -/
def fromComma (first : Bool) (cs : List Char) : List Char :=
  if first || cs.isEmpty then cs else ',' :: cs

theorem ends_cons {c : Char} {cs : List Char} (hc : c ∈ [',', ']', '\x7d']) : Ends (c :: cs) :=
  .inr ⟨c, cs, rfl, hc⟩

theorem itemsChars_cons {v : Json} {items : List Json} (hitems : areWhole items = true) :
    itemsChars (v :: items) = v.chars ++ fromComma false (itemsChars items) := by
  cases items with
  | nil => simp [itemsChars, fromComma]
  | cons w items =>
    simp only [areWhole, Bool.and_eq_true] at hitems
    obtain ⟨c, cs, hchars, -⟩ := exists_chars hitems.1
    have hne : (itemsChars (w :: items)).isEmpty = false := by
      cases items <;> simp [itemsChars, hchars]
    rw [itemsChars, fromComma, hne]
    · rfl
    · exact List.cons_ne_nil _ _

theorem membersChars_cons (k : String) (v : Json) (members : List (String × Json)) :
    membersChars ((k, v) :: members) =
      stringText k ++ ':' :: (v.chars ++ fromComma false (membersChars members)) := by
  cases members with
  | nil => simp [membersChars, fromComma]
  | cons m members =>
    have hne : (membersChars (m :: members)).isEmpty = false := by
      cases members <;> simp [membersChars, stringText]
    rw [membersChars, fromComma, hne]
    · rfl
    · exact List.cons_ne_nil _ _

theorem fromComma_follows (close : Char) (hclose : close ∈ [',', ']', '\x7d'])
    (cs rest : List Char) :
    Ends (fromComma false cs ++ close :: rest) ∧
      skipSpace (fromComma false cs ++ close :: rest) = fromComma false cs ++ close :: rest := by
  unfold fromComma
  split
  · next hempty =>
    obtain rfl : cs = [] := by simpa using hempty
    exact ⟨ends_cons hclose, skipSpace_of_head (separates hclose).2 _⟩
  · exact ⟨ends_cons (by decide), skipSpace_of_head (by decide) _⟩

theorem length_le_fromComma (first : Bool) (cs : List Char) :
    cs.length ≤ (fromComma first cs).length := by
  unfold fromComma
  split <;> simp

theorem readItems_step {v : Json} (hv : v.isWhole = true) {fuel : Nat} {after rest : List Char}
    {ts : List Tree} (hread : readTree fuel (v.chars ++ after) = (v.tree, some after))
    (hafter : skipSpace after = after)
    (hrest : readItems fuel false after = (ts, some rest)) (first : Bool) :
    readItems (fuel + 1) first (if first then v.chars ++ after else ',' :: (v.chars ++ after)) =
      (v.tree :: ts, some rest) := by
  obtain ⟨c, cs, hchars, hspace, hc⟩ := exists_chars hv
  rw [hchars, List.cons_append] at hread
  rw [hchars, List.cons_append, readItems.eq_def]
  cases first with
  | true => simp [hc, hread, hafter, hrest]
  | false => simp [skipSpace_of_head hspace, hc, hread, hafter, hrest]

theorem readMembers_step (k : String) {v : Json} {fuel : Nat} {after rest : List Char}
    {ms : List (Option String × Tree)}
    (hread : readTree fuel (v.chars ++ after) = (v.tree, some after))
    (hafter : skipSpace after = after)
    (hrest : readMembers fuel false after = (ms, some rest)) (first : Bool) :
    readMembers (fuel + 1) first
        (if first then stringText k ++ ':' :: (v.chars ++ after)
          else ',' :: (stringText k ++ ':' :: (v.chars ++ after))) =
      ((some k, v.tree) :: ms, some rest) := by
  have hcolon : ∀ cs, skipSpace (':' :: cs) = ':' :: cs := skipSpace_of_head (by decide)
  have hquote : ∀ cs, skipSpace ('"' :: cs) = '"' :: cs := skipSpace_of_head (by decide)
  rw [stringText_append, readMembers.eq_def]
  cases first with
  | true =>
    simp [readString_flatMap, joinHalves_map_toNat, hcolon, hread, hafter, hrest]
  | false =>
    simp [readString_flatMap, joinHalves_map_toNat, hcolon, hquote, hread, hafter, hrest]

theorem fromComma_append (first : Bool) {cs : List Char} (hcs : cs ≠ []) (rest : List Char) :
    fromComma first cs ++ rest = if first then cs ++ rest else ',' :: (cs ++ rest) := by
  cases first <;> simp [fromComma, hcs]

theorem skipSpace_items {items : List Json} (hitems : areWhole items = true) (rest : List Char) :
    skipSpace (itemsChars items ++ ']' :: rest) = itemsChars items ++ ']' :: rest := by
  cases items with
  | nil => exact skipSpace_of_head (by decide) _
  | cons v items =>
    rw [areWhole, Bool.and_eq_true] at hitems
    obtain ⟨c, cs, hchars, hspace, -⟩ := exists_chars hitems.1
    rw [itemsChars_cons hitems.2, hchars]
    exact skipSpace_of_head hspace _

theorem skipSpace_members (members : List (String × Json)) (rest : List Char) :
    skipSpace (membersChars members ++ '\x7d' :: rest) = membersChars members ++ '\x7d' :: rest := by
  cases members with
  | nil => exact skipSpace_of_head (by decide) _
  | cons m members =>
    rw [membersChars_cons, stringText]
    exact skipSpace_of_head (by decide) _

mutual

/-- A value is read back from its characters. -/
theorem readTree_chars (v : Json) (hv : v.isWhole = true) {fuel : Nat} {rest : List Char}
    (hrest : Ends rest) (hfuel : v.chars.length ≤ fuel) :
    readTree fuel (v.chars ++ rest) = (v.tree, some rest) := by
  obtain ⟨c, cs, hchars, -⟩ := exists_chars hv
  obtain ⟨fuel, rfl⟩ : ∃ f, fuel = f + 1 :=
    Nat.exists_eq_add_one.mpr (Nat.lt_of_lt_of_le (by simp [hchars]) hfuel)
  -- The brackets around the parts of a value pay for this step, so the fuel is enough for the parts.
  cases v with
  | null => rfl
  | bool b => cases b <;> rfl
  | number n =>
    cases n with
    | whole n => exact readTree_whole n fuel hrest
    | float x => cases hv
  | string s =>
    rw [chars, stringText_append, readTree, skipSpace_of_head (by decide)]
    simp [readString_flatMap, joinHalves_map_toNat, tree]
  | array items =>
    have hlength : (itemsChars items).length < fuel := by
      simp only [chars, List.cons_append, List.length_cons, List.length_append] at hfuel
      omega
    have hitems := readItems_chars items hv true rest hlength
    rw [fromComma, Bool.true_or, if_pos rfl] at hitems
    rw [chars, List.cons_append, List.cons_append, List.append_assoc, List.singleton_append, readTree,
      skipSpace_of_head (by decide)]
    simp [skipSpace_items hv, hitems, tree]
  | object members =>
    have hlength : (membersChars members).length < fuel := by
      simp only [chars, List.cons_append, List.length_cons, List.length_append] at hfuel
      omega
    have hmembers := readMembers_chars members hv true rest hlength
    rw [fromComma, Bool.true_or, if_pos rfl] at hmembers
    rw [chars, List.cons_append, List.cons_append, List.append_assoc, List.singleton_append, readTree,
      skipSpace_of_head (by decide)]
    simp [skipSpace_members, hmembers, tree]

theorem readItems_chars (items : List Json) (hitems : areWhole items = true) (first : Bool)
    {fuel : Nat} (rest : List Char) (hfuel : (itemsChars items).length < fuel) :
    readItems fuel first (fromComma first (itemsChars items) ++ ']' :: rest) =
      (itemTrees items, some rest) := by
  obtain ⟨fuel, rfl⟩ : ∃ f, fuel = f + 1 :=
    Nat.exists_eq_add_one.mpr (Nat.lt_of_le_of_lt (Nat.zero_le _) hfuel)
  cases items with
  | nil => simp [itemsChars, fromComma, readItems, itemTrees]
  | cons v items =>
    rw [areWhole, Bool.and_eq_true] at hitems
    obtain ⟨hv, hitems⟩ := hitems
    obtain ⟨c, cs, hchars, -⟩ := exists_chars hv
    obtain ⟨hends, hspace⟩ := fromComma_follows ']' (by decide) (itemsChars items) rest
    have hcomma := length_le_fromComma false (itemsChars items)
    have hpositive : 0 < v.chars.length := by simp [hchars]
    rw [itemsChars_cons hitems] at hfuel ⊢
    rw [List.length_append] at hfuel
    rw [fromComma_append first (by simp [hchars]), List.append_assoc, itemTrees]
    exact readItems_step hv (readTree_chars v hv hends (by omega)) hspace
      (readItems_chars items hitems false rest (by omega)) first

theorem readMembers_chars (members : List (String × Json)) (hmembers : haveWhole members = true)
    (first : Bool) {fuel : Nat} (rest : List Char)
    (hfuel : (membersChars members).length < fuel) :
    readMembers fuel first (fromComma first (membersChars members) ++ '\x7d' :: rest) =
      (memberTrees members, some rest) := by
  obtain ⟨fuel, rfl⟩ : ∃ f, fuel = f + 1 :=
    Nat.exists_eq_add_one.mpr (Nat.lt_of_le_of_lt (Nat.zero_le _) hfuel)
  cases members with
  | nil => simp [membersChars, fromComma, readMembers, memberTrees]
  | cons m members =>
    obtain ⟨k, v⟩ := m
    rw [haveWhole, Bool.and_eq_true] at hmembers
    obtain ⟨hv, hmembers⟩ := hmembers
    obtain ⟨hends, hspace⟩ := fromComma_follows '\x7d' (by decide) (membersChars members) rest
    have hcomma := length_le_fromComma false (membersChars members)
    rw [membersChars_cons] at hfuel ⊢
    rw [List.length_append, List.length_cons, List.length_append] at hfuel
    rw [fromComma_append first (by simp [stringText]), List.append_assoc, List.cons_append,
      List.append_assoc, memberTrees]
    exact readMembers_step k (readTree_chars v hv hends (by omega)) hspace
      (readMembers_chars members hmembers false rest (by omega)) first

end

/-- The whole text of a value is read as its tree, with nothing after it. -/
theorem read_chars {v : Json} (hv : v.isWhole = true) :
    Document.read v.chars = ⟨v.tree, true⟩ := by
  have hread := readTree_chars v hv (.inl rfl) (Nat.le_succ _)
  rw [List.append_nil] at hread
  simp [Document.read, hread, skipSpace]

/-! Lines. -/

theorem newline_not_mem_escaped (c : Char) : '\n' ∉ escaped c := by
  have hdigits : ∀ n < 0x20, '\n' ∉ ['\\', 'u', '0', '0', Text.hexDigit (n / 16),
      Text.hexDigit (n % 16)] := by
    decide
  unfold escaped
  split
  · decide
  split
  · decide
  split
  · decide
  split
  · decide
  split
  · decide
  split
  · decide
  split
  · decide
  split
  · next hc => exact hdigits _ hc
  · next hnewline _ _ _ _ _ => simpa [eq_comm] using hnewline

theorem newline_not_mem_stringText (s : String) : '\n' ∉ stringText s := by
  simp [stringText, newline_not_mem_escaped]

theorem newline_not_mem_whole (n : Int) : '\n' ∉ (Number.whole n).text := by
  have hdigits : '\n' ∉ Text.decimal n.natAbs := fun hmem =>
    absurd (isDigit_of_mem_decimal _ hmem) (by decide)
  rw [Number.text_whole]
  split <;> simp [hdigits]

mutual

theorem newline_not_mem_chars (v : Json) (hv : v.isWhole = true) : '\n' ∉ v.chars := by
  cases v with
  | null => decide
  | bool b => cases b <;> decide
  | number n =>
    cases n with
    | whole n => exact newline_not_mem_whole n
    | float x => cases hv
  | string s => exact newline_not_mem_stringText s
  | array items => simpa [chars] using newline_not_mem_itemsChars items hv
  | object members => simpa [chars] using newline_not_mem_membersChars members hv

theorem newline_not_mem_itemsChars (items : List Json) (hitems : areWhole items = true) :
    '\n' ∉ itemsChars items := by
  cases items with
  | nil => exact List.not_mem_nil
  | cons v items =>
    rw [areWhole, Bool.and_eq_true] at hitems
    have hv := newline_not_mem_chars v hitems.1
    have hrest := newline_not_mem_itemsChars items hitems.2
    rw [itemsChars_cons hitems.2, fromComma]
    split <;> simp [hv, hrest]

theorem newline_not_mem_membersChars (members : List (String × Json))
    (hmembers : haveWhole members = true) : '\n' ∉ membersChars members := by
  cases members with
  | nil => exact List.not_mem_nil
  | cons m members =>
    obtain ⟨k, v⟩ := m
    rw [haveWhole, Bool.and_eq_true] at hmembers
    have hv := newline_not_mem_chars v hmembers.1
    have hrest := newline_not_mem_membersChars members hmembers.2
    rw [membersChars_cons, fromComma]
    split <;> simp [hv, hrest, newline_not_mem_stringText]

end

end PhasedLoad.Json
