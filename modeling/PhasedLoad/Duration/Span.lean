import PhasedLoad.Duration
import PhasedLoad.Text.Blank
import PhasedLoad.Text.Digits
import PhasedLoad.Text.Quoted

/-!
Lengths of time as people write them: `1h 30m 5s`, `250ms`, `1.5 weeks`. Reading goes through the
text one character at a time; printing gives whole seconds in falling units, and less than a second
in one unit.
-/

namespace PhasedLoad.Duration

inductive SpanUnit
  | nanosecond | microsecond | millisecond
  | second | minute | hour | day | week | month | year
deriving DecidableEq

namespace SpanUnit

/-- A month is a twelfth of a year of 365.25 days, rounded to a hundredth of a day. -/
def nanos : SpanUnit → Nat
  | nanosecond => 1
  | microsecond => 10 ^ 3
  | millisecond => 10 ^ 6
  | second => 10 ^ 9
  | minute => 60 * 10 ^ 9
  | hour => 3600 * 10 ^ 9
  | day => 86400 * 10 ^ 9
  | week => 604800 * 10 ^ 9
  | month => 2630016 * 10 ^ 9
  | year => 31557600 * 10 ^ 9

def names : SpanUnit → List String
  | nanosecond => ["nanos", "nsec", "ns"]
  | microsecond => ["usec", "us", "µs"]
  | millisecond => ["millis", "msec", "ms"]
  | second => ["seconds", "second", "secs", "sec", "s"]
  | minute => ["minutes", "minute", "min", "mins", "m"]
  | hour => ["hours", "hour", "hr", "hrs", "h"]
  | day => ["days", "day", "d"]
  | week => ["weeks", "week", "wk", "wks", "w"]
  | month => ["months", "month", "M"]
  | year => ["years", "year", "yr", "yrs", "y"]

def all : List SpanUnit :=
  [nanosecond, microsecond, millisecond, second, minute, hour, day, week, month, year]

def ofName? (name : String) : Option SpanUnit := all.find? (·.names.contains name)

def countsNanos : SpanUnit → Bool
  | nanosecond | microsecond | millisecond => true
  | _ => false

/-- The unit that a fraction of this one has to be a whole number of, if it may have one: an hour
and more are split into seconds, less than that into nanoseconds. -/
def fractionStep : SpanUnit → Option Nat
  | nanosecond => none
  | microsecond | millisecond | second | minute => some 1
  | _ => some (10 ^ 9)

end SpanUnit

/-- Why a text is no length of time; offsets count bytes. -/
inductive SpanFault
  | empty
  | numberExpected (offset : Nat)
  | invalidCharacter (offset : Nat)
  | unitNeeded (value : Nat)
  | unknownUnit (name : String)
  | tooLarge
deriving DecidableEq

def SpanFault.message : SpanFault → String
  | .empty => "value was empty"
  | .numberExpected offset => "expected number at " ++ toString offset
  | .invalidCharacter offset => "invalid character at " ++ toString offset
  | .unitNeeded value =>
    "time unit needed, for example " ++ toString value ++ "sec or " ++ toString value ++ "ms"
  | .unknownUnit name =>
    "unknown time unit " ++ Text.quoted name ++
      ", supported units: ns, us/µs, ms, sec, min, hours, days, weeks, months, years " ++
      "(and few variations)"
  | .tooLarge =>
    "number is too large or cannot be represented without a lack of precision " ++
      "(values below 1ns are not supported)"

structure SpanFraction where
  numerator : Nat
  denominator : Nat
deriving DecidableEq

/-- What has been read of the term under way. -/
inductive SpanMark
  /-- No digit of it; the term began at this byte. -/
  | start (offset : Nat)
  | number (n : Nat)
  /-- Digits after the point, and where the next fault is reported. -/
  | fraction (n : Nat) (f : SpanFraction) (offset : Nat)
  /-- Letters of the unit, last first. -/
  | unit (n : Nat) (f : Option SpanFraction) (letters : List Char)

def isUnitLetter (c : Char) : Bool :=
  ('a' ≤ c && c ≤ 'z') || ('A' ≤ c && c ≤ 'Z') || c == 'µ'

def within64 (n : Nat) : Except SpanFault Nat := if n < 2 ^ 64 then .ok n else .error .tooLarge

/-- A total with `n` units of `unit` more; the nanoseconds of small units fit 64 bits together with
those of the total beyond its whole seconds. -/
def addUnits (total : Duration) (unit : SpanUnit) (n : Nat) : Except SpanFault Duration := do
  if unit.countsNanos then
    let part ← within64 (n * unit.nanos)
    let _ ← within64 (total.subsecNanos + part)
    match ofNanos? (total.nanos + part) with
    | some d => .ok d
    | none => .error .tooLarge
  else
    let part ← within64 (n * (unit.nanos / 10 ^ 9))
    match ofNanos? (total.nanos + part * 10 ^ 9) with
    | some d => .ok d
    | none => .error .tooLarge

/-- A total with a fraction of `unit` more, which has to be a whole number of that unit's steps. -/
def addFraction (total : Duration) (unit : SpanUnit) (f : SpanFraction) :
    Except SpanFault Duration := do
  match unit.fractionStep with
  | none => .error .tooLarge
  | some step =>
    let product ← within64 (f.numerator * (unit.nanos / step))
    if product % f.denominator = 0 then
      let part := product / f.denominator
      if step = 1 then
        let _ ← within64 (total.subsecNanos + part)
      match ofNanos? (total.nanos + part * step) with
      | some d => .ok d
      | none => .error .tooLarge
    else .error .tooLarge

def addTerm (total : Duration) (n : Nat) (f : Option SpanFraction) (letters : List Char) :
    Except SpanFault Duration := do
  match SpanUnit.ofName? (String.ofList letters) with
  | none => .error (if letters.isEmpty then .unitNeeded n else .unknownUnit (String.ofList letters))
  | some unit =>
    let total ← addUnits total unit n
    match f with
    | none => .ok total
    | some f => addFraction total unit f

/-- Reads on from byte `offset`, with the total of the terms before it if there was one. -/
def readFrom (mark : SpanMark) (total : Option Duration) (offset : Nat) :
    List Char → Except SpanFault Duration
  | [] => match mark with
    | .start _ => match total with
      | none => .error .empty
      | some d => .ok d
    | .number n => addTerm (total.getD zero) n none []
    | .fraction n f at_ =>
      if f.denominator = 1 then .error (.invalidCharacter at_)
      else addTerm (total.getD zero) n (some f) []
    | .unit n f letters => addTerm (total.getD zero) n f letters.reverse
  | c :: cs =>
    let next := offset + c.utf8Size
    match mark with
    | .start from_ =>
      if Text.isDigit c then readFrom (.number (Text.digitVal c)) total next cs
      else if Text.isBlank c then readFrom (.start from_) total next cs
      else .error (.numberExpected from_)
    | .number n =>
      if Text.isDigit c then
        if n * 10 + Text.digitVal c < 2 ^ 64 then
          readFrom (.number (n * 10 + Text.digitVal c)) total next cs
        else .error .tooLarge
      else if Text.isBlank c then readFrom (.number n) total next cs
      else if isUnitLetter c then readFrom (.unit n none [c]) total next cs
      else if c = '.' then readFrom (.fraction n ⟨0, 1⟩ offset) total next cs
      else .error (.invalidCharacter offset)
    | .fraction n f at_ =>
      if Text.isDigit c then
        if f.denominator * 10 < 2 ^ 64 ∧ f.numerator * 10 + Text.digitVal c < 2 ^ 64 then
          readFrom (.fraction n ⟨f.numerator * 10 + Text.digitVal c, f.denominator * 10⟩ next)
            total next cs
        else .error .tooLarge
      else if Text.isBlank c then readFrom (.fraction n f next) total next cs
      else if isUnitLetter c then
        if f.denominator = 1 then .error (.invalidCharacter at_)
        else readFrom (.unit n (some f) [c]) total next cs
      else .error (.invalidCharacter at_)
    | .unit n f letters =>
      if Text.isDigit c then
        match addTerm (total.getD zero) n f letters.reverse with
        | .ok d => readFrom (.number (Text.digitVal c)) (some d) next cs
        | .error e => .error e
      else if Text.isBlank c then
        match addTerm (total.getD zero) n f letters.reverse with
        | .ok d => readFrom (.start next) (some d) next cs
        | .error e => .error e
      else if isUnitLetter c then readFrom (.unit n f (c :: letters)) total next cs
      else .error (.invalidCharacter offset)

/-- The length that a text writes; `0` needs no unit. -/
def ofSpan (s : List Char) : Except SpanFault Duration :=
  if s = ['0'] then .ok zero else readFrom (.start 0) none 0 s

/-- `n` divided by `unit`, to the nearest whole number, a half going up. -/
def roundHalfUp (n unit : Nat) : Nat := (n + unit / 2) / unit

/-- The length as one rounded number of seconds, milliseconds or microseconds. -/
def single (d : Duration) : String :=
  if 10 ^ 9 ≤ d.nanos then toString (roundHalfUp d.nanos (10 ^ 9)) ++ "s"
  else if 10 ^ 6 ≤ d.nanos then toString (roundHalfUp d.nanos (10 ^ 6)) ++ "ms"
  else toString (roundHalfUp d.nanos 1000) ++ "us"

def longItem (name : String) (n : Nat) : List String :=
  if n = 0 then [] else [toString n ++ name ++ if n > 1 then "s" else ""]

def shortItem (name : String) (n : Nat) : List String :=
  if n = 0 then [] else [toString n ++ name]

def wholeSpan (secs : Nat) : String :=
  let inYear := secs % 31557600
  let inMonth := inYear % 2630016
  let inDay := inMonth % 86400
  if secs = 0 then "0s"
  else " ".intercalate
    (longItem "year" (secs / 31557600) ++ longItem "month" (inYear / 2630016) ++
      longItem "day" (inMonth / 86400) ++ shortItem "h" (inDay / 3600) ++
      shortItem "m" (inDay % 3600 / 60) ++ shortItem "s" (inDay % 60))

/-- The whole seconds in falling units, or less than a second as one rounded number. -/
def span (d : Duration) : String :=
  if d.nanos < 10 ^ 9 then single d else wholeSpan d.secs

end PhasedLoad.Duration
