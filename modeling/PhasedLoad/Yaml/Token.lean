import PhasedLoad.Yaml.Scalar

/-!
The tokens of a YAML text. Blocks are marked by indentation, so a scalar is known to be a key only
when the colon after it is seen: until then no later token is final. A mistake in the text therefore
also hides the tokens that were still waiting.
-/

namespace PhasedLoad.Yaml

inductive Style
  | plain | literal | quoted
deriving DecidableEq

inductive Token
  | streamEnd
  /-- Whether it names a version that is read here. -/
  | versionDirective (known : Bool)
  | tagDirective (handle lead : String)
  | documentStart
  | documentEnd
  | blockSequenceStart
  | blockMappingStart
  | blockEnd
  | flowSequenceStart
  | flowSequenceEnd
  | flowMappingStart
  | flowMappingEnd
  | blockEntry
  | flowEntry
  | key
  | value
  | alias (name : String)
  | anchor (name : String)
  | tag (handle suffix : String)
  | scalar (text : String) (style : Style)
deriving DecidableEq

/-- A place where a key without a question mark may begin, by the number of its token. -/
structure PendingKey where
  required : Bool
  token : Nat
  index : Nat
  line : Nat
  column : Nat

structure Scanner where
  cursor : Cursor
  /-- Final tokens, last first. -/
  final : List Token
  /-- Tokens that may still get a key in front of them, in order. -/
  waiting : List Token
  /-- One for each open flow collection and one for the blocks around them, innermost first. -/
  keys : List (Option PendingKey)
  flowDepth : Nat
  indent : Int
  outerIndents : List Int
  keyAllowed : Bool
  ended : Bool

namespace Scanner

def ofText (cs : List Char) : Scanner :=
  ⟨.ofText cs, [], [], [none], 0, -1, [], true, false⟩

def inFlow (s : Scanner) : Bool := s.flowDepth > 0

def firstWaiting (s : Scanner) : Nat := s.final.length

def push (s : Scanner) (t : Token) : Scanner := { s with waiting := s.waiting ++ [t] }

def insert (s : Scanner) (n : Nat) (t : Token) : Scanner :=
  let k := n - s.firstWaiting
  { s with waiting := s.waiting.take k ++ t :: s.waiting.drop k }

/-- Without the keys that can no longer be keys: those of earlier lines and of 1024 characters
before. A required one is a mistake. -/
def dropStale? (s : Scanner) : Option Scanner := do
  let keys ← s.keys.mapM fun k => match k with
    | none => some none
    | some p =>
      if p.line < s.cursor.line ∨ p.index + 1024 < s.cursor.index then
        if p.required then none else some none
      else some (some p)
  some { s with keys := keys }

/-- Without the pending key of this level; a required one is a mistake. -/
def dropKey? (s : Scanner) : Option Scanner :=
  match s.keys with
  | some p :: rest => if p.required then none else some { s with keys := none :: rest }
  | _ => some s

def saveKey? (s : Scanner) : Option Scanner :=
  if s.keyAllowed then do
    let required := !s.inFlow && s.indent == (s.cursor.column : Int)
    let p : PendingKey := ⟨required, s.firstWaiting + s.waiting.length, s.cursor.index,
      s.cursor.line, s.cursor.column⟩
    let s ← s.dropKey?
    some { s with keys := some p :: s.keys.drop 1 }
  else some s

/-- Opens a block at `column` if it is further in, with its token in front of token `n` or at the
end. -/
def openBlock (s : Scanner) (column : Nat) (n : Option Nat) (t : Token) : Scanner :=
  if s.inFlow ∨ ¬ s.indent < (column : Int) then s
  else
    let s := { s with outerIndents := s.indent :: s.outerIndents, indent := column }
    match n with
    | some n => s.insert n t
    | none => s.push t

def closeBlocks (s : Scanner) (column : Int) : Scanner :=
  if s.inFlow then s else close s column s.outerIndents
where
  close (s : Scanner) (column : Int) : List Int → Scanner
    | [] => s
    | outer :: rest =>
      if s.indent > column then
        close { s.push .blockEnd with indent := outer, outerIndents := rest } column rest
      else s

def allow (s : Scanner) (b : Bool) : Scanner := { s with keyAllowed := b }

def advance (s : Scanner) (n : Nat) : Scanner := { s with cursor := s.cursor.skip n }

/-- Past blanks, comments and line breaks; a new line may begin a key outside flow collections. -/
def skipToToken (s : Scanner) : Nat → Scanner
  | 0 => s
  | fuel + 1 =>
    let c := s.cursor
    let c := if c.column = 0 ∧ c.at_ 0 '\uFEFF' then c.next else c
    let c := c.skipWhile fun ch => ch == ' ' || ((s.inFlow || !s.keyAllowed) && ch == '\t')
    let c := if c.at_ 0 '#' then c.skipWhile (fun ch => !isBreak ch) else c
    if c.breakAt 0 then
      skipToToken { s with cursor := c.next, keyAllowed := s.keyAllowed || !s.inFlow } fuel
    else { s with cursor := c }

def directive? (c : Cursor) : Option (Token × Cursor) := do
  let c := c.next
  let name := c.takeWhile isWordChar
  let c := c.skipWhile isWordChar
  if name.isEmpty ∨ !c.blankAt 0 then none
  else if name = ['Y', 'A', 'M', 'L'] then do
    let c := c.skipWhile isBlank
    let major := c.takeWhile Text.isDigit
    let c := c.skipWhile Text.isDigit
    if !c.at_ 0 '.' then none
    else
      let c := c.next
      let minor := c.takeWhile Text.isDigit
      let c := c.skipWhile Text.isDigit
      let major ← if major.length ≤ 9 then Text.number? 10 major else none
      let minor ← if minor.length ≤ 9 then Text.number? 10 minor else none
      let c ← c.endLine?
      some (.versionDirective (major = 1 ∧ (minor = 1 ∨ minor = 2)), c)
  else if name = ['T', 'A', 'G'] then do
    let c := c.skipWhile isBlank
    let (handle, c) ← tagHandle? c
    if handle ≠ ['!'] ∧ handle.getLast? ≠ some '!' then none
    else if !(c.peek 0).any isBlank then none
    else
      let c := c.skipWhile isBlank
      let (lead, c) ← tagUri? true c
      if lead.isEmpty ∨ !c.blankAt 0 then none
      else
        let c ← c.endLine?
        some (.tagDirective (String.ofList handle) (String.ofList lead), c)
  else none
where
  /-- An exclamation mark, word characters, and a second mark if there is one. -/
  tagHandle? (c : Cursor) : Option (List Char × Cursor) :=
    if c.at_ 0 '!' then
      let c := c.next
      let word := c.takeWhile isWordChar
      let c := c.skipWhile isWordChar
      if c.at_ 0 '!' then some ('!' :: word ++ ['!'], c.next) else some ('!' :: word, c)
    else none
  isUriChar (wide : Bool) (ch : Char) : Bool :=
    isWordChar ch || ";/?:@&=+$.!~*'()%".contains ch ||
      (wide && (ch == ',' || ch == '[' || ch == ']'))
  /-- Bytes by two digits after a percent sign become the characters they encode. -/
  unescape? : List Char → Option (List UInt8)
    | [] => some []
    | '%' :: a :: b :: cs => do
      let n ← Text.number? 16 [a, b]
      let rest ← unescape? cs
      some (UInt8.ofNat n :: rest)
    | '%' :: _ => none
    | ch :: cs => do
      let rest ← unescape? cs
      some (Text.utf8 ch.toString ++ rest)
  tagUri? (wide : Bool) (c : Cursor) : Option (List Char × Cursor) := do
    let raw := c.takeWhile (isUriChar wide)
    let bytes ← unescape? raw
    let chars ← Text.utf8? bytes
    some (chars, c.skipWhile (isUriChar wide))

/-- A tag: in full between angle brackets, with a handle, or local. -/
def tag? (flow : Bool) (c : Cursor) : Option (Token × Cursor) := do
  let (t, c) ←
    if c.at_ 1 '<' then do
      let (uri, c) ← directive?.tagUri? true (c.skip 2)
      if uri.isEmpty ∨ !c.at_ 0 '>' then none
      else some (Token.tag "" (String.ofList uri), c.next)
    else do
      let (handle, after) ← directive?.tagHandle? c
      if handle.length > 1 ∧ handle.getLast? = some '!' then do
        let (suffix, c) ← directive?.tagUri? false after
        if suffix.isEmpty then none
        else some (Token.tag (String.ofList handle) (String.ofList suffix), c)
      else do
        let (suffix, c) ← directive?.tagUri? false after
        let suffix := handle.drop 1 ++ suffix
        if suffix.isEmpty then some (Token.tag "" "!", c)
        else some (Token.tag "!" (String.ofList suffix), c)
  if (flow ∧ c.at_ 0 ',') ∨ c.blankAt 0 then some (t, c) else none

def anchorName? (c : Cursor) : Option (String × Cursor) :=
  let c := c.next
  let name := c.takeWhile isWordChar
  let c := c.skipWhile isWordChar
  if name.isEmpty then none
  else if c.blankAt 0 ∨ (c.peek 0).any (fun ch => "?:,]\x7d%@`".contains ch) then
    some (String.ofList name, c)
  else none

def plainBegins (flow : Bool) (c : Cursor) : Bool :=
  match c.peek 0 with
  | none => false
  | some ch =>
    (!isBlank ch && !isBreak ch && !"-?:,[]\x7b\x7d#&*!|>'\"%@`".contains ch) ||
      (ch == '-' && !(c.peek 1).any isBlank) ||
      (!flow && (ch == '?' || ch == ':') && !c.blankAt 1)

def scanOne? (s : Scanner) : Option Scanner := do
  let s ← (s.skipToToken (s.cursor.rest.length + 1)).dropStale?
  let s := s.closeBlocks s.cursor.column
  let c := s.cursor
  let flow := s.inFlow
  match c.peek 0 with
  | none =>
    let c := if c.column = 0 then c else { c with column := 0, line := c.line + 1 }
    let s ← ({ s with cursor := c }.closeBlocks (-1)).dropKey?
    some { (s.allow false).push .streamEnd with ended := true }
  | some ch =>
    if c.column = 0 ∧ ch = '%' then do
      let s ← (s.closeBlocks (-1)).dropKey?
      let (t, c) ← directive? c
      some { (s.allow false).push t with cursor := c }
    else if c.atDocumentMark then do
      let s ← (s.closeBlocks (-1)).dropKey?
      some (((s.allow false).push (if ch = '-' then .documentStart else .documentEnd)).advance 3)
    else if ch = '[' ∨ ch = '\x7b' then do
      let s ← s.saveKey?
      let s := { s with keys := none :: s.keys, flowDepth := s.flowDepth + 1 }
      some (((s.allow true).push
        (if ch = '[' then .flowSequenceStart else .flowMappingStart)).advance 1)
    else if ch = ']' ∨ ch = '\x7d' then do
      let s ← s.dropKey?
      let s := if flow then { s with keys := s.keys.drop 1, flowDepth := s.flowDepth - 1 } else s
      some (((s.allow false).push
        (if ch = ']' then .flowSequenceEnd else .flowMappingEnd)).advance 1)
    else if ch = ',' then do
      let s ← s.dropKey?
      some (((s.allow true).push .flowEntry).advance 1)
    else if ch = '-' ∧ c.blankAt 1 then do
      let s ← if flow then some s
        else if s.keyAllowed then some (s.openBlock c.column none .blockSequenceStart)
        else none
      let s ← s.dropKey?
      some (((s.allow true).push .blockEntry).advance 1)
    else if ch = '?' ∧ (flow ∨ c.blankAt 1) then do
      let s ← if flow then some s
        else if s.keyAllowed then some (s.openBlock c.column none .blockMappingStart)
        else none
      let s ← s.dropKey?
      some (((s.allow !flow).push .key).advance 1)
    else if ch = ':' ∧ (flow ∨ c.blankAt 1) then do
      let s ← match s.keys with
        | some p :: rest =>
          let s := s.insert p.token .key
          let s := s.openBlock p.column (some p.token) .blockMappingStart
          some ({ s with keys := none :: rest }.allow false)
        | _ =>
          if flow then some (s.allow false)
          else if s.keyAllowed then
            some ((s.openBlock c.column none .blockMappingStart).allow true)
          else none
      some ((s.push .value).advance 1)
    else if ch = '*' ∨ ch = '&' then do
      let s ← s.saveKey?
      let (name, c) ← anchorName? c
      let token := if ch = '*' then .alias name else .anchor name
      some { (s.allow false).push token with cursor := c }
    else if ch = '!' then do
      let s ← s.saveKey?
      let (t, c) ← tag? flow c
      some { (s.allow false).push t with cursor := c }
    else if (ch = '|' ∨ ch = '>') ∧ !flow then do
      let s ← s.dropKey?
      let (text, c) ← blockScalar? (ch = '|') s.indent c.next
      let style := if ch = '|' then Style.literal else Style.quoted
      some { (s.allow true).push (.scalar text style) with cursor := c }
    else if ch = '\'' ∨ ch = '"' then do
      let s ← s.saveKey?
      let (chars, c) ← quotedFrom (ch = '\'') [] c.next (c.rest.length + 1)
      some { (s.allow false).push (.scalar (String.ofList chars.reverse) .quoted) with cursor := c }
    else if plainBegins flow c then do
      let s ← s.saveKey?
      let (chars, c, lineEnded) ←
        plainFrom flow (s.indent + 1) [] Gap.empty c (c.rest.length + 1)
      some { (s.allow lineEnded).push (.scalar (String.ofList chars.reverse) .plain) with
        cursor := c }
    else none

/-- Makes the first waiting tokens final, up to one in front of which a key may still come; also
whether no mistake was found. -/
def release (s : Scanner) : List Token → Scanner × Bool
  | [] => ({ s with waiting := [] }, true)
  | t :: rest =>
    match { s with waiting := t :: rest }.dropStale? with
    | none => (s, false)
    | some s =>
      if s.keys.any (fun k => k.any (·.token == s.firstWaiting)) then (s, true)
      else release { s with final := t :: s.final, waiting := rest } rest

def run (s : Scanner) : Nat → List Token × Bool
  | 0 => (s.final.reverse, false)
  | fuel + 1 =>
    match s.scanOne? with
    | none => (s.final.reverse, false)
    | some s =>
      let (s, sound) := s.release s.waiting
      if s.ended ∨ !sound then (s.final.reverse, sound)
      else s.run fuel

end Scanner

/-- The tokens of a text before its first mistake, and whether it has none. -/
def Token.scan (text : List Char) : List Token × Bool :=
  if text.all isAllowed then
    let cs := uniformBreaks (match text with
      | '\uFEFF' :: cs => cs
      | cs => cs)
    (Scanner.ofText cs).run (2 * cs.length + 4)
  else ([], false)

end PhasedLoad.Yaml
