import PhasedLoad.Yaml.Token

/-!
The nodes of a YAML text in the order in which they begin and end. The grammar is run on tokens with
a stack of what is expected after the node under way; it stops at the first token that has no place.
-/

namespace PhasedLoad.Yaml

structure Properties where
  anchor : Option String
  tag : Option String

def Properties.none : Properties := ⟨.none, .none⟩

inductive Event
  | documentStart
  | documentEnd
  | streamEnd
  | alias (name : String)
  | scalar (props : Properties) (text : String) (style : Style)
  | sequenceStart (props : Properties)
  | sequenceEnd
  | mappingStart (props : Properties)
  | mappingEnd

def Event.absent : Event := .scalar .none "" .plain

inductive Expect
  | document (first : Bool)
  | content
  | documentEnd
  | blockNode
  | sequenceEntry (first : Bool)
  | indentlessEntry
  | mappingKey (first : Bool)
  | mappingValue
  | flowEntry (first : Bool)
  | flowPairKey
  | flowPairValue
  | flowPairEnd
  | flowKey (first : Bool)
  | flowValue
  | flowNoValue
  | nothing

/-- The grammar between two events: the tokens left, what is expected, what is expected after the
nodes around, innermost first, and the short forms of tags. -/
structure Grammar where
  tokens : List Token
  expect : Expect
  after : List Expect
  handles : List (String × String)

namespace Grammar

/-- Goes on with what was expected after the node that has ended. -/
def pop (g : Grammar) : Grammar :=
  match g.after with
  | e :: rest => { g with expect := e, after := rest }
  | [] => { g with expect := .nothing }

def drop (g : Grammar) : Grammar := { g with tokens := g.tokens.drop 1 }

def expecting (g : Grammar) (e : Expect) : Grammar := { g with expect := e }

def pushed (g : Grammar) (e : Expect) : Grammar := { g with after := e :: g.after }

def tagOf? (g : Grammar) (handle suffix : String) : Option String :=
  if handle = "" then some suffix
  else match g.handles.lookup handle with
    | some lead => some (lead ++ suffix)
    | none =>
      if handle = "!" then some ("!" ++ suffix)
      else if handle = "!!" then some ("tag:yaml.org,2002:" ++ suffix)
      else none

def properties? (g : Grammar) : Option (Properties × Grammar) := do
  let tagged (g : Grammar) : Option (Option String × Grammar) :=
    match g.tokens with
    | .tag handle suffix :: _ => do
      let t ← g.tagOf? handle suffix
      some (some t, g.drop)
    | _ => some (none, g)
  match g.tokens with
  | .anchor name :: _ => do
    let (tag, g) ← tagged g.drop
    some (⟨some name, tag⟩, g)
  | .tag _ _ :: _ => do
    let (tag, g) ← tagged g
    match g.tokens with
    | .anchor name :: _ => some (⟨some name, tag⟩, g.drop)
    | _ => some (⟨none, tag⟩, g)
  | _ => some (.none, g)

/-- A node, in a block or not, and with a sequence at the indentation around it or not. -/
def node? (g : Grammar) (block indentless : Bool) : Option (Event × Grammar) := do
  match g.tokens with
  | .alias name :: _ => some (.alias name, g.drop.pop)
  | _ =>
    let (props, g) ← g.properties?
    match g.tokens with
    | [] => none
    | t :: _ =>
      match t, block, indentless with
      | .blockEntry, _, true => some (.sequenceStart props, g.expecting .indentlessEntry)
      | .scalar text style, _, _ => some (.scalar props text style, g.drop.pop)
      | .flowSequenceStart, _, _ => some (.sequenceStart props, g.expecting (.flowEntry true))
      | .flowMappingStart, _, _ => some (.mappingStart props, g.expecting (.flowKey true))
      | .blockSequenceStart, true, _ =>
        some (.sequenceStart props, g.expecting (.sequenceEntry true))
      | .blockMappingStart, true, _ => some (.mappingStart props, g.expecting (.mappingKey true))
      | _, _, _ =>
        if props.anchor.isSome ∨ props.tag.isSome then some (.scalar props "" .plain, g.pop)
        else none

def directives? (g : Grammar) (versioned : Bool) : List Token → Option Grammar
  | .versionDirective known :: rest =>
    if versioned ∨ !known then none else directives? { g with tokens := rest } true rest
  | .tagDirective handle lead :: rest =>
    if (g.handles.lookup handle).isSome then none
    else
      directives? { g with tokens := rest, handles := (handle, lead) :: g.handles } versioned rest
  | ts => some { g with tokens := ts }

def step? (g : Grammar) : Option (Event × Grammar) :=
  match g.expect with
  | .nothing => none
  | .document first =>
    let g := if first then g else { g with tokens := g.tokens.dropWhile (· == .documentEnd) }
    match g.tokens with
    | [] => none
    | .streamEnd :: _ => some (.streamEnd, g.drop.expecting .nothing)
    | t :: _ => do
      let directive := match t with
        | .versionDirective _ | .tagDirective _ _ | .documentStart => true
        | _ => false
      if first ∧ !directive then some (.documentStart, (g.pushed .documentEnd).expecting .blockNode)
      else
        let g ← g.directives? false g.tokens
        match g.tokens with
        | .documentStart :: _ =>
          some (.documentStart, (g.drop.pushed .documentEnd).expecting .content)
        | _ => none
  | .content => match g.tokens with
    | [] => none
    | .versionDirective _ :: _ | .tagDirective _ _ :: _ | .documentStart :: _ | .documentEnd :: _
    | .streamEnd :: _ => some (.absent, g.pop)
    | _ => g.node? true false
  | .documentEnd => match g.tokens with
    | [] => none
    | .documentEnd :: _ =>
      some (.documentEnd, { g.drop with handles := [], expect := .document false })
    | _ => some (.documentEnd, { g with handles := [], expect := .document false })
  | .blockNode => g.node? true false
  | .sequenceEntry first =>
    let g := if first then g.drop else g
    match g.tokens with
    | .blockEntry :: [] => none
    | .blockEntry :: .blockEntry :: _ | .blockEntry :: .blockEnd :: _ =>
      some (.absent, g.drop.expecting (.sequenceEntry false))
    | .blockEntry :: _ => (g.drop.pushed (.sequenceEntry false)).node? true false
    | .blockEnd :: _ => some (.sequenceEnd, g.drop.pop)
    | _ => none
  | .indentlessEntry => match g.tokens with
    | [] => none
    | .blockEntry :: [] => none
    | .blockEntry :: .blockEntry :: _ | .blockEntry :: .key :: _ | .blockEntry :: .value :: _
    | .blockEntry :: .blockEnd :: _ => some (.absent, g.drop.expecting .indentlessEntry)
    | .blockEntry :: _ => (g.drop.pushed .indentlessEntry).node? true false
    | _ => some (.sequenceEnd, g.pop)
  | .mappingKey first =>
    let g := if first then g.drop else g
    match g.tokens with
    | .key :: [] => none
    | .key :: .key :: _ | .key :: .value :: _ | .key :: .blockEnd :: _ =>
      some (.absent, g.drop.expecting .mappingValue)
    | .key :: _ => (g.drop.pushed .mappingValue).node? true true
    | .blockEnd :: _ => some (.mappingEnd, g.drop.pop)
    | _ => none
  | .mappingValue => match g.tokens with
    | [] => none
    | .value :: [] => none
    | .value :: .key :: _ | .value :: .value :: _ | .value :: .blockEnd :: _ =>
      some (.absent, g.drop.expecting (.mappingKey false))
    | .value :: _ => (g.drop.pushed (.mappingKey false)).node? true true
    | _ => some (.absent, g.expecting (.mappingKey false))
  | .flowEntry first =>
    let g := if first then g.drop else g
    match g.tokens with
    | [] => none
    | .flowSequenceEnd :: _ => some (.sequenceEnd, g.drop.pop)
    | t :: _ => do
      let g ← if first then some g else if t = .flowEntry then some g.drop else none
      match g.tokens with
      | [] => none
      | .key :: _ => some (.mappingStart .none, g.drop.expecting .flowPairKey)
      | .flowSequenceEnd :: _ => some (.sequenceEnd, g.drop.pop)
      | _ => (g.pushed (.flowEntry false)).node? false false
  | .flowPairKey => match g.tokens with
    | [] => none
    | .value :: _ | .flowEntry :: _ | .flowSequenceEnd :: _ =>
      some (.absent, g.drop.expecting .flowPairValue)
    | _ => (g.pushed .flowPairValue).node? false false
  | .flowPairValue => match g.tokens with
    | [] => none
    | .value :: [] => none
    | .value :: .flowEntry :: _ | .value :: .flowSequenceEnd :: _ =>
      some (.absent, g.drop.expecting .flowPairEnd)
    | .value :: _ => (g.drop.pushed .flowPairEnd).node? false false
    | _ => some (.absent, g.expecting .flowPairEnd)
  | .flowPairEnd => match g.tokens with
    | [] => none
    | _ => some (.mappingEnd, g.expecting (.flowEntry false))
  | .flowKey first =>
    let g := if first then g.drop else g
    match g.tokens with
    | [] => none
    | .flowMappingEnd :: _ => some (.mappingEnd, g.drop.pop)
    | t :: _ => do
      let g ← if first then some g else if t = .flowEntry then some g.drop else none
      match g.tokens with
      | [] => none
      | .key :: [] => none
      | .key :: .value :: _ | .key :: .flowEntry :: _ | .key :: .flowMappingEnd :: _ =>
        some (.absent, g.drop.expecting .flowValue)
      | .key :: _ => (g.drop.pushed .flowValue).node? false false
      | .flowMappingEnd :: _ => some (.mappingEnd, g.drop.pop)
      | _ => (g.pushed .flowNoValue).node? false false
  | .flowValue => match g.tokens with
    | [] => none
    | .value :: [] => none
    | .value :: .flowEntry :: _ | .value :: .flowMappingEnd :: _ =>
      some (.absent, g.drop.expecting (.flowKey false))
    | .value :: _ => (g.drop.pushed (.flowKey false)).node? false false
    | _ => some (.absent, g.expecting (.flowKey false))
  | .flowNoValue => match g.tokens with
    | [] => none
    | _ => some (.absent, g.expecting (.flowKey false))

def events (g : Grammar) : Nat → List Event
  | 0 => []
  | fuel + 1 => match g.step? with
    | none => []
    | some (e, g) => e :: g.events fuel

end Grammar

/-- The events of a text up to its first mistake; without one they end with the stream. -/
def Event.ofText (text : List Char) : List Event :=
  let tokens := (Token.scan text).1
  Grammar.events ⟨tokens, .document true, [], []⟩ (4 * tokens.length + 8)

end PhasedLoad.Yaml
