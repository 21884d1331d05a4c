import PhasedLoad.Target

/-!
A target that answers from a script: the first rule whose text occurs in a request gives its replies
in turn.
-/

namespace PhasedLoad.Target

/-- A rule for the requests that contain a text. -/
structure Rule where
  text : List Char
  /-- At least one is needed for the rule to answer. -/
  replies : List Reply

namespace Rule

def applies (r : Rule) (body : List Char) : Bool := r.text.isPrefixOf body || match body with
  | [] => false
  | _ :: rest => r.applies rest

def reply (r : Rule) (k : Nat) : Option Reply := r.replies[k % r.replies.length]?

end Rule

/-- The rules, each with the number of its calls so far. -/
abbrev Script := List (Rule × Nat)

namespace Script

def ofRules (rules : List Rule) : Script := rules.map (·, 0)

/-- The reply to a request that no rule is for: success, at once. -/
def noRule : Reply := .ofResponse .zero 200 []

def answer (body : List Char) : Script → Reply × Script
  | [] => (noRule, [])
  | (rule, calls) :: rest =>
    if rule.applies body then ((rule.reply calls).getD noRule, (rule, calls + 1) :: rest)
    else
      let (reply, rest) := answer body rest
      (reply, (rule, calls) :: rest)

end Script

def scripted : Target Script :=
  Target.patient ⟨fun call script => script.answer call.body.toList⟩

theorem honours_scripted : scripted.Honours := honours_patient _

end PhasedLoad.Target
