import PhasedLoad.Binary64

/-!
JSON values. A whole number of 64 bits stays whole, every other number is a floating-point number;
the members of an object are in the order of their names.
-/

namespace PhasedLoad

namespace Json

inductive Number
  /-- At least `-2 ^ 63` and below `2 ^ 64`. -/
  | whole (n : Int)
  | float (x : Binary64)
deriving DecidableEq

end Json

inductive Json
  | null
  | bool (b : Bool)
  | number (n : Json.Number)
  | string (s : String)
  | array (items : List Json)
  | object (members : List (String × Json))

namespace Json

instance : Inhabited Json := ⟨null⟩

/-- Ordered members with the one of name `k` set to `v`. -/
def setMember (k : String) (v : Json) : List (String × Json) → List (String × Json)
  | [] => [(k, v)]
  | (k', v') :: rest =>
    if k = k' then (k, v) :: rest
    else if k < k' then (k, v) :: (k', v') :: rest
    else (k', v') :: setMember k v rest

/-- An object with the given members, the last of several with one name. -/
def ofMembers (ms : List (String × Json)) : Json :=
  object (ms.foldl (fun acc m => setMember m.1 m.2 acc) [])

def lookup (k : String) : List (String × Json) → Option Json
  | [] => none
  | (k', v) :: rest => if k = k' then some v else lookup k rest

def isNull : Json → Bool
  | null => true
  | _ => false

end Json

end PhasedLoad
