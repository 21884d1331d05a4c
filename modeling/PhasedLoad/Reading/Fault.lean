import PhasedLoad.Duration.Span
import PhasedLoad.Json.Printer

/-!
Why a text of some format cannot be read. A text that is not even of its format is not looked into
further; one that is has something else than expected in some place.
-/

namespace PhasedLoad.Reading

inductive Format
  | json
  | yaml
deriving DecidableEq

def Format.name : Format → String
  | .json => "JSON"
  | .yaml => "YAML"

/-- A value with nothing inside it. -/
inductive Atom
  | null
  | bool (b : Bool)
  /-- Of 64 bits. -/
  | integer (n : Int)
  /-- Of more than 64 bits. -/
  | wide (n : Int)
  | float (x : Binary64)
  | string (s : String)
  /-- A value under a tag of its own. -/
  | tagged

inductive Found
  | atom (a : Atom)
  | sequence
  | mapping

inductive Expected
  /-- A record of the given name. -/
  | record (name : String)
  | string
  | field
  | key
  | list
  | unsigned16
  | unsigned32
  | unsigned64
  | duration
  | payload
  | null
  | bool
  | integer
  | float
deriving DecidableEq

namespace Expected

def name : Expected → String
  | record name => "struct " ++ name
  | string => "a string"
  | field => "field identifier"
  | key => "a string key"
  | list => "a sequence"
  | unsigned16 => "u16"
  | unsigned32 => "u32"
  | unsigned64 => "u64"
  | duration => "duration as string (e.g. 10s) or integer nanoseconds"
  | payload => "any valid JSON value"
  | null => "null"
  | bool => "a boolean"
  | integer => "an integer"
  | float => "a float"

end Expected

def ticked (s : String) : String := "`" ++ s ++ "`"

def Found.name (format : Format) : Found → String
  | .sequence => "sequence"
  | .mapping => "map"
  | .atom .null => match format with
    | .json => "null"
    | .yaml => "unit value"
  | .atom (.bool b) => "boolean " ++ ticked (if b then "true" else "false")
  | .atom (.integer n) => "integer " ++ ticked (toString n)
  | .atom (.wide n) =>
    "integer " ++ ticked (toString n) ++ if n < 0 then " as i128" else " as u128"
  | .atom (.float x) => "floating point " ++ ticked (match format with
    | .json => String.ofList (Json.Number.float x).text
    | .yaml => x.plainText)
  | .atom (.string s) => "string " ++ Text.quoted s
  | .atom .tagged => "enum"

inductive Fault
  /-- The text is not of its format, or goes beyond what is read of it. -/
  | malformed
  | wrongType (found : Found) (expected : Expected)
  | wrongValue (found : Found) (expected : Expected)
  | unknownField (name : String) (known : List String)
  | duplicateField (name : String)
  | negativeDuration
  | unusableDuration
  | longDuration
  | span (fault : Duration.SpanFault)

def Fault.detail (format : Format) : Fault → Option String
  | .malformed => none
  | .wrongType found expected =>
    some ("invalid type: " ++ found.name format ++ ", expected " ++ expected.name)
  | .wrongValue found expected =>
    some ("invalid value: " ++ found.name format ++ ", expected " ++ expected.name)
  | .unknownField name known =>
    some ("unknown field " ++ ticked name ++ ", expected " ++
      " or ".intercalate (known.map ticked))
  | .duplicateField name => some ("duplicate field " ++ ticked name)
  | .negativeDuration => some "duration must not be negative"
  | .unusableDuration => some "duration must be a finite, non-negative number"
  | .longDuration =>
    some "cannot convert float seconds to Duration: value is either too big or NaN"
  | .span fault => some fault.message

end PhasedLoad.Reading
