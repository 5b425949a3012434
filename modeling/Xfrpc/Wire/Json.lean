import Mathlib.Data.Int.Notation

namespace Xfrpc.Wire

/-- A parsed document. A number has the text that `"%g"` makes of it and the value that
a cast to `int` does. -/
inductive Json
  | null
  | bool (b : Bool)
  | number (text : String) (value : ℤ)
  | string (s : String)
  | array (items : List Json)
  | object (fields : List (String × Json))

/-- `json_object_object_get_ex`, which also finds a key with the value null. -/
def Json.getEx (j : Json) (key : String) : Option Json :=
  match j with
  | .object fields => (fields.find? fun f ↦ f.1 = key).map Prod.snd
  | _ => none

/-- `json_object_get_string`; none is the NULL it returns for null, arrays and
objects. -/
def Json.getString : Json → Option String
  | .string s => some s
  | .number text _ => some text
  | .bool true => some "true"
  | .bool false => some "false"
  | .null | .array _ | .object _ => none

/-- `json_object_get_int`; none for what is not a number, whose value is a cast of
NaN. -/
def Json.getInt : Json → Option ℤ
  | .number _ value => some value
  | _ => none

/-- The value has a text to be copied. -/
def Json.hasText (j : Json) : Bool := j.getString.isSome

end Xfrpc.Wire
