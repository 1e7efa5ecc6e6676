/-
# Decoding

Reading typed parts out of JSON values.  A part is missing, has the wrong shape, or breaks a rule of
its own; `DecodeError` tells a wrong shape from a broken rule.

A record is read part by part.  The fields of an object that are there are decoded in the order of
their names, the items of an array in their own, and the first error counts; only then is it asked
whether a part is missing.  An array must have all parts, and nothing else.  What is decoded from a
part may use that the part is smaller than the whole.

* `Json.part`, `Json.partWith` : a part of a record;
* `Json.settle` : which error of the parts counts.
-/
import Fluent.Json.Value

namespace Fluent

/-- Why a value cannot be decoded: its shape is wrong, or a rule is broken. -/
inductive DecodeError (ε : Type)
  | shape
  | rule (error : ε)
deriving DecidableEq

/-- A decoded part. -/
abbrev Decoding (ε : Type) := Except (DecodeError ε)

namespace Decoding

variable {ε α : Type}

/-- The value has the wrong shape. -/
def wrongShape : Decoding ε α :=
  .error .shape

/-- What keeps its rule. -/
def ofRule : Except ε α → Decoding ε α
  | .ok a => .ok a
  | .error e => .error (.rule e)

/-- A part that must be there. -/
def demand : Option α → Decoding ε α
  | some a => .ok a
  | none => wrongShape

end Decoding

/-- A part of a record: its place, and what is decoded from it if it is there. -/
structure Part (ε α : Type) where
  place : Nat
  result : Decoding ε (Option α)

namespace Part

variable {ε α : Type}

/-- The place of the part, and whether it can be decoded. -/
def outcome (part : Part ε α) : Nat × Decoding ε Unit :=
  (part.place, (fun _ => ()) <$> part.result)

/-- What is decoded from a part that must be there. -/
def demand (part : Part ε α) : Decoding ε α :=
  part.result >>= .demand

/-- What is decoded from a part that may be missing. -/
def getD (part : Part ε α) (otherwise : α) : Decoding ε α :=
  (·.getD otherwise) <$> part.result

/-- What is decoded from a part that may be missing or null. -/
def join (part : Part ε (Option α)) : Decoding ε (Option α) :=
  Option.join <$> part.result

end Part

namespace Json

variable {ε α : Type}

/-- The part of a record with the given place and name. -/
def partWith (j : Json) (place : Nat) (name : String)
    (decode : (v : Json) → sizeOf v < sizeOf j → Decoding ε α) : Part ε α where
  place := place
  result :=
    match h : j.part? place name with
    | some v => some <$> decode v (sizeOf_lt_of_part? h)
    | none => .ok none

/-- The part of a record, decoded by a function of its own. -/
def part (j : Json) (place : Nat) (name : String) (decode : Json → Decoding ε α) : Part ε α :=
  j.partWith place name fun v _ => decode v

/-- Which error of a record's parts counts, if there is one.  The parts are listed in the order of
their names; in an array they are decoded in the order of their places.  An array holds no more than
the parts, and at least the first `least` of them. -/
def settle (j : Json) (parts : List (Nat × Decoding ε Unit)) (least : Nat := parts.length) :
    Decoding ε Unit :=
  match j with
  | .object _ => parts.forM (·.2)
  | .array items => do
    (List.range parts.length).forM fun place => (parts.lookup place).getD (.ok ())
    if least ≤ items.length ∧ items.length ≤ parts.length then .ok () else .wrongShape
  | _ => .wrongShape

/-- The items of an array, decoded. -/
def listWith (j : Json) (decode : (v : Json) → sizeOf v < sizeOf j → Decoding ε α) :
    Decoding ε (List α) :=
  match j, decode with
  | .array items, decode => items.attach.mapM fun v => decode v.1 (sizeOf_lt_of_mem v.2)
  | _, _ => .wrongShape

/-- A list, item by item. -/
def decodeList (decode : Json → Decoding ε α) (j : Json) : Decoding ε (List α) :=
  j.listWith fun v _ => decode v

/-- What is decoded from a value that may be null. -/
def unlessNull (j : Json) (decoded : Decoding ε α) : Decoding ε (Option α) :=
  match j with
  | .null => .ok none
  | _ => some <$> decoded

/-- A value that may be null. -/
def decodeOption (decode : Json → Decoding ε α) (j : Json) : Decoding ε (Option α) :=
  j.unlessNull (decode j)

/-- A text. -/
def decodeString : Json → Decoding ε String
  | .string s => .ok s
  | _ => .wrongShape

/-- A truth value. -/
def decodeBool : Json → Decoding ε Bool
  | .bool b => .ok b
  | _ => .wrongShape

/-- A natural number below 2^64. -/
def decodeNat : Json → Decoding ε Nat
  | .number (.integer n) => if 0 ≤ n ∧ n < UInt64.size then .ok n.toNat else .wrongShape
  | _ => .wrongShape

/-- Where a tagged value stands: on its own, or within another tagged value. -/
inductive TagPlace
  | alone
  | within
deriving DecidableEq

/-- The tag of a record: the field `type`, or the first item.  Within another tagged value the tag
may also be given by its place among the tags. -/
def decodeTag (tags : List String) (place : TagPlace) (j : Json) : Decoding ε String :=
  match j.part? 0 "type", place with
  | some (.string tag), _ => .ok tag
  | some (.number (.integer n)), .within => if 0 ≤ n then .demand tags[n.toNat]? else .wrongShape
  | _, _ => .wrongShape

/-- A name on its own: a text, or an object with that one field, which holds nothing. -/
def decodeName : Json → Decoding ε String
  | .string name => .ok name
  | .object [(name, .null)] => .ok name
  | .object [(name, .object [])] => .ok name
  | _ => .wrongShape

end Json

end Fluent
