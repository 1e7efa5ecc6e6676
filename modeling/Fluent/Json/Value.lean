/-
# JSON values

A JSON value with the fields of its objects in order.  Numbers are integers or written with a
fraction or an exponent; the two are told apart.  A record is an object, which names its parts, or an
array, which has them at their places.

* `sizeOf_lt_of_part?`, `sizeOf_lt_of_mem` : parts are smaller than the whole, so that reading a
  value part by part ends.
-/

namespace Fluent

/-- A number as it was written: an integer, or `digits · 10 ^ exponent` with a point or an
exponent. -/
inductive JsonNumber
  | integer (n : Int)
  | real (digits : Int) (exponent : Int)
deriving DecidableEq

/-- A JSON value. -/
inductive Json
  | null
  | bool (b : Bool)
  | number (n : JsonNumber)
  | string (s : String)
  | array (items : List Json)
  | object (fields : List (String × Json))

instance : Inhabited Json :=
  ⟨.null⟩

namespace Json

/-- The integer as a value. -/
def ofNat (n : Nat) : Json :=
  .number (.integer n)

/-- A value that may be missing. -/
def ofOption {α : Type} (encode : α → Json) : Option α → Json
  | none => .null
  | some a => encode a

/-- The object of the given fields.  If a name is missing, so that it cannot be told which fields
there are, the object stands for null. -/
def ofFields (fields : List (Option String × Json)) : Json :=
  match fields.mapM fun (name, value) => name.map (·, value) with
  | some fields => .object fields
  | none => .null

/-- The value of an object's first field of the given name. -/
def field? (name : String) : Json → Option Json
  | .object fields => fields.lookup name
  | _ => none

/-- The part of a record with the given place and name. -/
def part? (place : Nat) (name : String) : Json → Option Json
  | .array items => items[place]?
  | j => j.field? name

/-- A tagged record without its tag: in an array the tag comes first, in an object it is one field
more. -/
def untagged : Json → Json
  | .array items => .array items.tail
  | j => j

/-- The value of a field is smaller than the fields it is looked up in. -/
theorem sizeOf_lt_of_lookup {name : String} {v : Json} {fields : List (String × Json)}
    (h : fields.lookup name = some v) : sizeOf v < sizeOf fields := by
  induction fields with
  | nil => cases h
  | cons field rest ih =>
    obtain ⟨key, value⟩ := field
    rw [List.lookup_cons] at h
    split at h
    · obtain rfl := Option.some.inj h
      simp only [List.cons.sizeOf_spec, Prod.mk.sizeOf_spec]
      omega
    · have := ih h
      simp only [List.cons.sizeOf_spec]
      omega

/-- The value of a field is smaller than the object. -/
theorem sizeOf_lt_of_field? {name : String} {j v : Json} (h : j.field? name = some v) :
    sizeOf v < sizeOf j := by
  cases j with
  | object fields =>
    have := sizeOf_lt_of_lookup h
    simp only [Json.object.sizeOf_spec]
    omega
  | _ => cases h

/-- The item of an array is smaller than the array. -/
theorem sizeOf_lt_of_mem {items : List Json} {v : Json} (h : v ∈ items) :
    sizeOf v < sizeOf (Json.array items) := by
  have := List.sizeOf_lt_of_mem h
  simp only [Json.array.sizeOf_spec]
  omega

/-- The part of a record is smaller than the record. -/
theorem sizeOf_lt_of_part? {place : Nat} {name : String} {j v : Json}
    (h : j.part? place name = some v) : sizeOf v < sizeOf j := by
  cases j with
  | array items => exact sizeOf_lt_of_mem (List.mem_of_getElem? h)
  | object fields => exact sizeOf_lt_of_field? h
  | _ => cases h

/-- A record is not larger without its tag. -/
theorem sizeOf_untagged_le (j : Json) : sizeOf j.untagged ≤ sizeOf j := by
  cases j with
  | array items =>
    cases items with
    | nil => exact Nat.le_refl _
    | cons tag rest =>
      simp only [untagged, List.tail_cons, Json.array.sizeOf_spec, List.cons.sizeOf_spec]
      omega
  | _ => exact Nat.le_refl _

end Json

end Fluent
