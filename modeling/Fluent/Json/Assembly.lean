/-
# Values from tokens

A value is assembled from its tokens one after the other; the arrays and objects that are still open
are kept in a list.
-/
import Fluent.Json.Value

namespace Fluent

/-- The tokens of a value. -/
inductive JsonToken
  | openArray
  | closeArray
  | openObject
  | closeObject
  | comma
  | colon
  /-- A text; none if it holds half a surrogate pair, so that it can be no name. -/
  | text (text : Option String)
  | scalar (value : Json)

/-- An array or an object that is open, with its parts so far, the last one first. -/
inductive OpenValue
  | array (items : List Json)
  | object (fields : List (Option String × Json)) (name : Option String)

/-- What may come next. -/
inductive Expected
  | value
  | itemOrClose
  | name
  | nameOrClose
  | colon
  | commaOrClose
  | nothing
deriving DecidableEq

/-- A value of which some tokens have been read. -/
structure Assembly where
  opened : List OpenValue := []
  expected : Expected := .value
  result : Json := .null

namespace Assembly

/-- Puts a finished value where it belongs. -/
def put (a : Assembly) (value : Json) : Assembly :=
  match a.opened with
  | [] => { a with expected := .nothing, result := value }
  | .array items :: rest =>
    { a with opened := .array (value :: items) :: rest, expected := .commaOrClose }
  | .object fields name :: rest =>
    { a with opened := .object ((name, value) :: fields) none :: rest, expected := .commaOrClose }

/-- Closes the innermost array. -/
def closeArray? (a : Assembly) : Option Assembly :=
  match a.opened with
  | .array items :: rest => some (put { a with opened := rest } (.array items.reverse))
  | _ => none

/-- Closes the innermost object. -/
def closeObject? (a : Assembly) : Option Assembly :=
  match a.opened with
  | .object fields _ :: rest => some (put { a with opened := rest } (.ofFields fields.reverse))
  | _ => none

/-- Opens an array or an object. -/
def openValue (a : Assembly) (value : OpenValue) (expected : Expected) : Assembly :=
  { a with opened := value :: a.opened, expected := expected }

/-- Takes a token that begins a value. -/
def beginValue? (a : Assembly) : JsonToken → Option Assembly
  | .openArray => some (a.openValue (.array []) .itemOrClose)
  | .openObject => some (a.openValue (.object [] none) .nameOrClose)
  | .text text => some (a.put (.string (text.getD "")))
  | .scalar value => some (a.put value)
  | _ => none

/-- Takes the name of the next field. -/
def takeName? (a : Assembly) : JsonToken → Option Assembly
  | .text name =>
    match a.opened with
    | .object fields _ :: rest =>
      some { a with opened := .object fields name :: rest, expected := .colon }
    | _ => none
  | _ => none

/-- Takes a comma or a closing bracket. -/
def separate? (a : Assembly) : JsonToken → Option Assembly
  | .comma =>
    match a.opened with
    | .array _ :: _ => some { a with expected := .value }
    | .object .. :: _ => some { a with expected := .name }
    | [] => none
  | .closeArray => a.closeArray?
  | .closeObject => a.closeObject?
  | _ => none

/-- Takes a token. -/
def step? (a : Assembly) (token : JsonToken) : Option Assembly :=
  match a.expected with
  | .value => a.beginValue? token
  | .itemOrClose =>
    match token with
    | .closeArray => a.closeArray?
    | token => a.beginValue? token
  | .name => a.takeName? token
  | .nameOrClose =>
    match token with
    | .closeObject => a.closeObject?
    | token => a.takeName? token
  | .colon =>
    match token with
    | .colon => some { a with expected := .value }
    | _ => none
  | .commaOrClose => a.separate? token
  | .nothing => none

/-- Takes tokens one after the other. -/
def steps? (a : Assembly) : List JsonToken → Option Assembly
  | [] => some a
  | token :: tokens => (a.step? token).bind fun next => next.steps? tokens

/-- The value, if all of it has been read. -/
def value? (a : Assembly) : Option Json :=
  if a.expected = .nothing then some a.result else none

end Assembly

end Fluent
