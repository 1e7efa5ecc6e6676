/-
# Nodes of YAML

A document's node is put together from its tokens: a scalar, a sequence or a mapping.  Where a node
may stand and none does, there is a plain scalar without characters.

* `Node.value` : a node as a JSON value.
-/
import Fluent.Yaml.Scalar
import Fluent.Yaml.Token

namespace Fluent.Yaml

/-- A part of a document. -/
inductive Node
  | plain (text : String)
  | quoted (text : String)
  | sequence (items : List Node)
  | mapping (fields : List (Node × Node))

namespace Node

/-- The node that stands where none is written. -/
def empty : Node :=
  .plain ""

/-- The name that a node is, if it is a scalar. -/
def name? : Node → Option String
  | .plain text => some text
  | .quoted text => some text
  | _ => none

mutual

/-- The value that a node stands for. -/
def value : Node → Json
  | .plain text => plainValue text.toList
  | .quoted text => .string text
  | .sequence items => .array (values items)
  | .mapping fields => .ofFields (fieldValues fields)

/-- The values of a sequence. -/
def values : List Node → List Json
  | [] => []
  | item :: items => item.value :: values items

/-- The names and the values of a mapping. -/
def fieldValues : List (Node × Node) → List (Option String × Json)
  | [] => []
  | (key, node) :: fields => (key.name?, node.value) :: fieldValues fields

end

end Node

/-! ## Nodes from tokens -/

/-- Where a node stands: within brackets; in a block; or as the key or the value of a block mapping,
where the items of a sequence need no indentation of their own. -/
inductive NodePlace
  | flow
  | block
  | field
deriving DecidableEq

mutual

/-- A node. -/
def node? (place : NodePlace) : Nat → List Token → Option (Node × List Token)
  | 0, _ => none
  | fuel + 1, tokens =>
    match tokens with
    | .plain text :: tokens => some (.plain text, tokens)
    | .quoted text :: tokens => some (.quoted text, tokens)
    | .openSequence :: tokens => (flowItems? true fuel tokens).map (Prod.map .sequence id)
    | .openMapping :: tokens => (flowFields? true fuel tokens).map (Prod.map .mapping id)
    | .beginBlockSequence :: tokens =>
      if place = .flow then none
      else do
        match ← blockItems? [.item, .endBlock] fuel tokens with
        | (items, .endBlock :: tokens) => return (.sequence items, tokens)
        | _ => none
    | .beginBlockMapping :: tokens =>
      if place = .flow then none else (blockFields? fuel tokens).map (Prod.map .mapping id)
    | .item :: tokens =>
      if place = .field then
        (blockItems? [.item, .key, .value, .endBlock] fuel (.item :: tokens)).map
          (Prod.map .sequence id)
      else none
    | _ => none

/-- A node, or none in front of one of the given tokens. -/
def nodeBefore? (place : NodePlace) (ends : List Token) :
    Nat → List Token → Option (Node × List Token)
  | 0, _ => none
  | fuel + 1, tokens =>
    if tokens.head?.any ends.contains then some (.empty, tokens) else node? place fuel tokens

/-- The items of a block, each of which may be left out in front of the given tokens. -/
def blockItems? (ends : List Token) : Nat → List Token → Option (List Node × List Token)
  | 0, _ => none
  | fuel + 1, tokens =>
    match tokens with
    | .item :: tokens => do
      let (item, tokens) ← nodeBefore? .block ends fuel tokens
      let (items, tokens) ← blockItems? ends fuel tokens
      return (item :: items, tokens)
    | tokens => some ([], tokens)

/-- The fields of a block, up to its end. -/
def blockFields? : Nat → List Token → Option (List (Node × Node) × List Token)
  | 0, _ => none
  | fuel + 1, tokens =>
    let ends : List Token := [.key, .value, .endBlock]
    match tokens with
    | .endBlock :: tokens => some ([], tokens)
    | .key :: tokens => do
      let (key, tokens) ← nodeBefore? .field ends fuel tokens
      let (value, tokens) ← valueBefore? .field ends fuel tokens
      let (fields, tokens) ← blockFields? fuel tokens
      return ((key, value) :: fields, tokens)
    | _ => none

/-- The value of a field behind its colon; without a colon there is none. -/
def valueBefore? (place : NodePlace) (ends : List Token) :
    Nat → List Token → Option (Node × List Token)
  | 0, _ => none
  | fuel + 1, tokens =>
    match tokens with
    | .value :: tokens => nodeBefore? place ends fuel tokens
    | tokens => some (.empty, tokens)

/-- A field within brackets, whose key may be marked as one. -/
def flowField? (close : Token) : Nat → List Token → Option ((Node × Node) × List Token)
  | 0, _ => none
  | fuel + 1, tokens =>
    match tokens with
    | .key :: tokens => do
      let (key, tokens) ← nodeBefore? .flow [.value, .comma, close] fuel tokens
      let (value, tokens) ← valueBefore? .flow [.comma, close] fuel tokens
      return ((key, value), tokens)
    | tokens => (node? .flow fuel tokens).map (Prod.map (·, .empty) id)

/-- The items of a sequence in brackets.  An item that is marked as a key is a mapping of its
own. -/
def flowItems? (first : Bool) : Nat → List Token → Option (List Node × List Token)
  | 0, _ => none
  | fuel + 1, tokens =>
    if tokens.head? = some .closeSequence then some ([], tokens.tail)
    else
      let rest := if first then some tokens else if tokens.head? = some .comma then
        some tokens.tail else none
      match rest with
      | none => none
      | some (.closeSequence :: tokens) => some ([], tokens)
      | some tokens => do
        let (item, tokens) ←
          if tokens.head? = some .key then
            (flowField? .closeSequence fuel tokens).map (Prod.map (.mapping [·]) id)
          else node? .flow fuel tokens
        let (items, tokens) ← flowItems? false fuel tokens
        return (item :: items, tokens)

/-- The fields of a mapping in brackets. -/
def flowFields? (first : Bool) : Nat → List Token → Option (List (Node × Node) × List Token)
  | 0, _ => none
  | fuel + 1, tokens =>
    if tokens.head? = some .closeMapping then some ([], tokens.tail)
    else
      let rest := if first then some tokens else if tokens.head? = some .comma then
        some tokens.tail else none
      match rest with
      | none => none
      | some (.closeMapping :: tokens) => some ([], tokens)
      | some tokens => do
        let (field, tokens) ← flowField? .closeMapping fuel tokens
        let (fields, tokens) ← flowFields? false fuel tokens
        return (field :: fields, tokens)

end

/-- The node of a text that holds at most one document.  Between two tokens there are at most four
steps, which is what the fuel allows. -/
def document? (tokens : List Token) : Option Node := do
  let fuel := 4 * tokens.length + 4
  let (node, rest) ←
    match tokens with
    | [] => some (.empty, [])
    | .document .start :: tokens =>
      if tokens.isEmpty then some (.empty, [])
      else nodeBefore? .block [.document .start, .document .stop] fuel tokens
    | tokens => node? .block fuel tokens
  if (rest.dropWhile (· = .document .stop)).isEmpty then some node else none

end Fluent.Yaml

namespace Fluent

/-- The value that a document of YAML denotes; an empty document denotes an empty mapping. -/
def Json.readYaml? (text : List Char) : Option Json := do
  return (← Yaml.document? (← Yaml.tokens? text)).value

end Fluent
