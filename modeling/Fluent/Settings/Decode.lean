/-
# Settings from documents

Settings are read from JSON or from YAML.  What is not given keeps its default, and fields that no
setting has are left aside; a field that is given twice, or has the wrong form, is refused.  A group
of settings may also be given as a list, in the order of its fields.

* `Settings.invalid?` : depths of zero are refused.
-/
import Fluent.Json.Decoding
import Fluent.Json.Reader
import Fluent.Settings.Basic
import Fluent.Yaml.Node

namespace Fluent

/-- The notations of settings. -/
inductive SettingsFormat
  | json
  | yaml
deriving DecidableEq

/-- A depth that must not be zero. -/
inductive ZeroDepth
  | nesting
  | expression
deriving DecidableEq

/-- Why settings are refused: the document cannot be read, or a depth is zero. -/
inductive SettingsError
  | unreadable (format : SettingsFormat)
  | zeroDepth (depth : ZeroDepth)
deriving DecidableEq

/-- The name of a depth in documents. -/
def ZeroDepth.name : ZeroDepth → String
  | .nesting => "parser.max_nesting_depth"
  | .expression => "resolver.max_expression_depth"

/-- The wording of a depth's refusal. -/
def ZeroDepth.message (depth : ZeroDepth) : String :=
  "invalid configuration: " ++ depth.name ++ " must be at least 1"

/-! ## Reading -/

/-- Settings break no rule while they are read. -/
abbrev SettingsDecoding := Decoding Empty

/-- A field of the name is not given twice. -/
def expectOnce (group : Json) (name : String) : SettingsDecoding Unit :=
  match group with
  | .object fields => if fields.countP (·.1 == name) ≤ 1 then .ok () else .wrongShape
  | _ => .ok ()

/-- The settings of the parser. -/
def ParserSettings.decode (j : Json) : SettingsDecoding ParserSettings := do
  let initial : ParserSettings := {}
  let depth := j.part 0 "max_nesting_depth" Json.decodeNat
  let errors := j.part 1 "max_parse_errors" Json.decodeNat
  let size := j.part 2 "max_source_size" Json.decodeNat
  j.settle [depth.outcome, errors.outcome, size.outcome] 0
  ["max_nesting_depth", "max_parse_errors", "max_source_size"].forM (expectOnce j)
  return ⟨← depth.getD initial.maxNestingDepth, ← errors.getD initial.maxParseErrors,
    ← size.getD initial.maxSourceSize⟩

/-- The settings of the resolver. -/
def ResolverSettings.decode (j : Json) : SettingsDecoding ResolverSettings := do
  let initial : ResolverSettings := {}
  let isolating := j.part 0 "use_isolating" Json.decodeBool
  let depth := j.part 1 "max_expression_depth" Json.decodeNat
  j.settle [depth.outcome, isolating.outcome] 0
  ["use_isolating", "max_expression_depth"].forM (expectOnce j)
  return ⟨← isolating.getD initial.useIsolating, ← depth.getD initial.maxExpressionDepth⟩

namespace Settings

/-- All settings. -/
def decode (j : Json) : SettingsDecoding Settings := do
  let parser := j.part 0 "parser" ParserSettings.decode
  let resolver := j.part 1 "resolver" ResolverSettings.decode
  j.settle [parser.outcome, resolver.outcome] 0
  ["parser", "resolver"].forM (expectOnce j)
  return ⟨← parser.getD {}, ← resolver.getD {}⟩

/-- A depth that is zero. -/
def invalid? (settings : Settings) : Option ZeroDepth :=
  if settings.parser.maxNestingDepth = 0 then some .nesting
  else if settings.resolver.maxExpressionDepth = 0 then some .expression
  else none

/-- The value of a document. -/
def document? (format : SettingsFormat) (text : List Char) : Option Json :=
  match format with
  | .json => Json.read? text
  | .yaml => Json.readYaml? text

/-- The settings that a document gives. -/
def read (format : SettingsFormat) (text : List Char) : Except SettingsError Settings :=
  match (document? format text).map decode with
  | some (.ok settings) =>
    match settings.invalid? with
    | none => .ok settings
    | some depth => .error (.zeroDepth depth)
  | _ => .error (.unreadable format)

end Settings

end Fluent
