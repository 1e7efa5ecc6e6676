/-
# Settings

Limits and switches, with their defaults.  A limit of zero on errors or on the size of a source
means that there is none.
-/

namespace Fluent

/-- Limits on reading a resource. -/
structure ParserSettings where
  /-- How deep braces and argument lists may be nested. -/
  maxNestingDepth : Nat := 100
  /-- The number of unreadable pieces at which reading stops. -/
  maxParseErrors : Nat := 100
  /-- The bytes that a source may have. -/
  maxSourceSize : Nat := 10485760
deriving DecidableEq

/-- Limits and switches of formatting. -/
structure ResolverSettings where
  /-- Placed values are wrapped in directional isolates. -/
  useIsolating : Bool := true
  /-- How deep resolutions may be nested. -/
  maxExpressionDepth : Nat := 128
deriving DecidableEq

/-- All settings. -/
structure Settings where
  parser : ParserSettings := {}
  resolver : ResolverSettings := {}
deriving DecidableEq

/-- By default a message nested as deep as the parser allows can be formatted. -/
theorem default_depths :
    ({} : ParserSettings).maxNestingDepth + 2 < ({} : ResolverSettings).maxExpressionDepth := by
  decide

end Fluent
