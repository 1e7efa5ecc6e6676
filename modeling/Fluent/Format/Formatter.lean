/-
# Formatters

A formatter is all that decides what a message becomes: a catalog, functions, plural rules, a locale
and settings.  Functions may ask for texts; the formatters that they may ask are listed beside the
one they are called by.
-/
import Fluent.Format.Catalog
import Fluent.Format.NumberFunction
import Fluent.Locale.Plural
import Fluent.Settings.Basic

namespace Fluent

/-- What a formatter formats with. -/
structure Formatter where
  catalog : Catalog
  functions : FunctionTable := .builtins
  plurals : PluralService := tabulatedPlurals
  locale : Locale := {}
  settings : ResolverSettings := {}

/-- How deep the formatter's resolutions may be nested. -/
def Formatter.limit (formatter : Formatter) : Nat :=
  formatter.settings.maxExpressionDepth

/-- The formatter with another limit. -/
def Formatter.withLimit (formatter : Formatter) (limit : Nat) : Formatter :=
  { formatter with settings := { formatter.settings with maxExpressionDepth := limit } }

/-- The formatters of one program: the one that is asked, and others that functions may ask. -/
structure Session where
  main : Formatter
  others : List Formatter := []

namespace Session

/-- All formatters. -/
def formatters (session : Session) : List Formatter :=
  session.main :: session.others

/-- The formatter at a place: the main one at 0 and at places beyond the others. -/
def formatter (session : Session) (place : Nat) : Formatter :=
  session.formatters[place]?.getD session.main

/-- The greatest limit on the depth among some formatters. -/
def greatestLimit : List Formatter → Nat
  | [] => 0
  | formatter :: rest => max formatter.limit (greatestLimit rest)

/-- The greatest limit on the depth. -/
def limit (session : Session) : Nat :=
  greatestLimit session.formatters

/-- No formatter of a list has a larger limit than the greatest one. -/
theorem le_greatestLimit {formatter : Formatter} {formatters : List Formatter}
    (h : formatter ∈ formatters) : formatter.limit ≤ greatestLimit formatters := by
  induction h with
  | head rest => exact Nat.le_max_left ..
  | tail first h ih => exact Nat.le_trans ih (Nat.le_max_right ..)

/-- No formatter of a session has a greater limit than the session. -/
theorem limit_le {session : Session} {formatter : Formatter} (h : formatter ∈ session.formatters) :
    formatter.limit ≤ session.limit :=
  le_greatestLimit h

/-- The formatter at any place is one of the session's. -/
theorem formatter_mem (session : Session) (place : Nat) :
    session.formatter place ∈ session.formatters := by
  unfold formatter
  cases h : session.formatters[place]? with
  | none => exact List.mem_cons_self
  | some formatter => exact List.mem_of_getElem? h

end Session

end Fluent
