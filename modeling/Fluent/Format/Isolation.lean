/-
# Directional isolation

A placed value may be wrapped in marks that keep its direction from reordering the text around it.
-/

namespace Fluent

/-- The mark that opens an isolated stretch of text (U+2068). -/
def isolateOpen : Char := '\u2068'

/-- The mark that closes an isolated stretch of text (U+2069). -/
def isolateClose : Char := '\u2069'

/-- A text, between isolation marks if asked for. -/
def isolated (isolate : Bool) (text : List Char) : List Char :=
  if isolate then isolateOpen :: text ++ [isolateClose] else text

/-- A text without its isolation marks. -/
def stripIsolates (text : List Char) : List Char :=
  text.filter fun ch => ch != isolateOpen && ch != isolateClose

/-- The marks of a text are taken out part by part. -/
theorem stripIsolates_append (s t : List Char) :
    stripIsolates (s ++ t) = stripIsolates s ++ stripIsolates t :=
  List.filter_append ..

/-- Stripping takes away exactly what isolating adds. -/
theorem stripIsolates_isolated (isolate : Bool) (text : List Char) :
    stripIsolates (isolated isolate text) = stripIsolates text := by
  cases isolate
  · rfl
  · simp [isolated, stripIsolates]

end Fluent
