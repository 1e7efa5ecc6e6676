/-
# Diagnostics

Each annotation of junk as a diagnostic for a reader: a message, a code, sometimes a hint, and a
label that points into the text.
-/
import Fluent.Tree.Basic

namespace Fluent

/-- A note on a stretch of text. -/
structure Label where
  text : String
  offset : Nat
  length : Nat
deriving DecidableEq

/-- What a reader is told about a piece of junk. -/
structure Diagnostic where
  message : String
  code : String
  help : Option String
  label : Label
deriving DecidableEq

namespace AnnotationCode

/-- What the label says. -/
def label : AnnotationCode → String
  | .unreadable => "unexpected input here"
  | .nestedTooDeep => "nested too deeply"
  | .tooManyErrors => "parsing stopped here"
  | .sourceTooLarge => "source too large"

/-- What may help. -/
def help : AnnotationCode → Option String
  | .unreadable => none
  | .nestedTooDeep => some "flatten the nested placeables or raise max_nesting_depth"
  | .tooManyErrors => some "fix the earlier errors or raise max_parse_errors"
  | .sourceTooLarge => some "split the resource or raise max_source_size"

end AnnotationCode

/-- The label of a span. -/
def Span.label (s : Span) (text : String) : Label :=
  ⟨text, s.start, s.length⟩

/-- An annotation as a diagnostic. -/
def Annotation.diagnostic (a : Annotation) : Diagnostic :=
  { message := "Syntax error: " ++ a.message
    code := "ftl::syntax::" ++ a.code.text.toLower
    help := a.code.help
    label := a.span.label a.code.label }

/-- The diagnostics of a resource, in the order of its junk. -/
def Resource.diagnostics (r : Resource) : List Diagnostic :=
  r.junk.flatMap fun junk => junk.annotations.map Annotation.diagnostic

end Fluent
