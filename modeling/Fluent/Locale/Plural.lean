/-
# Plural categories of locales

The rule of a locale is that of the whole locale if the tables have one, otherwise that of its
language; without a rule every number is `other`.
-/
import Fluent.Locale.Identifier
import Fluent.Locale.Cardinals
import Fluent.Locale.Ordinals
import Fluent.Format.Value

namespace Fluent

/-- The tables of rules. -/
def pluralRules : NumberKind → List (List String × PluralRule)
  | .cardinal => cardinalRules
  | .ordinal => ordinalRules

/-- The rule in the tables under the text of a locale. -/
def pluralRuleOf? (kind : NumberKind) (locale : Locale) : Option PluralRule :=
  ((pluralRules kind).find? fun (languages, _) => languages.contains locale.text).map (·.2)

/-- The rule for a locale, or else for its language. -/
def Locale.pluralRule? (locale : Locale) (kind : NumberKind) : Option PluralRule :=
  (pluralRuleOf? kind locale).orElse fun _ => pluralRuleOf? kind locale.bare

/-- The category of a number's text by a rule; a text without operands is `other`. -/
def PluralRule.categoryOfText (rule : PluralRule) (text : List Char) : PluralCategory :=
  ((Operands.ofText? text).map rule.category).getD .other

/-- What tells the categories of numbers; none if it breaks off. -/
abbrev PluralService := NumberValue → Locale → Option PluralCategory

/-- The categories by the tables.  A number is looked at in its text, so that zeros behind the point
count; without a rule its text does not matter. -/
def tabulatedPlurals : PluralService := fun number locale =>
  match locale.pluralRule? number.options.kind with
  | none => some .other
  | some rule => number.text?.map rule.categoryOfText

end Fluent
