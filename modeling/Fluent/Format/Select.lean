/-
# Choosing a variant

A selector's value is looked for among the keys; a number that is no key is then looked for by its
plural category.
-/
import Fluent.Format.Value
import Fluent.Locale.PluralRule

namespace Fluent

/-- The key is that of the value: the same text, or the same number. -/
def VariantKey.isOf (value : Value) : VariantKey → Bool
  | .identifier id =>
    match value with
    | .string text => id.name == text
    | _ => false
  | .number literal =>
    match value with
    | .string text => literal.raw == text
    | .number n => literal.value.toFloat == n.value
    | .none => false

/-- The key names the category. -/
def VariantKey.names (category : PluralCategory) : VariantKey → Bool
  | .identifier id => id.name == category.key
  | .number _ => false

namespace Selection

/-- The place of the first variant whose key is that of the value. -/
def exactIndex? (selection : Selection) (value : Value) : Option Nat :=
  selection.variants.findIdx? fun variant => variant.key.isOf value

/-- The place of the first variant that names the category. -/
def categoryIndex? (selection : Selection) (category : PluralCategory) : Option Nat :=
  selection.variants.findIdx? fun variant => variant.key.names category

end Selection

end Fluent
