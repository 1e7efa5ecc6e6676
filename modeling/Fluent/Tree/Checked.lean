/-
# Checked constructors

Literals, selections and call arguments are built through functions that check their rules:

* the text of a number literal is digits with an optional sign and fraction, read exactly;
* the text of a string literal is valid between quotes;
* a selection has variants, exactly one of them the default, and a selector that may be selected on;
* no named argument is given twice.

Each rule has its own failure, worded in `TreeError.message`.
-/
import Fluent.Number.Digits
import Fluent.Tree.Basic
import Fluent.Grammar.Quoted

namespace Fluent

/-- Why a part of a tree cannot be built. -/
inductive TreeError
  | invalidNumber (raw reason : String)
  | invalidString (raw reason : String)
  | missingVariants
  | missingDefaultVariant
  | multipleDefaultVariants
  | invalidSelector (reason : String)
  | duplicateNamedArgument (name : String)
deriving DecidableEq

namespace TreeError

/-- The wording of a failure. -/
def message : TreeError → String
  | .invalidNumber raw reason => "invalid number literal \x27" ++ raw ++ "\x27: " ++ reason
  | .invalidString raw reason => "invalid string literal \x27" ++ raw ++ "\x27: " ++ reason
  | .missingVariants => "select expression has no variants"
  | .missingDefaultVariant => "select expression has no default variant"
  | .multipleDefaultVariants => "select expression has more than one default variant"
  | .invalidSelector reason => "invalid selector: " ++ reason
  | .duplicateNamedArgument name => "named argument \x27" ++ name ++ "\x27 is given more than once"

/-- The reason that a rule of the grammar gives when it meets the failure. -/
def failureKind : TreeError → FailureKind
  | .invalidNumber raw reason => .invalidNumber (raw ++ ": " ++ reason)
  | .invalidString _ reason => .invalidUnicodeEscape reason
  | .missingVariants => .missingVariants
  | .missingDefaultVariant => .missingDefaultVariant
  | .multipleDefaultVariants => .multipleDefaultVariants
  | .invalidSelector _ => .expectedSimpleSelector
  | .duplicateNamedArgument name => .duplicateNamedArgument name

end TreeError

/-! ## Literals -/

/-- The sign, the digits before and the digits behind the point of a number literal's text. -/
def splitNumber? (raw : List Char) : Option (Bool × List Char × List Char) :=
  let negative := raw.head? == some '-'
  let unsigned := if negative then raw.tail else raw
  let whole := unsigned.takeWhile (· != '.')
  match unsigned.dropWhile (· != '.') with
  | [] => if allDigits whole then some (negative, whole, []) else none
  | _ :: fraction =>
    if allDigits whole && allDigits fraction then some (negative, whole, fraction) else none

/-- The number literal written as `raw`. -/
def NumberLiteral.ofRaw (raw : String) : Except TreeError NumberLiteral :=
  match splitNumber? raw.toList with
  | none => .error (.invalidNumber raw "expected digits with an optional sign and fraction")
  | some (negative, whole, fraction) =>
    match Decimal.ofDigits negative whole fraction with
    | .ok value => .ok ⟨value, raw⟩
    | .error reason => .error (.invalidNumber raw reason.message)

/-- The string literal that stands for `value`, escaped where needed. -/
def StringLiteral.ofValue (value : String) : StringLiteral :=
  ⟨value, String.ofList (Grammar.escapeText value.toList)⟩

/-- The string literal written as `raw` between its quotes. -/
def StringLiteral.ofRaw (raw : String) : Except TreeError StringLiteral :=
  match Grammar.unescape raw with
  | .ok value => .ok ⟨value, raw⟩
  | .error kind => .error (.invalidString raw kind.message)

/-! ## Selections and call arguments -/

/-- Why an expression may not be selected on, if it may not. -/
def Expression.selectorFault? : Expression → Option String
  | .string _ | .number _ | .var _ | .function .. | .term _ (some _) _ => none
  | .term _ none _ => some "terms can only be selected on through an attribute"
  | .message .. => some "messages cannot be used as selectors"
  | .select _ | .placeable _ => some "expected a simple expression as selector"

/-- The places of the variants marked as default. -/
def defaultIndices (variants : List Variant) : List Nat :=
  (variants.zipIdx.filter fun (variant, _) => variant.isDefault).map (·.2)

/-- The selection between the variants by the selector. -/
def Selection.build (selector : Expression) (variants : List Variant) :
    Except TreeError Selection :=
  match selector.selectorFault? with
  | some reason => .error (.invalidSelector reason)
  | none =>
    if variants.isEmpty then .error .missingVariants
    else
      match defaultIndices variants with
      | [] => .error .missingDefaultVariant
      | [index] => .ok ⟨selector, variants, index⟩
      | _ => .error .multipleDefaultVariants

/-- The first name that an argument before it has, or that is among the names seen. -/
def repeatedName? (seen : List Identifier) : List NamedArgument → Option Identifier
  | [] => none
  | argument :: rest =>
    if argument.name ∈ seen then some argument.name
    else repeatedName? (argument.name :: seen) rest

/-- The call arguments with the given parts. -/
def CallArguments.build (positional : List Expression) (named : List NamedArgument) :
    Except TreeError CallArguments :=
  match repeatedName? [] named with
  | some name => .error (.duplicateNamedArgument name.name)
  | none => .ok ⟨positional, named⟩

end Fluent
