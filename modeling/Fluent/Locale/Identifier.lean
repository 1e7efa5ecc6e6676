/-
# Locale identifiers

A locale names a language and may name a script, a region and variants, in this order.  Its parts
are separated by `-` or `_` and written back with `-`, each in the case that is usual for it.
-/

namespace Fluent

/-- A locale; no language stands for any. -/
structure Locale where
  language : Option String := none
  script : Option String := none
  region : Option String := none
  variants : List String := []
deriving DecidableEq

namespace Locale

/-! ## Parts -/

/-- The parts of a text between its separators. -/
def splitParts : List Char → List (List Char)
  | [] => [[]]
  | ch :: text =>
    if ch = '-' || ch = '_' then [] :: splitParts text
    else
      match splitParts text with
      | part :: parts => (ch :: part) :: parts
      | [] => [[ch]]

/-- A part in small letters. -/
def lowered (part : List Char) : String :=
  String.ofList (part.map Char.toLower)

/-- A part that may name a language: letters, two, three, or five to eight of them. -/
def isLanguage (part : List Char) : Bool :=
  part.all Char.isAlpha && [2, 3, 5, 6, 7, 8].contains part.length

/-- A part that names a script: four letters. -/
def isScript (part : List Char) : Bool :=
  part.all Char.isAlpha && part.length = 4

/-- A part that names a region: two letters or three digits. -/
def isRegion (part : List Char) : Bool :=
  part.all Char.isAlpha && part.length = 2 || part.all Char.isDigit && part.length = 3

/-- A part that names a variant: five to eight letters and digits; or four characters of ASCII, the
first of them a digit or the other three letters and digits. -/
def isVariant (part : List Char) : Bool :=
  part.all (fun ch => 0 < ch.toNat && ch.toNat < 128) &&
    match part with
    | [first, second, third, fourth] =>
      first.isDigit || [second, third, fourth].all Char.isAlphanum
    | _ => 5 ≤ part.length && part.length ≤ 8 && part.all Char.isAlphanum

/-- A script begins with a capital letter and goes on in small ones. -/
def scriptText : List Char → String
  | [] => ""
  | first :: rest => String.ofList (first.toUpper :: rest.map Char.toLower)

/-- A region is written in capital letters. -/
def regionText (part : List Char) : String :=
  String.ofList (part.map Char.toUpper)

/-! ## Reading -/

/-- Puts a variant into a sorted list in which none is repeated. -/
def insertVariant (variant : String) : List String → List String
  | [] => [variant]
  | other :: rest =>
    if variant < other then variant :: other :: rest
    else if variant = other then other :: rest
    else other :: insertVariant variant rest

/-- Variants up to the end. -/
def variants? (parts : List (List Char)) : Option (List String) :=
  if parts.all isVariant then
    some (parts.foldl (fun sorted part => insertVariant (lowered part) sorted) [])
  else
    none

/-- An optional region, and variants. -/
def withRegion? (locale : Locale) (parts : List (List Char)) : Option Locale :=
  match parts with
  | part :: rest =>
    if isRegion part then
      (variants? rest).map fun variants =>
        { locale with region := some (regionText part), variants := variants }
    else (variants? parts).map fun variants => { locale with variants := variants }
  | [] => some locale

/-- An optional script, an optional region, and variants. -/
def withScript? (locale : Locale) (parts : List (List Char)) : Option Locale :=
  match parts with
  | part :: rest =>
    if isScript part then withRegion? { locale with script := some (scriptText part) } rest
    else withRegion? locale parts
  | [] => some locale

/-- The locale that a text names. -/
def ofText? (text : List Char) : Option Locale :=
  match splitParts text with
  | part :: rest =>
    if isLanguage part then
      let language := lowered part
      withScript? { language := if language = "und" then none else some language } rest
    else none
  | [] => none

/-! ## Writing -/

/-- A locale as text; `und` stands for no language. -/
def text (locale : Locale) : String :=
  "-".intercalate
    (locale.language.getD "und" :: locale.script.toList ++ locale.region.toList ++ locale.variants)

/-- A locale's language alone. -/
def bare (locale : Locale) : Locale :=
  { language := locale.language }

end Locale

end Fluent
