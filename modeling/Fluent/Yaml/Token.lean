/-
# Tokens of YAML

A document is cut into tokens.  Besides those that are written there are tokens for what
indentation says: where a block begins and ends, and where the key of a mapping begins.

A key is only known as such by the colon behind it.  So the place where a key may have begun is
kept, one for each collection in brackets that is open, and the token of the key is put in there
later.  A key stands in one line and has at most 1024 characters.

Directives, anchors, tags and block scalars are not read.
-/
import Fluent.Text.Lines
import Fluent.Yaml.ScalarText

namespace Fluent.Yaml

/-- A piece of a document. -/
inductive Token
  | document (mark : DocumentMark)
  | beginBlockSequence
  | beginBlockMapping
  | endBlock
  | openSequence
  | closeSequence
  | openMapping
  | closeMapping
  | item
  | comma
  | key
  | value
  | plain (text : String)
  | quoted (text : String)
deriving DecidableEq

/-- A place where a key may have begun: the number of its first token, and whether the indentation
demands that it is one. -/
structure PossibleKey where
  required : Bool
  number : Nat
  place : Place

/-- How far a document has been cut into tokens. -/
structure TokenReader where
  place : Place := {}
  /-- The tokens so far, the last one first. -/
  tokens : List Token := []
  count : Nat := 0
  /-- The columns of the blocks that are open, the innermost first. -/
  blocks : List Nat := []
  /-- A key may begin here. -/
  keyAllowed : Bool := true
  /-- Where the next key outside of brackets may have begun. -/
  key : Option PossibleKey := none
  /-- The same for the brackets that are open, the innermost first. -/
  flowKeys : List (Option PossibleKey) := []

namespace TokenReader

/-- Brackets are open. -/
def inFlow (s : TokenReader) : Bool :=
  !s.flowKeys.isEmpty

/-- A token follows. -/
def emit (s : TokenReader) (token : Token) : TokenReader :=
  { s with tokens := token :: s.tokens, count := s.count + 1 }

/-- Tokens that belong in front of the token of the given number. -/
def emitAt (s : TokenReader) (number : Nat) (tokens : List Token) : TokenReader :=
  let behind := s.count - number
  { s with
    tokens := s.tokens.take behind ++ tokens.reverse ++ s.tokens.drop behind
    count := s.count + tokens.length }

/-- The place behind some characters, of which the rest is given. -/
def after (s : TokenReader) (count : Nat) (rest : List Char) : TokenReader × List Char :=
  ({ s with place := s.place.next count }, rest)

/-! ## Blocks -/

/-- A block at this column lies within the blocks that are open. -/
def opensBlock (s : TokenReader) (column : Nat) : Bool :=
  !s.inFlow && s.blocks.head?.all (· < column)

/-- Ends the blocks whose columns satisfy a condition, up to the first that does not. -/
def closeBlocks (closes : Nat → Bool) (s : TokenReader) : TokenReader :=
  if s.inFlow then s
  else
    let ended := s.blocks.takeWhile closes
    { ended.foldl (fun s _ => s.emit .endBlock) s with blocks := s.blocks.drop ended.length }

/-- Opens a block at the present column, if none is open there. -/
def openBlock (s : TokenReader) (token : Token) : TokenReader :=
  if s.opensBlock s.place.column then
    { s.emit token with blocks := s.place.column :: s.blocks }
  else s

/-! ## Keys -/

/-- Where the next key of the innermost collection may have begun. -/
def currentKey (s : TokenReader) : Option PossibleKey :=
  s.flowKeys.headD s.key

/-- Changes where the next key of the innermost collection may have begun. -/
def setKey (s : TokenReader) (key : Option PossibleKey) : TokenReader :=
  match s.flowKeys with
  | [] => { s with key := key }
  | _ :: keys => { s with flowKeys := key :: keys }

/-- No key began at the place that is kept; none if one had to. -/
def dropKey? (s : TokenReader) : Option TokenReader :=
  if s.currentKey.any (·.required) then none else some (s.setKey none)

/-- A key may begin with the next token. -/
def keepKey? (s : TokenReader) : Option TokenReader :=
  if s.keyAllowed then
    let required := !s.inFlow && s.blocks.head? = some s.place.column
    s.dropKey?.map (·.setKey (some ⟨required, s.count, s.place⟩))
  else some s

/-- What may have begun as a key is in another line or too long to be one. -/
def isStale (s : TokenReader) (key : PossibleKey) : Bool :=
  key.place.line < s.place.line || key.place.index + 1024 < s.place.index

/-- A key had to begin and can no longer have done so.  Within brackets no key has to. -/
def missesKey (s : TokenReader) : Bool :=
  s.key.any fun key => key.required && s.isStale key

/-- The key that is kept is one: its token is put in front of it. -/
def takeKey (s : TokenReader) (key : PossibleKey) : TokenReader :=
  let opens := s.opensBlock key.place.column
  let s := s.emitAt key.number (if opens then [.beginBlockMapping, .key] else [.key])
  { s.setKey none with
    blocks := if opens then key.place.column :: s.blocks else s.blocks
    keyAllowed := false }

/-! ## Tokens -/

/-- A bracket opens. -/
def openFlow? (s : TokenReader) (token : Token) : Option TokenReader :=
  s.keepKey?.map fun s =>
    { s.emit token with flowKeys := none :: s.flowKeys, keyAllowed := true }

/-- A bracket closes. -/
def closeFlow? (s : TokenReader) (token : Token) : Option TokenReader :=
  s.dropKey?.map fun s =>
    { s.emit token with flowKeys := s.flowKeys.tail, keyAllowed := false }

/-- A comma. -/
def comma? (s : TokenReader) : Option TokenReader :=
  s.dropKey?.map fun s => { s.emit .comma with keyAllowed := true }

/-- A dash in front of an item. -/
def item? (s : TokenReader) : Option TokenReader :=
  if !s.inFlow && !s.keyAllowed then none
  else
    (s.openBlock .beginBlockSequence).dropKey?.map fun s =>
      { s.emit .item with keyAllowed := true }

/-- A question mark in front of a key. -/
def key? (s : TokenReader) : Option TokenReader :=
  if !s.inFlow && !s.keyAllowed then none
  else
    (s.openBlock .beginBlockMapping).dropKey?.map fun s =>
      { s.emit .key with keyAllowed := !s.inFlow }

/-- A colon in front of a value. -/
def value? (s : TokenReader) : Option TokenReader :=
  match s.currentKey.filter (!s.isStale ·) with
  | some key => some ((s.takeKey key).emit .value)
  | none =>
    if !s.inFlow && !s.keyAllowed then none
    else some { (s.openBlock .beginBlockMapping).emit .value with keyAllowed := !s.inFlow }

/-- A mark that separates documents. -/
def document? (s : TokenReader) (mark : DocumentMark) : Option TokenReader :=
  (s.closeBlocks fun _ => true).dropKey?.map fun s =>
    { s.emit (.document mark) with keyAllowed := false }

/-- A scalar, read from the present place.  A plain scalar with a line end behind it lets a key
follow. -/
def scalar? (s : TokenReader) (token : String → Token) (read : TokenReader → Option ScalarReading) :
    Option (TokenReader × List Char) := do
  let s ← s.keepKey?
  let (scalar, place, rest) ← read s
  return ({ s.emit (token scalar.result) with place := place, keyAllowed := scalar.broken }, rest)

/-- The next token, whose first character is given with what follows it. -/
def token? (s : TokenReader) (ch : Char) (text : List Char) : Option (TokenReader × List Char) :=
  match documentMark? s.place (ch :: text) with
  | some mark => (s.document? mark).map (·.after 3 (text.drop 2))
  | none =>
    if s.place.column = 0 && ch = '%' then none
    else if ch = '[' then (s.openFlow? .openSequence).map (·.after 1 text)
    else if ch = '\x7b' then (s.openFlow? .openMapping).map (·.after 1 text)
    else if ch = ']' then (s.closeFlow? .closeSequence).map (·.after 1 text)
    else if ch = '\x7d' then (s.closeFlow? .closeMapping).map (·.after 1 text)
    else if ch = ',' then s.comma?.map (·.after 1 text)
    else if ch = '-' && beginsBlank text then s.item?.map (·.after 1 text)
    else if ch = '?' && (s.inFlow || beginsBlank text) then s.key?.map (·.after 1 text)
    else if ch = ':' && (s.inFlow || beginsBlank text) then s.value?.map (·.after 1 text)
    else if ch = '"' then
      s.scalar? .quoted fun s => doubleQuoted? .outside {} (s.place.next 1) text
    else if ch = '\x27' then
      s.scalar? .quoted fun s => singleQuoted? false {} (s.place.next 1) text
    else if beginsPlain s.inFlow (ch :: text) then
      s.scalar? .plain fun s =>
        plain? s.inFlow (s.blocks.head?.elim 0 (· + 1)) (({} : ScalarText).push ch)
          (s.place.next 1) text
    else none

/-- Takes white space and comments.  Outside of brackets a tab does not count as white space where
a key may begin, and a line end lets a key begin.  A byte order mark may stand at the start of a
line. -/
def skipBlank (s : TokenReader) (inComment : Bool) : List Char → TokenReader × List Char
  | [] => (s, [])
  | ch :: text =>
    if isBreak ch then
      skipBlank { s with place := s.place.nextLine, keyAllowed := s.keyAllowed || !s.inFlow } false
        text
    else if inComment || ch = ' ' || (ch = '\t' && (s.inFlow || !s.keyAllowed)) ||
        (ch = '\ufeff' && s.place.column = 0) then
      skipBlank { s with place := s.place.next 1 } inComment text
    else if ch = '#' then skipBlank { s with place := s.place.next 1 } true text
    else (s, ch :: text)

/-- The tokens of a text, read one after the other as long as the fuel lasts. -/
def tokens? : Nat → TokenReader → List Char → Option (List Token)
  | 0, _, _ => none
  | fuel + 1, s, text =>
    match s.skipBlank false text with
    | (s, []) => s.dropKey?.map fun s => (s.closeBlocks fun _ => true).tokens.reverse
    | (s, ch :: text) =>
      if s.missesKey then none
      else
        ((s.closeBlocks (s.place.column < ·)).token? ch text).bind fun (s, text) =>
          tokens? fuel s text

end TokenReader

/-- The tokens of a document.  A step takes at least one character, so that there are no more steps
than characters. -/
def tokens? (text : List Char) : Option (List Token) :=
  if text.all isAllowed then TokenReader.tokens? (text.length + 1) {} (unifyLineEnds text) else none

end Fluent.Yaml
