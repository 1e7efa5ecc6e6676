/-
# Names in quotes

A name is shown between quotes with everything escaped that could not be seen, or that would join
the character in front of it.
-/
import Fluent.Text.Combining
import Fluent.Text.Unprintable

namespace Fluent

/-- The character lies in one of the ranges. -/
def isInRanges (ranges : List (Nat × Nat)) (ch : Char) : Bool :=
  ranges.any fun (low, high) => low ≤ ch.toNat && ch.toNat ≤ high

/-- A character that is shown by its number: one that nothing is drawn for, or that is drawn on the
character in front of it. -/
def isInvisible (ch : Char) : Bool :=
  isInRanges unprintableRanges ch || isInRanges combiningRanges ch

/-- A character of a name in quotes. -/
def shownChar (ch : Char) : List Char :=
  if ch = '"' || ch = '\\' then ['\\', ch]
  else if ch = '\n' then ['\\', 'n']
  else if ch = '\r' then ['\\', 'r']
  else if ch = '\t' then ['\\', 't']
  else if ch = '\x00' then ['\\', '0']
  else if isInvisible ch then '\\' :: 'u' :: '\x7b' :: Nat.toDigits 16 ch.toNat ++ ['\x7d']
  else [ch]

/-- A name in quotes. -/
def shownName (name : String) : List Char :=
  '"' :: name.toList.flatMap shownChar ++ ['"']

end Fluent
