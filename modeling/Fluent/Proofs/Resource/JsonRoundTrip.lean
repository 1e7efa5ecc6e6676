/-
# Resources survive JSON

A resource that was parsed, or decoded from any JSON value, is decoded from its JSON form as just
itself, junk with its spans and annotations included.

* `decode_encode_of_parse_or_decode` : wherever a resource comes from, it is decoded back, and keeps
  the rules of the checked constructors.
-/
import Fluent.Proofs.Resource.WellFormed
import Fluent.Proofs.Tree.Decoded

namespace Fluent

/-- What was read from a text of fewer than 2^64 bytes keeps the rules of the checked
constructors. -/
theorem TreeRules.wellFormed_implies_checked {size : Nat} (h : size < UInt64.size) :
    (TreeRules.wellFormed size).Implies .checked where
  name _ _ := trivial
  pattern _ _ := trivial
  placed _ _ := trivial
  message _ _ := trivial
  span _ hspan :=
    ⟨Nat.lt_of_le_of_lt (Nat.le_trans hspan.1 hspan.2) h, Nat.lt_of_le_of_lt hspan.2 h⟩

/-- **Resources survive JSON**: a resource that was parsed from any source, or decoded from any JSON
value, is decoded from its JSON form as itself, and keeps the rules of the checked constructors at
every depth.  The places in a source are numbers of 64 bits, so it is no larger than these. -/
theorem decode_encode_of_parse_or_decode {r : Resource}
    (h : (∃ settings source, utf8Length source < UInt64.size ∧
        Resource.parse settings source = r) ∨
      ∃ j, Resource.decode j = .ok r) :
    Resource.decode r.encode = .ok r ∧ r.Keeps .checked := by
  have hkeeps : r.Keeps .checked := by
    rcases h with ⟨settings, source, hsize, rfl⟩ | ⟨j, hj⟩
    · exact parse_keeps settings (TreeRules.wellFormed_implies_checked hsize)
    · exact Resource.keeps_of_decode hj
  exact ⟨Resource.decode_encode hkeeps, hkeeps⟩

/-- The source has a selection and junk, and is read under limits on nesting and on errors.  The
first value gives the tag of a literal as a number and its value with an exponent, which its own JSON
form does not.  The second one has arrays throughout, tags and parts in their order. -/
theorem decode_encode_of_parse_or_decode_number :
    let parsed := Resource.parse ⟨1, 1, 0⟩ "a = \x7b $n ->\n *[one] x\n\x7d\n-\n\x7b".toList
    let json : Json := .object [("entries", .array [.object [("type", .string "Term"),
      ("id", .object [("name", .string "t")]), ("attributes", .array []),
      ("value", .object [("elements", .array [.object [("type", .string "Placeable"),
        ("expression", .object [("type", .number (.integer 1)), ("raw", .string "-2.50"),
          ("value", .string "-25e-1")])]])])]])]
    let decoded : Resource := ⟨[.term ⟨⟨"t"⟩, [.placeable (.number
      ⟨⟨250, 2, true, by decide, by decide, by decide⟩, "-2.50"⟩)], [], none⟩]⟩
    let called : Json := .array [.string "FunctionReference", .array [.string "F"],
      .array [.array [.array [.number (.integer 0), .string "", .string "s"]]]]
    let arrays : Json := .array [.array [
      .array [.string "Comment", .string "Group", .string "c"],
      .array [.string "Message", .array [.string "m"],
        .array [.array [.array [.string "Placeable", called]]], .array [], .null],
      .array [.string "Junk", .string "j", .array [.array [.string "ParseJunk", .string "e",
        .array [.ofNat 0, .ofNat 1]]], .array [.ofNat 0, .ofNat 2]]]]
    let listed : Resource := ⟨[.comment ⟨.group, "c"⟩,
      .message ⟨⟨"m"⟩, some [.placeable (.function ⟨"F"⟩ ⟨[.string ⟨"s", "s"⟩], []⟩)], [], none⟩,
      .junk ⟨"j", [⟨.unreadable, "e", ⟨0, 1⟩⟩], ⟨0, 2⟩⟩]⟩
    (Resource.decode parsed.encode = .ok parsed ∧ parsed.Keeps .checked) ∧
      Resource.decode json = .ok decoded ∧
      (Resource.decode decoded.encode = .ok decoded ∧ decoded.Keeps .checked) ∧
      Resource.decode arrays = .ok listed ∧
      Resource.decode listed.encode = .ok listed ∧ listed.Keeps .checked := by
  intro parsed json decoded called arrays listed
  have hsize : utf8Length "a = \x7b $n ->\n *[one] x\n\x7d\n-\n\x7b".toList < UInt64.size := by
    decide +kernel
  have hdecoded : Resource.decode json = .ok decoded := by decide +kernel
  have hlisted : Resource.decode arrays = .ok listed := by decide +kernel
  exact ⟨decode_encode_of_parse_or_decode (.inl ⟨_, _, hsize, rfl⟩), hdecoded,
    decode_encode_of_parse_or_decode (.inr ⟨_, hdecoded⟩), hlisted,
    decode_encode_of_parse_or_decode (.inr ⟨_, hlisted⟩)⟩

end Fluent
