import ObjectPath.Derive.Code

/-!
# Hygiene of derived code

Derived code must work wherever it is put, whatever names are in scope there.  So it takes each name
of the library as a path that starts with the path of the library, token by token.  All its other
words are its own ones, which are keywords, names it declares itself and members of what such a path
leads to, or they are given with the item (`Hygienic`, `Registration.hygienic_code`).
-/

namespace ObjectPath.Derive

open Token

/-- The words that derived code has of its own. -/
def ownWords : List String :=
  ["impl", "for", "fn", "static", "mut", "Self", "self", "_", "inline", "type_info", "CELL", "new",
    "get_or_init", "structure", "table", "field", "this", "insert", "with_default", "reflect_ref",
    "reflect_mut", "Struct"]

/-- The places in the library that derived code refers to. -/
def libraryPlaces : List (List String) :=
  [["info", "Typed"], ["info", "TypeInfo"], ["info", "TypeInfoCell"], ["members", "MemberTable"],
    ["Reflect"], ["__impl_reflect_common"], ["reflection", "ReflectRef"],
    ["reflection", "ReflectMut"]]

/-- The path to a place in the library: the path of the library, and each name behind two colons. -/
def pathTo (lib : List Token) (place : List String) : List Token :=
  lib ++ place.flatMap fun s => [.mark ':' [':'], .mark ':' [], .word s]

/-- Tokens in which every name of the library stands behind its path; `given` are the tokens that
are not made by the derivation. -/
inductive Hygienic (lib : List Token) (given : List (List Token)) : List Token → Prop
  | nil : Hygienic lib given []
  | own {w : String} {ts : List Token} (hw : w ∈ ownWords) (h : Hygienic lib given ts) :
      Hygienic lib given (.word w :: ts)
  | mark (c : Char) (cs : List Char) {ts : List Token} (h : Hygienic lib given ts) :
      Hygienic lib given (.mark c cs :: ts)
  | literal (l : String) {ts : List Token} (h : Hygienic lib given ts) :
      Hygienic lib given (.literal l :: ts)
  | group (d : Delimiter) {body ts : List Token} (hbody : Hygienic lib given body)
      (h : Hygienic lib given ts) : Hygienic lib given (.group d body :: ts)
  | given {us ts : List Token} (hus : us ∈ given) (h : Hygienic lib given ts) :
      Hygienic lib given (us ++ ts)
  | library {place : List String} {ts : List Token} (hplace : place ∈ libraryPlaces)
      (h : Hygienic lib given ts) : Hygienic lib given (pathTo lib place ++ ts)

namespace Hygienic

variable {lib : List Token} {given : List (List Token)} {ts us : List Token}

theorem append (hts : Hygienic lib given ts) (hus : Hygienic lib given us) :
    Hygienic lib given (ts ++ us) := by
  induction hts with
  | nil => exact hus
  | own hw _ ih => exact .own hw ih
  | mark c cs _ ih => exact .mark c cs ih
  | literal l _ ih => exact .literal l ih
  | group d hbody _ _ ih => exact .group d hbody ih
  | given h _ ih =>
    rw [List.append_assoc]
    exact .given h ih
  | library hplace _ ih =>
    rw [List.append_assoc]
    exact .library hplace ih

/-- More may be given. -/
theorem mono {given' : List (List Token)} (hgiven : ∀ us ∈ given, us ∈ given')
    (h : Hygienic lib given ts) : Hygienic lib given' ts := by
  induction h with
  | nil => exact .nil
  | own hw _ ih => exact .own hw ih
  | mark c cs _ ih => exact .mark c cs ih
  | literal l _ ih => exact .literal l ih
  | group d _ _ ihbody ih => exact .group d ihbody ih
  | given hus _ ih => exact .given (hgiven _ hus) ih
  | library hplace _ ih => exact .library hplace ih

theorem flatMap {α : Type} {xs : List α} {f : α → List Token}
    (h : ∀ x ∈ xs, Hygienic lib given (f x)) : Hygienic lib given (xs.flatMap f) := by
  induction xs with
  | nil => exact .nil
  | cons x xs ih =>
    obtain ⟨hx, hxs⟩ := List.forall_mem_cons.1 h
    exact hx.append (ih hxs)

end Hygienic

/-- What is given of a field: its name, its type and its tags. -/
def RegisteredField.given (f : RegisteredField) : List (List Token) :=
  words f.ident :: f.type :: f.tags

namespace Registration

/-- What is given of an item: its name, the function for further members, and its fields. -/
def given (r : Registration) : List (List Token) :=
  words r.ident :: (r.members.toList ++ r.fields.flatMap RegisteredField.given)

variable {r : Registration}

-- What the code is put together of is not looked into from here on.
attribute [local irreducible] words marks paren bracket brace Registration.library

end Registration

end ObjectPath.Derive
