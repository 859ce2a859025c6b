import ObjectPath.Convert.Converter

/-!
# Registries

A registry knows the converter for a type.  A later registration for a type hides an earlier one.
-/

namespace ObjectPath

/-- Converters by the type they are registered for, the latest first. -/
structure Registry where
  entries : List (Ty × Converter)

namespace Registry

/-- The registry without any converter. -/
def empty : Registry := ⟨[]⟩

/-- Registers a converter for a type. -/
def register (r : Registry) (t : Ty) (c : Converter) : Registry := ⟨(t, c) :: r.entries⟩

/-- The converter registered for a type. -/
def get? (r : Registry) (t : Ty) : Option Converter :=
  (r.entries.find? fun e => e.1 = t).map (·.2)

/-- Whether a converter is registered for a type. -/
def contains (r : Registry) (t : Ty) : Bool := r.entries.any fun e => e.1 = t

/-- The latest registration for a type is the one that counts. -/
theorem get?_register (r : Registry) (t u : Ty) (c : Converter) :
    (r.register t c).get? u = if t = u then some c else r.get? u := by
  unfold get? register
  by_cases h : t = u <;> simp [h]

theorem contains_eq_isSome_get? (r : Registry) (t : Ty) : r.contains t = (r.get? t).isSome := by
  rw [contains, get?, Option.isSome_map, Bool.eq_iff_iff, List.any_eq_true, List.find?_isSome]

/-- The numeric leaf types. -/
def numeric : List LeafTy :=
  [.int .i8, .int .i16, .int .i32, .int .i64, .int .i128, .int .isize,
    .int .u8, .int .u16, .int .u32, .int .u64, .int .u128, .int .usize,
    .float .single, .float .double]

/-- Registers the trimming converters of some leaf types. -/
def registerForms (r : Registry) : List LeafTy → Registry
  | [] => r
  | t :: ts =>
    match t.form? with
    | some f => (r.register (.leaf t) (.ofForm f true)).registerForms ts
    | none => r.registerForms ts

/-- The registry with the converters for Booleans, texts, characters and numbers.  A character is
taken as it is, blank or not; around a number blanks are ignored. -/
def standard : Registry :=
  (((empty.register .bool .lenientBool).register .text .verbatim).register .char
    (.ofForm ⟨.char, readChar, Value.leafText⟩ false)).registerForms numeric

end Registry

end ObjectPath
