import ObjectPath.Convert.Converter

/-!
# Tags

Tags mark a member with something the evaluator need not know about.  A set of tags holds at most
one tag of each kind; a later tag replaces an earlier one.
-/

namespace ObjectPath

/-- A tag of a member. -/
inductive Tag
  /-- A label. -/
  | label (s : String)
  /-- A bound on a length. -/
  | maxLength (n : Nat)
  /-- A mark without content. -/
  | required
  /-- The converter to use for the member in place of the registered one. -/
  | convert (c : Converter)

/-- The kinds of tags. -/
inductive TagKind
  | label
  | maxLength
  | required
  | convert
deriving DecidableEq, Repr

/-- The kind of a tag. -/
def Tag.kind : Tag → TagKind
  | .label _ => .label
  | .maxLength _ => .maxLength
  | .required => .required
  | .convert _ => .convert

/-- The converter a tag holds. -/
def Tag.converter? : Tag → Option Converter
  | .convert c => some c
  | _ => none

/-- A set of tags of different kinds. -/
structure Tags where
  toList : List Tag

namespace Tags

/-- No tags. -/
def empty : Tags := ⟨[]⟩

/-- The tag of a kind. -/
def get? (ts : Tags) (k : TagKind) : Option Tag := ts.toList.find? fun t => t.kind = k

/-- Attaches a tag in place of one of its kind. -/
def insert (ts : Tags) (t : Tag) : Tags :=
  ⟨if (ts.get? t.kind).isSome then ts.toList.map fun u => if u.kind = t.kind then t else u
    else ts.toList ++ [t]⟩

theorem find?_map_replace (t : Tag) (k : TagKind) (us : List Tag) :
    (us.map fun u => if u.kind = t.kind then t else u).find? (fun u => u.kind = k) =
      if t.kind = k then (us.find? fun u => u.kind = t.kind).map fun _ => t
      else us.find? fun u => u.kind = k := by
  induction us with
  | nil => simp
  | cons u us ih =>
    rw [List.map_cons, List.find?_cons, ih]
    by_cases hk : t.kind = k
    · by_cases hu : u.kind = t.kind
      · simp [hu, hk]
      · have hu' : u.kind ≠ k := fun h => hu (h.trans hk.symm)
        simp [hk, hu']
    · by_cases hu : u.kind = t.kind
      · have hu' : u.kind ≠ k := fun h => hk (hu.symm.trans h)
        simp [hu, hk]
      · simp [hu, hk, List.find?_cons]

/-- Attaching a tag changes the tag of one kind. -/
theorem get?_insert (ts : Tags) (t : Tag) (k : TagKind) :
    (ts.insert t).get? k = if t.kind = k then some t else ts.get? k := by
  unfold insert get?
  cases h : ts.toList.find? fun u => u.kind = t.kind with
  | none =>
    by_cases hk : t.kind = k
    · subst hk
      simp [h]
    · simp [hk]
  | some u =>
    simp only [Option.isSome_some, if_true, find?_map_replace, h, Option.map_some]

/-- The tags of a list, attached one after the other. -/
def ofList (ts : List Tag) : Tags := ts.foldl insert empty

/-- The number of tags. -/
def size (ts : Tags) : Nat := ts.toList.length

/-- The text that shows a set of tags: their number. -/
def shown (ts : Tags) : String := "Tags(" ++ toString ts.size ++ ")"

end Tags

end ObjectPath
