import ObjectPath.Value

/-!
# Entries of a map

The entries of a map are a list of pairs without two equal keys.  A `BTreeMap` keeps the list in the
order of its keys.  For an `IndexMap` the list is in the order in which the crate `indexmap`
documents that it keeps its entries: inserting a key that is not there appends it at the end, and
replacing the value under a key leaves the key where it is.
-/

namespace ObjectPath.Entries

/-- The value under a key. -/
def get? (key : Value) : List (Value × Value) → Option Value
  | [] => none
  | (k, v) :: es => if k = key then some v else get? key es

/-- The entries with another value under a key that is there. -/
def replace (key value : Value) : List (Value × Value) → List (Value × Value)
  | [] => []
  | (k, v) :: es => if k = key then (k, value) :: es else (k, v) :: replace key value es

/-- The entries with a new entry at its place: before the first key that is not less if the map is
ordered by key, else at the end.  The latter is what is documented for `IndexMap::insert`. -/
def place (kind : MapKind) (key value : Value) : List (Value × Value) → List (Value × Value)
  | [] => [(key, value)]
  | (k, v) :: es =>
    if kind.byKey && key.precedes k then (key, value) :: (k, v) :: es
    else (k, v) :: place kind key value es

/-- The entries with a value under a key, whether the key was there or not. -/
def insert (kind : MapKind) (key value : Value) (es : List (Value × Value)) :
    List (Value × Value) :=
  if (get? key es).isSome then replace key value es else place kind key value es

/-- Putting back the value that is there changes nothing. -/
theorem replace_get? {key v : Value} {es : List (Value × Value)} (h : get? key es = some v) :
    replace key v es = es := by
  induction es with
  | nil => cases h
  | cons e es ih =>
    obtain ⟨k, w⟩ := e
    simp only [get?] at h
    simp only [replace]
    split at h
    · next hk => simp_all
    · next hk => rw [if_neg hk, ih h]

/-- Replacing a value keeps the keys and their order. -/
theorem map_fst_replace (key value : Value) (es : List (Value × Value)) :
    (replace key value es).map (·.1) = es.map (·.1) := by
  induction es with
  | nil => rfl
  | cons e es ih =>
    obtain ⟨k, w⟩ := e
    simp only [replace]
    split <;> simp [ih]

theorem get?_replace_self {key v : Value} (value : Value) {es : List (Value × Value)}
    (h : get? key es = some v) : get? key (replace key value es) = some value := by
  induction es with
  | nil => cases h
  | cons e es ih =>
    obtain ⟨k, w⟩ := e
    simp only [replace]
    split
    · next hk => simp [get?, hk]
    · next hk =>
      rw [get?, if_neg hk] at h ⊢
      exact ih h

theorem get?_replace_of_ne {key other : Value} (h : other ≠ key) (value : Value)
    (es : List (Value × Value)) : get? other (replace key value es) = get? other es := by
  induction es with
  | nil => rfl
  | cons e es ih =>
    obtain ⟨k, w⟩ := e
    simp only [replace]
    split
    · next hk =>
      have hk' : k ≠ other := fun h' => h (h'.symm.trans hk)
      simp [get?, hk']
    · next hk => simp only [get?, ih]

theorem get?_place_self {kind : MapKind} {key : Value} (value : Value)
    {es : List (Value × Value)} (h : get? key es = none) :
    get? key (place kind key value es) = some value := by
  induction es with
  | nil => simp [place, get?]
  | cons e es ih =>
    obtain ⟨k, w⟩ := e
    simp only [place]
    split
    · simp [get?]
    · have hk : k ≠ key := fun hk => by simp [get?, hk] at h
      rw [get?, if_neg hk] at h ⊢
      exact ih h

theorem get?_place_of_ne {kind : MapKind} {key other : Value} (h : other ≠ key) (value : Value)
    (es : List (Value × Value)) : get? other (place kind key value es) = get? other es := by
  induction es with
  | nil => simp [place, get?, Ne.symm h]
  | cons e es ih =>
    obtain ⟨k, w⟩ := e
    simp only [place]
    split
    · simp [get?, Ne.symm h]
    · simp only [get?, ih]

/-- Inserting changes what is under one key. -/
theorem get?_insert (kind : MapKind) (key other value : Value) (es : List (Value × Value)) :
    get? other (insert kind key value es) =
      if other = key then some value else get? other es := by
  unfold insert
  cases hk : get? key es with
  | none =>
    by_cases h : other = key
    · subst h
      simp [get?_place_self value hk]
    · simp [h, get?_place_of_ne h]
  | some v =>
    by_cases h : other = key
    · subst h
      simp [get?_replace_self value hk]
    · simp [h, get?_replace_of_ne h]

end ObjectPath.Entries
