import ObjectPath.Proofs.Fields

/-!
# The order of keys

Keys are ordered by their ranks, lists of numbers.  The rank of a key of some type does not begin
the rank of another key of that type (`HasType.rank_append_inj`), so any two keys of one type are
in order (`Value.precedes_or_precedes`).

Maps that list their entries by key therefore do not tell in which order two entries came in.  A
map in the order of insertion does, but only if both of them are new (`Entries.insert_insert`).
-/

namespace ObjectPath

/-! ## Ranks -/

namespace Value

/-- Where the ranks of two values begin the same numbers, they are the same value. -/
def RankedApart (v w : Value) : Prop :=
  ∀ r r', v.rank ++ r = w.rank ++ r' → v = w ∧ r = r'

variable {v w : Value} {xs ys : List Value} {r r' : List Int}

theorem rankItems_append_inj
    (h : ∀ (i : Nat) (x y : Value), xs[i]? = some x → ys[i]? = some y → x.RankedApart y)
    (heq : rankItems xs ++ r = rankItems ys ++ r') : xs = ys ∧ r = r' := by
  induction xs generalizing ys with
  | nil =>
    cases ys with
    | nil => exact ⟨rfl, (List.cons.inj heq).2⟩
    | cons y ys => cases (List.cons.inj heq).1
  | cons x xs ih =>
    cases ys with
    | nil => cases (List.cons.inj heq).1
    | cons y ys =>
      simp only [rankItems, List.cons_append, List.append_assoc, List.cons.injEq, true_and] at heq
      obtain ⟨rfl, hitems⟩ := h 0 x y rfl rfl _ _ heq
      obtain ⟨rfl, hr⟩ := ih (fun i => h (i + 1)) hitems
      exact ⟨rfl, hr⟩

theorem rankEntries_append_inj {es es' : List (Value × Value)}
    (h : ∀ e ∈ es, ∀ e' ∈ es', e.1.RankedApart e'.1 ∧ e.2.RankedApart e'.2)
    (heq : rankEntries es ++ r = rankEntries es' ++ r') : es = es' ∧ r = r' := by
  induction es generalizing es' with
  | nil =>
    cases es' with
    | nil => exact ⟨rfl, (List.cons.inj heq).2⟩
    | cons e' es' => cases (List.cons.inj heq).1
  | cons e es ih =>
    cases es' with
    | nil => cases (List.cons.inj heq).1
    | cons e' es' =>
      obtain ⟨k, x⟩ := e
      obtain ⟨k', x'⟩ := e'
      obtain ⟨hkey, hvalue⟩ := h _ (.head _) _ (.head _)
      simp only [rankEntries, List.cons_append, List.append_assoc, List.cons.injEq,
        true_and] at heq
      obtain ⟨rfl, hafter⟩ := hkey _ _ heq
      obtain ⟨rfl, hrest⟩ := hvalue _ _ hafter
      obtain ⟨rfl, hr⟩ := ih (fun e he e' he' => h e (.tail _ he) e' (.tail _ he')) hrest
      exact ⟨rfl, hr⟩

/-- The numbers of the characters of a text end at a zero. -/
theorem rankChars_append_inj {cs ds : List Char}
    (heq : cs.map (fun c => (c.toNat : Int) + 1) ++ 0 :: r =
      ds.map (fun c => (c.toNat : Int) + 1) ++ 0 :: r') : cs = ds ∧ r = r' := by
  induction cs generalizing ds with
  | nil =>
    cases ds with
    | nil => exact ⟨rfl, (List.cons.inj heq).2⟩
    | cons d ds =>
      have hhead : (0 : Int) = d.toNat + 1 := (List.cons.inj heq).1
      omega
  | cons c cs ih =>
    cases ds with
    | nil =>
      have hhead : (c.toNat : Int) + 1 = 0 := (List.cons.inj heq).1
      omega
    | cons d ds =>
      have hhead : (c.toNat : Int) + 1 = d.toNat + 1 := (List.cons.inj heq).1
      have hnat : c.toNat = d.toNat := by omega
      obtain rfl := Char.toNat_inj.1 hnat
      obtain ⟨rfl, hr⟩ := ih (List.cons.inj heq).2
      exact ⟨rfl, hr⟩

theorem rankedApart_leaf {l l' : Leaf} (h : l.type = l'.type) :
    (leaf l).RankedApart (leaf l') := by
  intro r r' heq
  cases l with
  | text s =>
    cases l' with
    | text s' =>
      simp only [rank, List.append_assoc, List.singleton_append] at heq
      obtain ⟨hs, hr⟩ := rankChars_append_inj heq
      rw [String.toList_inj.1 hs]
      exact ⟨rfl, hr⟩
    | bool | char | int | float | named => cases h
  | bool b =>
    cases l' with
    | bool b' =>
      obtain ⟨hb, hr⟩ := List.cons.inj heq
      refine ⟨?_, hr⟩
      cases b <;> cases b' <;> first | rfl | cases hb
    | text | char | int | float | named => cases h
  | char c =>
    cases l' with
    | char c' =>
      obtain ⟨hc, hr⟩ := List.cons.inj heq
      have hnat : c.toNat = c'.toNat := by omega
      rw [Char.toNat_inj.1 hnat]
      exact ⟨rfl, hr⟩
    | text | bool | int | float | named => cases h
  | int t n =>
    cases l' with
    | int t' n' =>
      obtain ⟨rfl, hr⟩ := List.cons.inj heq
      cases h
      exact ⟨rfl, hr⟩
    | text | bool | char | float | named => cases h
  | float t n =>
    cases l' with
    | float t' n' =>
      obtain ⟨hn, hr⟩ := List.cons.inj heq
      cases h
      rw [Int.ofNat_inj.1 hn]
      exact ⟨rfl, hr⟩
    | text | bool | char | int | named => cases h
  | named p n =>
    cases l' with
    | named p' n' =>
      obtain ⟨hn, hr⟩ := List.cons.inj heq
      cases h
      rw [Int.ofNat_inj.1 hn]
      exact ⟨rfl, hr⟩
    | text | bool | char | int | float => cases h

end Value

/-- A value of a type is known from the numbers that its rank begins. -/
theorem HasType.rank_append_inj {s : Schema} {v : Value} {t : Ty} (h : HasType s v t) :
    ∀ {w : Value}, HasType s w t → v.RankedApart w := by
  induction h with
  | @leaf l hl =>
    intro w hw
    generalize ht : Ty.leaf l.type = t at hw
    cases hw with
    | leaf => exact Value.rankedApart_leaf (Ty.leaf.inj ht)
    | absent | present | seq | map | record => cases ht
  | absent t =>
    intro w hw r r' heq
    cases hw with
    | absent => exact ⟨rfl, (List.cons.inj heq).2⟩
    | present => cases (List.cons.inj heq).1
  | present h ih =>
    intro w hw r r' heq
    cases hw with
    | absent => cases (List.cons.inj heq).1
    | present hw =>
      obtain ⟨rfl, hr⟩ := ih hw r r' (List.cons.inj heq).2
      exact ⟨rfl, hr⟩
  | seq h ih =>
    intro w hw r r' heq
    cases hw with
    | seq hw =>
      obtain ⟨rfl, hr⟩ := Value.rankItems_append_inj (fun i x y hx hy =>
        ih x (List.mem_of_getElem? hx) (hw y (List.mem_of_getElem? hy))) heq
      exact ⟨rfl, hr⟩
  | map hk hv ihk ihv =>
    intro w hw r r' heq
    cases hw with
    | map hk' hv' =>
      obtain ⟨rfl, hr⟩ := Value.rankEntries_append_inj (fun e he e' he' =>
        ⟨ihk e he (hk' e' he'), ihv e he (hv' e' he')⟩) heq
      exact ⟨rfl, hr⟩
  | @record p d xs hd hlen h ih =>
    intro w hw r r' heq
    cases hw with
    | @record _ d' ys hd' hlen' h' =>
      obtain rfl : d = d' := Option.some.inj (hd.symm.trans hd')
      obtain ⟨rfl, hr⟩ := Value.rankItems_append_inj (fun i x y hx hy => by
        have hi := (List.getElem?_eq_some_iff.1 hx).1
        rw [hlen] at hi
        have hslot := List.getElem?_eq_getElem hi
        exact ih i x _ hx hslot (h' i y _ hy hslot)) heq
      exact ⟨rfl, hr⟩

/-! ## Order -/

namespace Value

variable {k l m : Value}

theorem precedes_trans (h : k.precedes l = true) (h' : l.precedes m = true) :
    k.precedes m = true := by
  unfold precedes at *
  exact decide_eq_true (List.lt_trans (of_decide_eq_true h) (of_decide_eq_true h'))

theorem precedes_asymm (h : k.precedes l = true) : l.precedes k = false := by
  unfold precedes at *
  exact decide_eq_false (List.lt_asymm (of_decide_eq_true h))

/-- Of two keys of one type, one comes first. -/
theorem precedes_or_precedes {s : Schema} {t : Ty} (hk : HasType s k t) (hl : HasType s l t)
    (hne : k ≠ l) : k.precedes l = true ∨ l.precedes k = true := by
  by_cases hkl : k.rank < l.rank
  · exact .inl (decide_eq_true hkl)
  · by_cases hlk : l.rank < k.rank
    · exact .inr (decide_eq_true hlk)
    · have hrank : k.rank = l.rank := List.le_antisymm (List.not_lt.1 hlk) (List.not_lt.1 hkl)
      exact absurd (hk.rank_append_inj hl [] [] (by rw [hrank])).1 hne

end Value

/-! ## Entries that come in one after the other -/

namespace Entries

variable {kind : MapKind} {k l : Value}

theorem replace_comm (hne : k ≠ l) (x y : Value) (es : List (Value × Value)) :
    replace k x (replace l y es) = replace l y (replace k x es) := by
  induction es with
  | nil => rfl
  | cons e es ih =>
    obtain ⟨m, v⟩ := e
    by_cases hk : m = k
    · subst hk
      simp [replace, hne]
    · by_cases hl : m = l
      · simp [replace, hl, Ne.symm hne]
      · simp [replace, hk, hl, ih]

/-- A new entry comes to the same place, whatever the values of the others are. -/
theorem replace_place_of_ne (kind : MapKind) (hne : k ≠ l) (x y : Value)
    (es : List (Value × Value)) :
    replace k x (place kind l y es) = place kind l y (replace k x es) := by
  induction es with
  | nil => simp [place, replace, Ne.symm hne]
  | cons e es ih =>
    obtain ⟨m, v⟩ := e
    by_cases hk : m = k
    · subst hk
      by_cases hl : (kind.byKey && l.precedes m) = true
      · simp [place, replace, hl, Ne.symm hne]
      · simp [place, replace, hl]
    · by_cases hl : (kind.byKey && l.precedes m) = true
      · simp [place, replace, hl, hk, Ne.symm hne]
      · simp [place, replace, hl, hk, ih]

/-- Two new entries of a map by key are listed in their order. -/
theorem place_comm (hkind : kind.byKey = true) (hkl : k.precedes l = true) (x y : Value)
    (es : List (Value × Value)) :
    place kind k x (place kind l y es) = place kind l y (place kind k x es) := by
  have hlk := Value.precedes_asymm hkl
  induction es with
  | nil => simp [place, hkind, hkl, hlk]
  | cons e es ih =>
    obtain ⟨m, v⟩ := e
    by_cases hl : l.precedes m = true
    · have hk := Value.precedes_trans hkl hl
      simp [place, hkind, hkl, hlk, hk, hl]
    · by_cases hk : k.precedes m = true
      · simp [place, hkind, hlk, hk, hl]
      · simp [place, hkind, hk, hl, ih]

/-- Two entries come in in any order, with the same outcome unless both are listed in that order. -/
theorem insert_insert (kind : MapKind) (es : List (Value × Value)) (hne : k ≠ l) (x y : Value)
    (horder : k.precedes l = true ∨ l.precedes k = true) :
    insert kind k x (insert kind l y es) = insert kind l y (insert kind k x es) ∨
      kind.byKey = false ∧ get? k es = none ∧ get? l es = none ∧
        insert kind k x (insert kind l y es) = es ++ [(l, y), (k, x)] ∧
        insert kind l y (insert kind k x es) = es ++ [(k, x), (l, y)] := by
  have hk : get? k (insert kind l y es) = get? k es := by rw [get?_insert, if_neg hne]
  have hl : get? l (insert kind k x es) = get? l es := by rw [get?_insert, if_neg (Ne.symm hne)]
  unfold insert at hk hl ⊢
  rw [hk, hl]
  cases get? k es with
  | some v =>
    cases get? l es with
    | some w => exact .inl (replace_comm hne x y es)
    | none => exact .inl (replace_place_of_ne kind hne x y es)
  | none =>
    cases get? l es with
    | some w => exact .inl (replace_place_of_ne kind (Ne.symm hne) y x es).symm
    | none =>
      cases hkind : kind.byKey with
      | true =>
        rcases horder with h | h
        · exact .inl (place_comm hkind h x y es)
        · exact .inl (place_comm hkind h y x es).symm
      | false =>
        refine .inr ⟨rfl, rfl, rfl, ?_, ?_⟩ <;> simp [place_eq_append hkind]

end Entries

end ObjectPath
