import ObjectPath.Proofs.Members

/-!
# What declarations make of a record

A method counts for a property by its name, by what it does and by the type of its value
(`Method.CountsFor`).  A property is made of the methods that count for it: at most one getter and
at most one setter, which agree on the index they take and on the type of the value
(`Property.ConsistsOf`, `Metadata.property?_eq_some_iff`).  So neither the order of the methods nor
the methods of other properties matter, and what is left out of the metadata could as well be
deleted (`Metadata.build_pruned`).
-/

namespace ObjectPath

/-! ## The methods of a property -/

namespace Method

/-- The method counts for the property of a name: its own name is made of a role and that name, it
does what the role says, and it is Boolean if the role is `is`. -/
def CountsFor (m : Method) (name : String) : Prop :=
  ∃ role, Naming.split m.name = some (role, name) ∧ (role = .set ↔ m.isGetter = false) ∧
    (role = .is → m.type = .bool)

/-- The name of a method is made for the property of a name, whether it counts for it or not. -/
def isNamedFor (m : Method) (name : String) : Bool :=
  (Naming.split m.name).map (·.2) = some name

variable {m : Method} {name : String}

theorem countsFor_iff : m.CountsFor name ↔ m.property.toOption = some name := by
  unfold CountsFor property
  cases hsplit : Naming.split m.name with
  | none => simp [Except.toOption]
  | some p =>
    obtain ⟨role, n⟩ := p
    have hrole : (∃ r, some (role, n) = some (r, name) ∧ (r = .set ↔ m.isGetter = false) ∧
        (r = .is → m.type = .bool)) ↔
          n = name ∧ (role = .set ↔ m.isGetter = false) ∧ (role = .is → m.type = .bool) := by
      constructor
      · rintro ⟨r, h, hr⟩
        cases h
        exact ⟨rfl, hr⟩
      · rintro ⟨rfl, hr⟩
        exact ⟨role, rfl, hr⟩
    rw [hrole]
    cases role <;> cases hg : m.isGetter <;> by_cases ht : m.type = .bool <;>
      simp [Except.toOption, ht]

instance (m : Method) (name : String) : Decidable (m.CountsFor name) :=
  decidable_of_iff _ countsFor_iff.symm

theorem isNamedFor_of_countsFor (h : m.CountsFor name) : m.isNamedFor name = true := by
  obtain ⟨role, hsplit, -⟩ := h
  simp [isNamedFor, hsplit]

end Method

theorem methodsFor_eq (name : String) (methods : List Method) :
    methodsFor name methods = methods.filter fun m => decide (m.CountsFor name) := by
  unfold methodsFor
  congr 1
  funext m
  exact decide_eq_decide.2 Method.countsFor_iff.symm

theorem mem_methodsFor {name : String} {methods : List Method} {m : Method} :
    m ∈ methodsFor name methods ↔ m ∈ methods ∧ m.CountsFor name := by
  rw [methodsFor_eq, List.mem_filter, decide_eq_true_eq]

/-! ## Properties -/

namespace Property

variable {name : String} {methods : List Method} {p : Property}

/-- The property consists of some methods: they are its accessors, at most one getter and one
setter, and they have its index and its type. -/
structure ConsistsOf (p : Property) (methods : List Method) : Prop where
  getter : methods.filter (·.isGetter) = p.getter?.toList
  setter : methods.filter (!·.isGetter) = p.setter?.toList
  agree : ∀ m ∈ methods, m.type = p.type ∧ m.index? = p.index?
  any : methods ≠ []

theorem ofPair_eq_ok {getter setter : Method} (htype : getter.type = setter.type)
    (hindex : getter.index? = setter.index?) :
    ofPair name getter setter =
      .ok ⟨name, getter.type, getter.index?, some getter, some setter⟩ := by
  unfold ofPair
  rw [← hindex]
  cases hi : getter.index? <;> simp [htype]

/-- What is no getter is a setter. -/
theorem mem_filter_or (m : Method) (hm : m ∈ methods) :
    m ∈ methods.filter (·.isGetter) ∨ m ∈ methods.filter (!·.isGetter) := by
  cases hg : m.isGetter with
  | true => exact .inl (List.mem_filter.2 ⟨hm, hg⟩)
  | false => exact .inr (List.mem_filter.2 ⟨hm, by rw [hg]; rfl⟩)

/-- Some methods make a property exactly if it consists of them. -/
theorem ofMethods_eq_ok_iff :
    ofMethods name methods = .ok p ↔ p.name = name ∧ p.ConsistsOf methods := by
  constructor
  · intro h
    have hsome : ∀ m ∈ methods, m ∈ methods.filter (·.isGetter) ∨
        m ∈ methods.filter (!·.isGetter) := mem_filter_or
    unfold ofMethods at h
    split at h
    · cases h
    · next g hg hs =>
      cases h
      refine ⟨rfl, hg, hs, fun m hm => ?_, fun hnil => by simp [hnil] at hg⟩
      have hmem := hsome m hm
      rw [hg, hs] at hmem
      simp only [List.mem_singleton, List.not_mem_nil, or_false] at hmem
      subst hmem
      exact ⟨rfl, rfl⟩
    · next s hg hs =>
      cases h
      refine ⟨rfl, hg, hs, fun m hm => ?_, fun hnil => by simp [hnil] at hs⟩
      have hmem := hsome m hm
      rw [hg, hs] at hmem
      simp only [List.mem_singleton, List.not_mem_nil, false_or] at hmem
      subst hmem
      exact ⟨rfl, rfl⟩
    · next g s hg hs =>
      obtain ⟨ht, hi, rfl⟩ := ofPair_ok h
      refine ⟨rfl, hg, hs, fun m hm => ?_, fun hnil => by simp [hnil] at hg⟩
      have hmem := hsome m hm
      rw [hg, hs] at hmem
      simp only [List.mem_singleton] at hmem
      rcases hmem with rfl | rfl
      · exact ⟨rfl, rfl⟩
      · exact ⟨ht.symm, hi.symm⟩
    · cases h
  · rintro ⟨rfl, hp⟩
    obtain ⟨name, type, index?, getter?, setter?⟩ := p
    have hmem : ∀ m, m ∈ getter?.toList ∨ m ∈ setter?.toList →
        m.type = type ∧ m.index? = index? := by
      intro m hm
      rw [← hp.getter, ← hp.setter] at hm
      exact hp.agree m (hm.elim (fun h => (List.mem_filter.1 h).1) fun h => (List.mem_filter.1 h).1)
    unfold ofMethods
    rw [hp.getter, hp.setter]
    cases getter? with
    | none =>
      cases setter? with
      | none =>
        obtain ⟨m, hm⟩ := List.exists_mem_of_ne_nil _ hp.any
        have hnone := mem_filter_or m hm
        rw [hp.getter, hp.setter] at hnone
        simp at hnone
      | some w =>
        obtain ⟨rfl, rfl⟩ := hmem w (.inr (List.mem_singleton_self w))
        rfl
    | some g =>
      obtain ⟨rfl, rfl⟩ := hmem g (.inl (List.mem_singleton_self g))
      cases setter? with
      | none => rfl
      | some w =>
        obtain ⟨ht, hi⟩ := hmem w (.inr (List.mem_singleton_self w))
        exact ofPair_eq_ok ht.symm hi.symm

theorem eq_toList_head? {ms : List Method} (h : ms.length ≤ 1) : ms = ms.head?.toList := by
  match ms with
  | [] => rfl
  | [m] => rfl
  | _ :: _ :: _ =>
    simp only [List.length_cons] at h
    omega

/-- Methods agree on the index they take and on the type of their value. -/
def Agree (getter setter : Method) : Prop :=
  getter.index? = setter.index? ∧ getter.type = setter.type

/-- Some methods make a property if there is at most one getter and at most one setter among them,
at least one of both, and they agree. -/
theorem exists_consistsOf (hget : (methods.filter (·.isGetter)).length ≤ 1)
    (hset : (methods.filter (!·.isGetter)).length ≤ 1) (hany : methods ≠ [])
    (hagree : ∀ g ∈ methods, ∀ w ∈ methods, g.isGetter = true → w.isGetter = false → Agree g w) :
    ∃ p : Property, p.name = name ∧ p.ConsistsOf methods := by
  have hg := eq_toList_head? hget
  have hw := eq_toList_head? hset
  generalize (methods.filter (·.isGetter)).head? = g? at hg
  generalize (methods.filter (!·.isGetter)).head? = w? at hw
  have hmem : ∀ m ∈ methods, m ∈ g?.toList ∨ m ∈ w?.toList := fun m hm => by
    rw [← hg, ← hw]
    exact mem_filter_or m hm
  cases g? with
  | none =>
    cases w? with
    | none =>
      obtain ⟨m, hm⟩ := List.exists_mem_of_ne_nil _ hany
      simpa using hmem m hm
    | some w =>
      refine ⟨⟨name, w.type, w.index?, none, some w⟩, rfl, hg, hw, fun m hm => ?_, hany⟩
      have hmw : m = w := by simpa using hmem m hm
      rw [hmw]
      exact ⟨rfl, rfl⟩
  | some g =>
    refine ⟨⟨name, g.type, g.index?, some g, w?⟩, rfl, hg, hw, fun m hm => ?_, hany⟩
    obtain ⟨hgm, hgk⟩ := mem_of_filter_eq_singleton hg
    cases hk : m.isGetter with
    | true =>
      have hmg : m = g := by
        have hfilter : m ∈ methods.filter (·.isGetter) := List.mem_filter.2 ⟨hm, hk⟩
        rw [hg] at hfilter
        exact List.mem_singleton.1 hfilter
      rw [hmg]
      exact ⟨rfl, rfl⟩
    | false =>
      obtain ⟨hi, ht⟩ := hagree g hgm m hm hgk hk
      exact ⟨ht.symm, hi.symm⟩

theorem ConsistsOf.agrees (hp : p.ConsistsOf methods) {g w : Method} (hg : g ∈ methods)
    (hw : w ∈ methods) : Agree g w := by
  obtain ⟨htg, hig⟩ := hp.agree g hg
  obtain ⟨htw, hiw⟩ := hp.agree w hw
  exact ⟨hig.trans hiw.symm, htg.trans htw.symm⟩

theorem ConsistsOf.length_le (hp : p.ConsistsOf methods) :
    (methods.filter (·.isGetter)).length ≤ 1 ∧ (methods.filter (!·.isGetter)).length ≤ 1 := by
  rw [hp.getter, hp.setter]
  constructor
  · cases p.getter? <;> simp
  · cases p.setter? <;> simp

theorem eq_toList_of_perm {ms : List Method} {o : Option Method} (h : ms.Perm o.toList) :
    ms = o.toList := by
  cases o with
  | none => exact List.perm_nil.1 h
  | some m => exact List.perm_singleton.1 h

/-- What methods make does not depend on their order. -/
theorem ConsistsOf.perm {methods' : List Method} (hp : p.ConsistsOf methods)
    (h : methods'.Perm methods) : p.ConsistsOf methods' where
  getter := eq_toList_of_perm (hp.getter ▸ h.filter (·.isGetter))
  setter := eq_toList_of_perm (hp.setter ▸ h.filter (!·.isGetter))
  agree m hm := hp.agree m (h.mem_iff.1 hm)
  any hnil := hp.any (List.perm_nil.1 (hnil ▸ h.symm))

end Property

/-! ## Metadata -/

namespace Metadata

variable {d : Declarations} {name : String} {p : Property} {methods : List Method}

theorem mem_candidates : name ∈ candidates methods ↔ ∃ m ∈ methods, m.CountsFor name := by
  simp only [candidates, List.mem_eraseDups, List.mem_filterMap, Method.countsFor_iff]

theorem name_of_ofMethods (h : (Property.ofMethods name methods).toOption = some p) :
    p.name = name := by
  cases hp : Property.ofMethods name methods with
  | error e => rw [hp] at h; cases h
  | ok q =>
    rw [hp] at h
    cases h
    exact (Property.ofMethods_eq_ok_iff.1 hp).1

/-- Among properties that are made for their names, the one of a name is found by the name. -/
theorem find?_filterMap_name {f : String → Option Property}
    (hf : ∀ n q, f n = some q → q.name = n) (names : List String) :
    (names.filterMap f).find? (fun q => q.name = name) = if name ∈ names then f name else none := by
  induction names with
  | nil => rfl
  | cons n names ih =>
    cases hn : f n with
    | none =>
      rw [List.filterMap_cons_none hn, ih]
      by_cases hname : name = n
      · subst hname
        simp [hn]
      · simp [hname]
    | some q =>
      have hq := hf n q hn
      rw [List.filterMap_cons_some hn, List.find?_cons, hq]
      by_cases hname : n = name
      · subst hname
        simp [hn]
      · have hne : name ≠ n := fun h => hname h.symm
        simp [hname, hne, ih]

/-- The property of a name is made of the methods that count for it. -/
theorem property?_build :
    (build d).property? name =
      (Property.ofMethods name (methodsFor name d.methods)).toOption := by
  show ((candidates d.methods).filterMap fun n =>
    (Property.ofMethods n (methodsFor n d.methods)).toOption).find? (fun q => q.name = name) = _
  rw [find?_filterMap_name fun n q => name_of_ofMethods]
  by_cases hname : name ∈ candidates d.methods
  · rw [if_pos hname]
  · have hnone : methodsFor name d.methods = [] := by
      rw [List.eq_nil_iff_forall_not_mem]
      intro m hm
      rw [mem_methodsFor] at hm
      exact hname (mem_candidates.2 ⟨m, hm⟩)
    rw [if_neg hname, hnone]
    rfl

theorem toOption_eq_some {r : Except Conflict Property} : r.toOption = some p ↔ r = .ok p := by
  cases r <;> simp [Except.toOption]

/-- A record has a property exactly if the property consists of the methods that count for its
name. -/
theorem property?_eq_some_iff :
    (build d).property? name = some p ↔
      p.name = name ∧ p.ConsistsOf (methodsFor name d.methods) := by
  rw [property?_build, toOption_eq_some, Property.ofMethods_eq_ok_iff]

/-- The properties are those that are found by their names. -/
theorem mem_properties : p ∈ (build d).properties ↔ (build d).property? p.name = some p := by
  constructor
  · intro h
    obtain ⟨n, -, hn⟩ := List.mem_filterMap.1 h
    obtain rfl := name_of_ofMethods hn
    rw [property?_build]
    exact hn
  · exact List.mem_of_find?_eq_some

/-- The property of a name depends on the methods named for it only. -/
theorem property?_congr {e : Declarations}
    (h : e.methods.filter (·.isNamedFor name) = d.methods.filter (·.isNamedFor name)) :
    (build e).property? name = (build d).property? name := by
  have hsame : ∀ methods : List Method, methodsFor name methods =
      (methods.filter (·.isNamedFor name)).filter fun m => decide (m.CountsFor name) := by
    intro methods
    rw [methodsFor_eq, List.filter_filter]
    congr 1
    funext m
    by_cases hm : m.CountsFor name
    · simp [hm, Method.isNamedFor_of_countsFor hm]
    · simp [hm]
  rw [property?_build, property?_build, hsame e.methods, h, ← hsame]

/-- The property of a name does not depend on the order of the methods. -/
theorem property?_perm {e : Declarations} (h : e.methods.Perm d.methods) :
    (build e).property? name = (build d).property? name := by
  have hfor : (methodsFor name e.methods).Perm (methodsFor name d.methods) := h.filter _
  ext q
  show (build e).property? name = some q ↔ (build d).property? name = some q
  rw [property?_eq_some_iff, property?_eq_some_iff]
  exact and_congr_right fun _ => ⟨fun hq => hq.perm hfor.symm, fun hq => hq.perm hfor⟩

/-! ## Names without repetition -/

/-- It does not matter whether names are picked before or after the repeated ones are left out: by
induction on a bound of their number, since each name that is kept removes others behind it. -/
theorem eraseDups_filter (q : String → Bool) (n : Nat) :
    ∀ names : List String, names.length ≤ n →
      (names.filter q).eraseDups = names.eraseDups.filter q := by
  induction n with
  | zero =>
    intro names h
    rw [List.length_eq_zero_iff.1 (Nat.le_zero.1 h)]
    rfl
  | succ n ih =>
    intro names h
    cases names with
    | nil => rfl
    | cons a names =>
      have hshort : (names.filter fun b => !b == a).length ≤ n :=
        Nat.le_trans (List.length_filter_le _ _) (Nat.le_of_succ_le_succ h)
      have hrest := ih (names.filter fun b => !b == a) hshort
      rw [List.filter_filter] at hrest
      by_cases ha : q a = true
      · rw [List.filter_cons_of_pos ha, List.eraseDups_cons, List.eraseDups_cons,
          List.filter_cons_of_pos ha, ← hrest, List.filter_filter]
        simp only [Bool.and_comm]
      · rw [List.filter_cons_of_neg ha, List.eraseDups_cons, List.filter_cons_of_neg ha, ← hrest]
        congr 1
        refine List.filter_congr fun b _ => ?_
        by_cases hb : b = a
        · subst hb
          simp [ha]
        · simp [hb]

theorem nodup_eraseDups (n : Nat) :
    ∀ names : List String, names.length ≤ n → names.eraseDups.Nodup := by
  induction n with
  | zero =>
    intro names h
    rw [List.length_eq_zero_iff.1 (Nat.le_zero.1 h)]
    exact List.nodup_nil
  | succ n ih =>
    intro names h
    cases names with
    | nil => exact List.nodup_nil
    | cons a names =>
      have hshort : (names.filter fun b => !b == a).length ≤ n :=
        Nat.le_trans (List.length_filter_le _ _) (Nat.le_of_succ_le_succ h)
      rw [List.eraseDups_cons, List.nodup_cons, List.mem_eraseDups, List.mem_filter]
      refine ⟨fun hmem => ?_, ih _ hshort⟩
      simp at hmem

/-- Methods in another order have the same properties, maybe in another order. -/
theorem properties_perm {e : Declarations} (h : e.methods.Perm d.methods) :
    (build e).properties.Perm (build d).properties := by
  have hcandidates : (candidates e.methods).Perm (candidates d.methods) := by
    refine (List.perm_ext_iff_of_nodup (nodup_eraseDups _ _ (Nat.le_refl _))
      (nodup_eraseDups _ _ (Nat.le_refl _))).2 fun n => ?_
    rw [← candidates, ← candidates, mem_candidates, mem_candidates]
    simp only [h.mem_iff]
  have hmade : ∀ n, (Property.ofMethods n (methodsFor n e.methods)).toOption =
      (Property.ofMethods n (methodsFor n d.methods)).toOption := by
    intro n
    rw [← property?_build, ← property?_build, property?_perm h]
  simp only [build, hmade]
  exact hcandidates.filterMap _

/-! ## Fields -/

variable {fields : List Field}

theorem find?_firstFields (fields : List Field) :
    (firstFields fields).find? (fun f => f.name = name) = fields.find? fun f => f.name = name := by
  induction fields with
  | nil => rfl
  | cons f fields ih =>
    rw [firstFields, List.find?_cons, List.find?_cons]
    by_cases hf : f.name = name
    · simp [hf]
    · have hother : ∀ g : Field, (g.name ≠ f.name ∧ g.name = name) ↔ g.name = name := fun g =>
        ⟨fun h => h.2, fun h => ⟨fun hg => hf (hg.symm.trans h), h⟩⟩
      simp only [hf, decide_false, List.find?_filter, decide_eq_true_eq, hother, ih]

/-- The first of some fields with a name is the field of the name. -/
theorem field?_build : (build d).field? name = d.fields.find? fun f => f.name = name :=
  find?_firstFields d.fields

theorem pairwise_firstFields (fields : List Field) :
    (firstFields fields).Pairwise fun f g => f.name ≠ g.name := by
  induction fields with
  | nil => exact .nil
  | cons f fields ih =>
    rw [firstFields, List.pairwise_cons]
    refine ⟨fun g hg => ?_, ih.filter _⟩
    have hne := (List.mem_filter.1 hg).2
    exact fun h => by simp [h] at hne

theorem firstFields_eq_self (h : fields.Pairwise fun f g => f.name ≠ g.name) :
    firstFields fields = fields := by
  induction fields with
  | nil => rfl
  | cons f fields ih =>
    obtain ⟨hf, hrest⟩ := List.pairwise_cons.1 h
    rw [firstFields, ih hrest]
    congr 1
    refine List.filter_eq_self.2 fun g hg => ?_
    exact decide_eq_true fun he => hf g hg he.symm

/-! ## Declarations without those that are left out -/

end Metadata

/-- Whether a method takes part in the metadata: it counts for a property that they have. -/
def Declarations.uses (d : Declarations) (m : Method) : Bool :=
  match m.property with
  | .ok name => ((Metadata.build d).property? name).isSome
  | .error _ => false

/-- The declarations without the methods that are ignored, those of dropped properties and the
fields that are declared again. -/
def Declarations.pruned (d : Declarations) : Declarations where
  methods := d.methods.filter d.uses
  fields := Metadata.firstFields d.fields

namespace Metadata

variable {d : Declarations} {name : String}

theorem uses_of_countsFor {m : Method} (h : m.CountsFor name) :
    d.uses m = ((build d).property? name).isSome := by
  rw [Method.countsFor_iff] at h
  cases hp : m.property with
  | error e => rw [hp] at h; cases h
  | ok n =>
    rw [hp] at h
    cases h
    rw [Declarations.uses, hp]

/-- The methods of a property are all kept, and those of a dropped one all deleted. -/
theorem methodsFor_pruned (d : Declarations) (name : String) :
    methodsFor name d.pruned.methods =
      if ((build d).property? name).isSome then methodsFor name d.methods else [] := by
  show methodsFor name (d.methods.filter d.uses) = _
  rw [methodsFor_eq, methodsFor_eq, List.filter_filter]
  by_cases hkept : ((build d).property? name).isSome = true
  · rw [if_pos hkept]
    refine List.filter_congr fun m _ => ?_
    by_cases hm : m.CountsFor name
    · simp [hm, uses_of_countsFor hm, hkept]
    · simp [hm]
  · rw [if_neg hkept, List.filter_eq_nil_iff]
    intro m _ hm
    simp only [Bool.and_eq_true, decide_eq_true_eq] at hm
    rw [uses_of_countsFor hm.1] at hm
    exact hkept hm.2

theorem candidates_pruned (d : Declarations) :
    candidates d.pruned.methods =
      (candidates d.methods).filter fun n => ((build d).property? n).isSome := by
  rw [candidates, candidates, ← eraseDups_filter _ _ _ (Nat.le_refl _), List.filter_filterMap]
  show ((d.methods.filter d.uses).filterMap fun m => m.property.toOption).eraseDups = _
  rw [List.filterMap_filter]
  congr 2
  funext m
  cases hm : m.property with
  | error e => simp [Except.toOption]
  | ok n => simp [Declarations.uses, hm, Except.toOption, Option.filter]

/-- The metadata are those of the declarations that are left when the ones that were ignored or
dropped are deleted. -/
theorem build_pruned (d : Declarations) : build d.pruned = build d := by
  have hmade : ∀ n, ((build d).property? n).isSome = true →
      Property.ofMethods n (methodsFor n d.pruned.methods) =
        Property.ofMethods n (methodsFor n d.methods) := by
    intro n hn
    rw [methodsFor_pruned, if_pos hn]
  have hproperties : (build d.pruned).properties = (build d).properties := by
    show (candidates d.pruned.methods).filterMap _ = (candidates d.methods).filterMap _
    rw [candidates_pruned, List.filterMap_filter]
    congr 1
    funext n
    by_cases hn : ((build d).property? n).isSome = true
    · rw [if_pos hn, hmade n hn]
    · rw [if_neg hn, ← property?_build]
      exact (Option.not_isSome_iff_eq_none.1 hn).symm
  have hfields : firstFields (firstFields d.fields) = firstFields d.fields :=
    firstFields_eq_self (pairwise_firstFields d.fields)
  show Metadata.mk (build d.pruned).properties (firstFields (firstFields d.fields)) = build d
  rw [hproperties, hfields]
  rfl

end Metadata

end ObjectPath
