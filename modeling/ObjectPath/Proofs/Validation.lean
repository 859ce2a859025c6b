import ObjectPath.Proofs.Declarations
import ObjectPath.Proofs.Walks

/-!
# Validating declarations

An evaluation knows a record by the members that names lead to and by its fresh value
(`Evaluator.evaluatesLike_of_sameMembers`).  So it goes on as before when declarations are deleted
that the metadata leave out: a property that was dropped does not hide the field of its name.
`Declarations.validated` collects what validation makes of any declarations.
-/

namespace ObjectPath

/-! ## Evaluations under other declarations -/

/-- Two schemas with the same members of every type and the same default values. -/
structure Schema.SameMembers (s s' : Schema) : Prop where
  member? : ∀ t name, (s.metadata? t).bind (·.member? name) = (s'.metadata? t).bind (·.member? name)
  default? : ∀ t, s.default? t = s'.default? t

/-- Two evaluators that evaluate every expression alike: all reads and writes have the same outcome
and the same events. -/
structure Evaluator.EvaluatesLike (ev ev' : Evaluator) : Prop where
  get : ∀ source root, ev.get source root = ev'.get source root
  getValue : ∀ source t root, ev.getValue source t root = ev'.getValue source t root
  getString : ∀ source root, ev.getString source root = ev'.getString source root
  getTag : ∀ source k root, ev.getTag source k root = ev'.getTag source k root
  set : ∀ source payload root, ev.set source payload root = ev'.set source payload root

/-! ### Steps -/

namespace Step

variable {s s' : Schema} (h : ∀ t, s.default? t = s'.default? t)

include h

theorem pad_congr (st : Step) (item : Ty) (count : Nat) :
    ∀ items, st.pad s item count items = st.pad s' item count items := by
  induction count with
  | zero => intro items; rfl
  | succ count ih =>
    intro items
    simp only [pad, h, ih]

theorem store_congr (st : Step) (v x : Value) : st.store s v x = st.store s' v x := by
  unfold store
  simp only [writeItem, pad_congr h]

theorem write_congr (st : Step) (v : Value) (y : Option Value) :
    st.write s v y = st.write s' v y := by
  unfold write
  simp only [store_congr h]

theorem create_congr (st : Step) (next : Atom) : st.create s next = st.create s' next := by
  unfold create
  simp only [h]

end Step

/-! ### Walks -/

namespace Evaluator

variable {s s' : Schema} {r : Registry} (h : s.SameMembers s')

include h

theorem resolve_congr (site : Site) (a : Atom) :
    (Evaluator.mk s r).resolve site a = (Evaluator.mk s' r).resolve site a := by
  unfold resolve
  simp only [h.member?]

theorem terminal_congr (atoms : List Atom) : ∀ site : Site,
    (Evaluator.mk s r).terminal site atoms = (Evaluator.mk s' r).terminal site atoms := by
  induction atoms with
  | nil => intro site; cases site <;> rw [terminal, terminal]
  | cons a rest ih =>
    intro site
    cases site <;> simp only [terminal, resolve_congr h, ih]

theorem read_congr (atoms : List Atom) : ∀ (v : Value) (site : Site),
    (Evaluator.mk s r).read v site atoms = (Evaluator.mk s' r).read v site atoms := by
  induction atoms with
  | nil => intro v site; rw [read, read]
  | cons a rest ih =>
    intro v site
    simp only [read, resolve_congr h, ih]

theorem deliver_congr (payload : Payload) (st : Step) (v : Value) :
    (Evaluator.mk s r).deliver payload st v = (Evaluator.mk s' r).deliver payload st v := by
  unfold deliver
  simp only [Step.write_congr h.default?]

theorem fillIn_congr (st : Step) (next : Atom) (v : Value) :
    (Evaluator.mk s r).fillIn st next v = (Evaluator.mk s' r).fillIn st next v := by
  unfold fillIn
  simp only [Step.write_congr h.default?, Step.create_congr h.default?]

theorem lengthen_congr (st : Step) (next : Atom) (v : Value) :
    (Evaluator.mk s r).lengthen st next v = (Evaluator.mk s' r).lengthen st next v := by
  unfold lengthen
  simp only [Step.write_congr h.default?, Value.resized, h.default?]

theorem write_congr (payload : Payload) (atoms : List Atom) : ∀ (v : Value) (site : Site),
    (Evaluator.mk s r).write payload v site atoms =
      (Evaluator.mk s' r).write payload v site atoms := by
  induction atoms with
  | nil => intro v site; rw [write, write]
  | cons a rest ih =>
    intro v site
    have hlengthen : (Evaluator.mk s r).lengthen = (Evaluator.mk s' r).lengthen := by
      funext st next v
      exact lengthen_congr h st next v
    simp only [write, resolve_congr h, ih, deliver_congr h, fillIn_congr h, hlengthen]

/-- Evaluations depend on the members of types and on default values only. -/
theorem evaluatesLike_of_sameMembers : (Evaluator.mk s r).EvaluatesLike (Evaluator.mk s' r) := by
  have hreading : ∀ source root, (Evaluator.mk s r).reading source root =
      (Evaluator.mk s' r).reading source root := by
    intro source root
    simp only [reading, read_congr h]
  refine ⟨fun source root => ?_, fun source t root => ?_, fun source root => ?_,
    fun source k root => ?_, fun source payload root => ?_⟩
  · simp only [get, hreading]
  · simp only [getValue, hreading]
  · simp only [getString, hreading]
  · simp only [getTag, terminal_congr h]
  · simp only [set, write_congr h]

end Evaluator

/-! ### Declaring a record anew -/

/-- The schema with other declarations of members for a record. -/
def Schema.redeclare (s : Schema) (path : String) (members : Declarations) : Schema :=
  { s with records := s.records.map fun d => if d.path = path then { d with members } else d }

namespace Schema

variable {s : Schema} {path : String} {d : RecordDecl} {members : Declarations}

theorem record?_redeclare (s : Schema) (path : String) (members : Declarations) (p : String) :
    (s.redeclare path members).record? p =
      (s.record? p).map fun d => if d.path = path then { d with members } else d := by
  unfold record? redeclare
  rw [List.find?_map]
  congr 2
  funext d
  simp only [Function.comp_apply]
  split <;> rfl

/-- If the new declarations have the members of the old ones, nothing else changes. -/
theorem sameMembers_redeclare (hd : s.record? path = some d)
    (hsame : ∀ name, (Metadata.build members).member? name =
      (Metadata.build d.members).member? name) : s.SameMembers (s.redeclare path members) := by
  constructor
  · intro t name
    cases t with
    | record p =>
      simp only [metadata?, record?_redeclare]
      by_cases hp : p = path
      · subst hp
        have hpath := record?_path hd
        simp only [hd, Option.map_some, hpath, if_true, Option.bind_some, hsame]
      · cases hr : s.record? p with
        | none => rfl
        | some r =>
          have hne : r.path ≠ path := by
            rw [record?_path hr]
            exact hp
          simp only [Option.map_some, if_neg hne]
    | leaf | option | seq | map => rfl
  · intro t
    cases t with
    | record p =>
      simp only [default?, record?_redeclare]
      cases s.record? p with
      | none => rfl
      | some r =>
        simp only [Option.map_some]
        split <;> split <;> simp_all [RecordDecl.fresh]
    | leaf t => cases t <;> rfl
    | option | seq | map => rfl

end Schema

/-! ## Validation -/

/-- The metadata that are built of the declarations of a record. -/
structure Declarations.Validated (d : Declarations) : Prop where
  /-- A property is there exactly if at most one getter and at most one setter count for it, at
  least one of both, and they agree. -/
  exists_property : ∀ name, (∃ p, (Metadata.build d).property? name = some p) ↔
    d.methods.countP (fun m => m.CountsFor name ∧ m.isGetter = true) ≤ 1 ∧
      d.methods.countP (fun m => m.CountsFor name ∧ m.isGetter = false) ≤ 1 ∧
      (∃ m ∈ d.methods, m.CountsFor name) ∧
      ∀ g ∈ d.methods, ∀ w ∈ d.methods, g.CountsFor name → w.CountsFor name →
        g.isGetter = true → w.isGetter = false → Property.Agree g w
  /-- Its accessors are the methods that count for it. -/
  property : ∀ name p, (Metadata.build d).property? name = some p ↔
    p.name = name ∧ p.ConsistsOf (d.methods.filter fun m => m.CountsFor name)
  mem_properties : ∀ p, p ∈ (Metadata.build d).properties ↔
    (Metadata.build d).property? p.name = some p
  /-- The order of the methods does not matter. -/
  ordered : ∀ e : Declarations, e.methods.Perm d.methods →
    (Metadata.build e).properties.Perm (Metadata.build d).properties ∧
      ∀ name, (Metadata.build e).property? name = (Metadata.build d).property? name
  /-- Methods named for other properties do not matter. -/
  isLocal : ∀ (e : Declarations) name,
    e.methods.filter (·.isNamedFor name) = d.methods.filter (·.isNamedFor name) →
      (Metadata.build e).property? name = (Metadata.build d).property? name
  /-- Exactly the methods of the properties are kept when the others are deleted. -/
  kept : ∀ m, m ∈ d.pruned.methods ↔
    m ∈ d.methods ∧ ∃ name p, m.CountsFor name ∧ (Metadata.build d).property? name = some p
  /-- What is ignored or dropped can be deleted. -/
  pruned : Metadata.build d.pruned = Metadata.build d
  evaluations : ∀ (ev : Evaluator) (path : String) (r : RecordDecl),
    ev.schema.record? path = some r → r.members = d →
      ev.EvaluatesLike ⟨ev.schema.redeclare path d.pruned, ev.converters⟩
  /-- The first field of a name is kept. -/
  field : ∀ name, (Metadata.build d).field? name = d.fields.find? fun f => f.name = name

namespace Metadata

variable {d : Declarations} {name : String}

theorem exists_property?_iff : (∃ p, (build d).property? name = some p) ↔
    d.methods.countP (fun m => m.CountsFor name ∧ m.isGetter = true) ≤ 1 ∧
      d.methods.countP (fun m => m.CountsFor name ∧ m.isGetter = false) ≤ 1 ∧
      (∃ m ∈ d.methods, m.CountsFor name) ∧
      ∀ g ∈ d.methods, ∀ w ∈ d.methods, g.CountsFor name → w.CountsFor name →
        g.isGetter = true → w.isGetter = false → Property.Agree g w := by
  have hgetters : d.methods.countP (fun m => m.CountsFor name ∧ m.isGetter = true) =
      ((methodsFor name d.methods).filter (·.isGetter)).length := by
    rw [List.countP_eq_length_filter, methodsFor_eq, List.filter_filter]
    congr 2
    funext m
    simp [Bool.and_comm]
  have hsetters : d.methods.countP (fun m => m.CountsFor name ∧ m.isGetter = false) =
      ((methodsFor name d.methods).filter (!·.isGetter)).length := by
    rw [List.countP_eq_length_filter, methodsFor_eq, List.filter_filter]
    congr 2
    funext m
    simp [Bool.and_comm]
  rw [hgetters, hsetters]
  constructor
  · rintro ⟨p, hp⟩
    obtain ⟨-, hp⟩ := property?_eq_some_iff.1 hp
    obtain ⟨m, hm⟩ := List.exists_mem_of_ne_nil _ hp.any
    refine ⟨hp.length_le.1, hp.length_le.2, ⟨m, mem_methodsFor.1 hm⟩, ?_⟩
    intro g hg w hw hgn hwn _ _
    exact hp.agrees (mem_methodsFor.2 ⟨hg, hgn⟩) (mem_methodsFor.2 ⟨hw, hwn⟩)
  · rintro ⟨hget, hset, ⟨m, hm⟩, hagree⟩
    have hany : methodsFor name d.methods ≠ [] := List.ne_nil_of_mem (mem_methodsFor.2 hm)
    obtain ⟨p, hp⟩ : ∃ p : Property, p.name = name ∧ p.ConsistsOf (methodsFor name d.methods) :=
      Property.exists_consistsOf hget hset hany fun g hg w hw =>
        hagree g (mem_methodsFor.1 hg).1 w (mem_methodsFor.1 hw).1 (mem_methodsFor.1 hg).2
          (mem_methodsFor.1 hw).2
    exact ⟨p, property?_eq_some_iff.2 hp⟩

theorem mem_pruned {m : Method} : m ∈ d.pruned.methods ↔
    m ∈ d.methods ∧ ∃ name p, m.CountsFor name ∧ (build d).property? name = some p := by
  show m ∈ d.methods.filter d.uses ↔ _
  rw [List.mem_filter]
  refine and_congr_right fun _ => ⟨fun h => ?_, ?_⟩
  · unfold Declarations.uses at h
    split at h
    · next name hname =>
      obtain ⟨p, hp⟩ := Option.isSome_iff_exists.1 h
      exact ⟨name, p, Method.countsFor_iff.2 (by rw [hname]; rfl), hp⟩
    · cases h
  · rintro ⟨name, p, hm, hp⟩
    rw [uses_of_countsFor hm, hp]
    rfl

end Metadata

/-- The validation of declarations is exact, independent of their order, and the same without the
declarations that it leaves out. -/
theorem Declarations.validated (d : Declarations) : d.Validated where
  exists_property name := Metadata.exists_property?_iff
  property name p := by
    rw [Metadata.property?_eq_some_iff, methodsFor_eq]
  mem_properties p := Metadata.mem_properties
  ordered e h := ⟨Metadata.properties_perm h, fun name => Metadata.property?_perm h⟩
  isLocal e name h := Metadata.property?_congr h
  kept m := Metadata.mem_pruned
  pruned := Metadata.build_pruned d
  evaluations ev path r hr hd := by
    subst hd
    exact Evaluator.evaluatesLike_of_sameMembers
      (Schema.sameMembers_redeclare hr fun name => by rw [Metadata.build_pruned])
  field name := Metadata.field?_build

end ObjectPath
