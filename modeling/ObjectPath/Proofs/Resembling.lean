import ObjectPath.Proofs.Walks

/-!
# Writes at members of other names

What stands in a sequence or a map belongs to the member that holds it.  The name of that member is
part of messages, and its converter is used for what is written; nothing else depends on it.

So writes of one payload into one value, along atoms of the same texts, leave the same value and
both succeed or both fail, if the members they belong to have the same converter
(`Evaluator.write_resembles`).
-/

namespace ObjectPath

/-! ## Results and outcomes -/

/-- The same result, or a fault on both sides. -/
def SameButFault {α : Type} (r r' : Except Fault α) : Prop :=
  (∃ y, r = .ok y ∧ r' = .ok y) ∨ ∃ f f', r = .error f ∧ r' = .error f'

namespace SameButFault

variable {α : Type} {r r' : Except Fault α} {y : α}

theorem refl (r : Except Fault α) : SameButFault r r := by
  cases r with
  | ok y => exact .inl ⟨y, rfl, rfl⟩
  | error f => exact .inr ⟨f, f, rfl, rfl⟩

theorem errors (f f' : Fault) : SameButFault (.error f : Except Fault α) (.error f') :=
  .inr ⟨f, f', rfl, rfl⟩

theorem ok (h : SameButFault r r') (hr : r = .ok y) : r' = .ok y := by
  obtain ⟨z, hz, hz'⟩ | ⟨f, f', hf, -⟩ := h
  · rw [hr] at hz
    cases hz
    exact hz'
  · rw [hr] at hf
    cases hf

end SameButFault

/-- The same value is left behind, with the same result or a fault on both sides. -/
structure Written.Resembles (w w' : Written) : Prop where
  value : w.value = w'.value
  result : SameButFault w.result w'.result

namespace Written.Resembles

variable {w w' : Written} {next next' : Value → Written}

theorem refl (w : Written) : w.Resembles w := ⟨rfl, .refl _⟩

theorem failed (v : Value) (f f' : Fault) : (Written.failed v f).Resembles (.failed v f') :=
  ⟨rfl, .errors f f'⟩

theorem after (h : w.Resembles w') (e e' : Event) : (w.after e).Resembles (w'.after e') :=
  ⟨h.value, h.result⟩

theorem within (h : w.Resembles w') (fill : Value → Value) :
    (w.within fill).Resembles (w'.within fill) :=
  ⟨congrArg fill h.value, h.result⟩

theorem andThen (h : w.Resembles w') (hnext : ∀ v, (next v).Resembles (next' v)) :
    (w.andThen next).Resembles (w'.andThen next') := by
  obtain ⟨y, hy, hy'⟩ | ⟨f, f', hf, hf'⟩ := h.result
  · obtain ⟨hvalue, hresult⟩ := @andThen_of_ok _ next hy
    obtain ⟨hvalue', hresult'⟩ := @andThen_of_ok _ next' hy'
    have hafter := hnext w.value
    constructor
    · rw [hvalue, hvalue', ← h.value, hafter.value]
    · rw [hresult, hresult', ← h.value]
      exact hafter.result
  · obtain ⟨hvalue, hresult⟩ := @andThen_of_error _ next _ hf
    obtain ⟨hvalue', hresult'⟩ := @andThen_of_error _ next' _ hf'
    constructor
    · rw [hvalue, hvalue', h.value]
    · rw [hresult, hresult']
      exact .errors f f'

end Written.Resembles

/-! ## Labels in faults -/

theorem requiredLength_resembles (i : Nat) (label label' : String) :
    SameButFault (requiredLength i label) (requiredLength i label') := by
  unfold requiredLength
  split
  · exact .refl _
  · exact .errors _ _

theorem Ty.prepare_resembles (t : Ty) (label label' : String) (y : Option Value) :
    SameButFault (t.prepare label y) (t.prepare label' y) := by
  have hnull : SameButFault (t.prepareNull label) (t.prepareNull label') := by
    unfold Ty.prepareNull
    split
    · exact .refl _
    · exact .errors _ _
  cases y with
  | none => exact hnull
  | some v =>
    simp only [Ty.prepare]
    split
    · exact .refl _
    · split
      · exact hnull
      · split
        · exact .refl _
        · exact .errors _ _
      · exact .errors _ _
      · exact .errors _ _

theorem Registry.parseStrings_resembles (r : Registry) (o : Option Converter) (t : Ty)
    (label label' : String) (raw : List String) :
    SameButFault (r.parseStrings o t label raw) (r.parseStrings o t label' raw) := by
  unfold Registry.parseStrings
  split
  · split
    · exact .refl _
    · split
      · exact .refl _
      · exact .errors _ _
  · split
    · exact .refl _
    · exact .refl _
    · exact .errors _ _

/-! ## Steps -/

/-- The converter of a member. -/
def Member.converter? (m : Member) : Option Converter := (m.tag? .convert).bind (·.converter?)

/-- A step of the same kind and to the same slot, below a member with the same converter. -/
inductive Step.Resembles : Step → Step → Prop
  | refl (st : Step) : Resembles st st
  | element {i : Nat} {t : Ty} {o o' : Option Member}
      (ho : o.bind Member.converter? = o'.bind Member.converter?) :
      Resembles (.element i t o) (.element i t o')
  | entry {key : Value} {label label' : String} {t : Ty} {o o' : Option Member}
      (ho : o.bind Member.converter? = o'.bind Member.converter?) :
      Resembles (.entry key label t o) (.entry key label' t o')

/-- A site where a value of the same type stands, below a member with the same converter. -/
inductive Site.Resembles : Site → Site → Prop
  | value {t : Ty} {o o' : Option Member}
      (ho : o.bind Member.converter? = o'.bind Member.converter?) :
      Resembles (.value t o) (.value t o')
  | index (m : Member) (t : Ty) : Resembles (.index m t) (.index m t)

namespace Step

variable {s : Schema} {st st' : Step} {v x : Value} {item : Ty} {items : List Value}

theorem override?_eq (st : Step) : st.override? = st.origin.bind Member.converter? := by
  unfold override? tag?
  rw [Option.bind_assoc]
  rfl

theorem Resembles.type_eq (h : st.Resembles st') : st.type = st'.type := by
  cases h <;> rfl

theorem Resembles.origin (h : st.Resembles st') :
    st.origin.bind Member.converter? = st'.origin.bind Member.converter? := by
  cases h with
  | refl => rfl
  | element ho | entry ho => exact ho

theorem Resembles.slotPlace (h : st.Resembles st') (v : Value) :
    SameButFault (st.slotPlace v) (st'.slotPlace v) := by
  cases h with
  | refl => exact .refl _
  | element | entry => cases v <;> first | exact .refl _ | exact .errors _ _

theorem Resembles.place (h : st.Resembles st') (v : Value) :
    SameButFault (st.place v) (st'.place v) := by
  unfold Step.place
  obtain ⟨o, ho, ho'⟩ | ⟨f, f', hf, hf'⟩ := h.slotPlace v
  · rw [ho, ho']
    exact .refl _
  · rw [hf, hf']
    exact .errors f f'

/-- A step is only named in the faults of padding. -/
theorem pad_resembles (s : Schema) (st st' : Step) (item : Ty) (n : Nat) : ∀ items : List Value,
    (st.pad s item n items).1 = (st'.pad s item n items).1 ∧
      SameButFault (st.pad s item n items).2 (st'.pad s item n items).2 := by
  induction n with
  | zero => intro items; exact ⟨rfl, .refl _⟩
  | succ n ih =>
    intro items
    simp only [pad]
    split
    · exact ⟨rfl, .errors _ _⟩
    · split
      · exact ih _
      · exact ⟨rfl, .errors _ _⟩

theorem writeItem_resembles (s : Schema) (st st' : Step) (item : Ty) (items : List Value) (i : Nat)
    (x : Value) : (st.writeItem s item items i x).1 = (st'.writeItem s item items i x).1 ∧
      SameButFault (st.writeItem s item items i x).2 (st'.writeItem s item items i x).2 := by
  simp only [writeItem]
  split
  · split
    · exact ⟨rfl, .refl _⟩
    · exact ⟨rfl, .errors _ _⟩
  · obtain ⟨n, hn, hn'⟩ | ⟨f, f', hf, hf'⟩ := requiredLength_resembles i st.label st'.label
    · obtain ⟨hitems, hpad⟩ := pad_resembles s st st' item (i - items.length) items
      rw [hn, hn']
      cases h : st.pad s item (i - items.length) items with
      | mk ys r =>
        cases h' : st'.pad s item (i - items.length) items with
        | mk ys' r' =>
          rw [h, h'] at hitems hpad
          obtain rfl : ys = ys' := hitems
          obtain ⟨-, rfl, rfl⟩ | ⟨f, f', rfl, rfl⟩ : SameButFault r r' := hpad
          · dsimp only
            split
            · exact ⟨rfl, .refl _⟩
            · exact ⟨rfl, .errors _ _⟩
          · exact ⟨rfl, .errors f f'⟩
    · rw [hf, hf']
      exact ⟨rfl, .errors f f'⟩

theorem writeArrayItem_resembles (st st' : Step) (items : List Value) (i : Nat) (x : Value) :
    SameButFault (st.writeArrayItem items i x) (st'.writeArrayItem items i x) := by
  unfold writeArrayItem
  split
  · split
    · exact .refl _
    · exact .errors _ _
  · exact .errors _ _

theorem Resembles.store (h : st.Resembles st') (s : Schema) (v x : Value) :
    (st.store s v x).Resembles (st'.store s v x) := by
  cases h with
  | refl => exact .refl _
  | @element i t o o' ho =>
    cases v with
    | seq k u items =>
      simp only [Step.store]
      split
      · obtain ⟨hitems, hresult⟩ :=
          writeItem_resembles s (.element i t o) (.element i t o') t items i x
        exact ⟨congrArg (Value.seq k u) hitems, hresult⟩
      · obtain ⟨ys, hys, hys'⟩ | ⟨f, f', hf, hf'⟩ :=
          writeArrayItem_resembles (.element i t o) (.element i t o') items i x
        · rw [hys, hys']
          exact .refl _
        · rw [hf, hf']
          exact .failed _ f f'
    | leaf | absent | present | map | record => exact .failed _ _ _
  | entry =>
    cases v with
    | map k t u entries =>
      simp only [Step.store]
      split
      · exact .refl _
      · exact .failed _ _ _
    | leaf | absent | present | seq | record => exact .failed _ _ _

theorem Resembles.write (h : st.Resembles st') (s : Schema) (v : Value) (y : Option Value) :
    (st.write s v y).Resembles (st'.write s v y) := by
  unfold Step.write
  rw [← h.type_eq]
  obtain ⟨x, hx, hx'⟩ | ⟨f, f', hf, hf'⟩ := st.type.prepare_resembles st.label st'.label y
  · rw [hx, hx']
    exact h.store s v x
  · rw [hf, hf']
    exact .failed v f f'

theorem Resembles.create (h : st.Resembles st') (s : Schema) {b b' : Atom}
    (hb : b.index? = b'.index?) : SameButFault (st.create s b) (st'.create s b') := by
  simp only [Step.create]
  rw [← h.type_eq, ← hb]
  split
  · split
    · exact .refl _
    · split
      · exact .errors _ _
      · next i _ =>
        obtain ⟨n, hn, hn'⟩ | ⟨f, f', hf, hf'⟩ := requiredLength_resembles i st.label st'.label
        · rw [hn, hn']
          exact .refl _
        · rw [hf, hf']
          exact .errors f f'
  · exact .refl _

end Step

/-! ## Walks -/

theorem Atom.index?_congr {a a' : Atom} (h : a.text = a'.text) : a.index? = a'.index? := by
  unfold Atom.index?
  rw [h]

namespace Evaluator

variable {ev : Evaluator} {site site' : Site} {st st' : Step} {a a' b b' : Atom}

/-- Atoms of the same text resolve to steps that resemble each other, or to the same index. -/
theorem resolve_resembles (ev : Evaluator) (hsite : site.Resembles site') (ha : a.text = a'.text) :
    (∃ f f', ev.resolve site a = .error f ∧ ev.resolve site' a' = .error f') ∨
      (∃ next, ev.resolve site a = .ok (.site next) ∧ ev.resolve site' a' = .ok (.site next) ∧
        next.Resembles next) ∨
      ∃ st st', ev.resolve site a = .ok (.step st) ∧ ev.resolve site' a' = .ok (.step st') ∧
        st.Resembles st' := by
  cases hsite with
  | index m t =>
    simp only [resolve, ← ha]
    split
    · exact .inr (.inr ⟨_, _, rfl, rfl, .refl _⟩)
    · exact .inl ⟨_, _, rfl, rfl⟩
  | @value t o o' ho =>
    cases t with
    | leaf | option => exact .inl ⟨_, _, rfl, rfl⟩
    | seq k item =>
      simp only [resolve, ← Atom.index?_congr ha]
      split
      · exact .inr (.inr ⟨_, _, rfl, rfl, .element ho⟩)
      · exact .inl ⟨_, _, rfl, rfl⟩
    | map k key value =>
      simp only [resolve, ← ha]
      split
      · exact .inr (.inr ⟨_, _, rfl, rfl, .entry ho⟩)
      · exact .inl ⟨_, _, rfl, rfl⟩
    | record path =>
      simp only [resolve, ← ha]
      split
      · exact .inl ⟨_, _, rfl, rfl⟩
      · split
        · exact .inr (.inl ⟨_, rfl, rfl, .index _ _⟩)
        · exact .inr (.inr ⟨_, _, rfl, rfl, .refl _⟩)

theorem bound_resembles (ev : Evaluator) (payload : Payload) (h : st.Resembles st') :
    SameButFault (ev.bound payload st) (ev.bound payload st') := by
  cases payload with
  | value y => exact .refl _
  | strings raw =>
    have ho : st.override? = st'.override? := by
      rw [Step.override?_eq, Step.override?_eq, h.origin]
    simp only [bound, ← ho, ← h.type_eq]
    exact ev.converters.parseStrings_resembles _ _ _ _ raw

theorem deliver_resembles (ev : Evaluator) (payload : Payload) (h : st.Resembles st') (v : Value) :
    (ev.deliver payload st v).Resembles (ev.deliver payload st' v) := by
  rw [deliver_eq, deliver_eq]
  obtain ⟨y, hy, hy'⟩ | ⟨f, f', hf, hf'⟩ := ev.bound_resembles payload h
  · rw [hy, hy']
    exact h.write _ v y
  · rw [hf, hf']
    exact .failed v f f'

theorem fillIn_resembles (ev : Evaluator) (h : st.Resembles st') (hb : b.index? = b'.index?)
    (v : Value) : (ev.fillIn st b v).Resembles (ev.fillIn st' b' v) := by
  unfold fillIn
  obtain ⟨o, ho, ho'⟩ | ⟨f, f', hf, hf'⟩ := h.place v
  · rw [ho, ho']
    cases o with
    | place w p => exact .refl _
    | nothing w =>
      obtain ⟨x, hx, hx'⟩ | ⟨f, f', hf, hf'⟩ := h.create ev.schema hb
      · simp only [hx, hx']
        exact (h.write _ w (some x)).after _ _
      · simp only [hf, hf']
        exact .failed w f f'
  · rw [hf, hf']
    exact .failed v f f'

theorem lengthen_resembles (ev : Evaluator) (h : st.Resembles st') (hb : b.index? = b'.index?)
    (v : Value) : (ev.lengthen st b v).Resembles (ev.lengthen st' b' v) := by
  unfold lengthen
  rw [← hb]
  split
  · exact .refl _
  · next i _ =>
    obtain ⟨o, ho, ho'⟩ | ⟨f, f', hf, hf'⟩ := h.place v
    · rw [ho, ho']
      cases o with
      | nothing w => exact .refl _
      | place w p =>
        dsimp only
        split
        · split
          · exact .refl _
          · obtain ⟨n, hn, hn'⟩ | ⟨f, f', hf, hf'⟩ := requiredLength_resembles i st.label st'.label
            · rw [hn, hn']
              dsimp only
              split
              · exact .refl _
              · exact (h.write _ _ _).after _ _
            · rw [hf, hf']
              exact .failed w f f'
        · exact .refl _
    · rw [hf, hf']
      exact .failed v f f'

theorem approach_resembles (ev : Evaluator) (h : st.Resembles st') (hb : b.index? = b'.index?)
    (v : Value) : (ev.approach st b v).Resembles (ev.approach st' b' v) :=
  (fillIn_resembles ev h hb v).andThen fun w => lengthen_resembles ev h hb w

/-- Writes of one payload along atoms of the same texts resemble each other, by induction on the
atoms: behind each step they go on at sites that resemble each other. -/
theorem write_resembles (ev : Evaluator) (payload : Payload) {atoms : List Atom} :
    ∀ {atoms' : List Atom} {site site' : Site} (v : Value), site.Resembles site' →
      atoms.map (·.text) = atoms'.map (·.text) →
      (ev.write payload v site atoms).Resembles (ev.write payload v site' atoms') := by
  induction atoms with
  | nil =>
    intro atoms' site site' v _ htexts
    obtain rfl := List.map_eq_nil_iff.1 htexts.symm
    rw [write, write]
    exact .failed v _ _
  | cons a rest ih =>
    intro atoms' site site' v hsite htexts
    obtain ⟨a', rest', rfl, ha, hrest⟩ := List.map_eq_cons_iff.1 htexts.symm
    obtain ⟨f, f', hf, hf'⟩ | ⟨next, hres, hres', hnext⟩ | ⟨st, st', hres, hres', hst⟩ :=
      ev.resolve_resembles hsite ha.symm
    · rw [write_error hf, write_error hf']
      exact .failed v f f'
    · rw [write_site hres, write_site hres']
      exact ih v hnext hrest.symm
    · cases rest with
      | nil =>
        obtain rfl := List.map_eq_nil_iff.1 hrest
        rw [write_last hres, write_last hres']
        exact ev.deliver_resembles payload hst v
      | cons b rest =>
        obtain ⟨b', rest', rfl, hb, -⟩ := List.map_eq_cons_iff.1 hrest
        rw [write_step hres, write_step hres']
        refine (ev.approach_resembles hst (Atom.index?_congr hb.symm) v).andThen fun w => ?_
        unfold descend
        obtain ⟨o, ho, ho'⟩ | ⟨f, f', hf, hf'⟩ := hst.place w
        · rw [ho, ho']
          cases o with
          | nothing w => exact .failed w _ _
          | place w p => exact (ih p.value (.value hst.origin) hrest.symm).within p.fill
        · rw [hf, hf']
          exact .failed w f f'

end Evaluator

end ObjectPath
