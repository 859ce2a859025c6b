import ObjectPath.Proofs.Members

/-!
# Steps through typed values

`Step.Fits` relates a step to the type of the value it leads into; the steps an atom resolves to fit
(`Evaluator.fits_of_resolve`).  A step that fits reads and places values of its type
(`Step.typed_place`), and storing through it keeps the value typed whether it succeeds or not
(`Step.hasType_write`).

What a step reads after something was put at its place or was stored follows from the laws of
members (`Step.shows_or_hides`, `Step.read_write`).
-/

namespace ObjectPath

/-! ## Steps and sites of a type -/

/-- A step that an atom resolves to where a value of type `t` stands. -/
inductive Step.Fits (s : Schema) : Step → Ty → Prop
  | member {m : Member} {t : Ty} (h : m.Of s t) (hu : m.index? = none) : Fits s (.member m) t
  | indexed {m : Member} {t u : Ty} {i : Value} {label : String} (h : m.Of s t)
      (hu : m.index? = some u) (hi : HasType s i u) : Fits s (.indexed m i label) t
  | element {i : Nat} {k : SeqKind} {item : Ty} {o : Option Member}
      (ho : ∀ m, o = some m → m.Known s) : Fits s (.element i item o) (.seq k item)
  | entry {key : Value} {label : String} {k : MapKind} {u item : Ty} {o : Option Member}
      (hk : HasType s key u) (ho : ∀ m, o = some m → m.Known s) :
      Fits s (.entry key label item o) (.map k u item)

/-- The member that a step goes through; an element or an entry goes through none. -/
def Step.member? : Step → Option Member
  | member m | indexed m _ _ => some m
  | element _ _ _ | entry _ _ _ _ => none

/-- A site where a value of type `t` stands. -/
def Site.Fits (s : Schema) (t : Ty) : Site → Prop
  | .value u o => u = t ∧ ∀ m, o = some m → m.Known s
  | .index m u => m.Of s t ∧ m.index? = some u

theorem Step.Fits.origin {s : Schema} {st : Step} {t : Ty} {m : Member} (h : st.Fits s t)
    (hm : st.origin = some m) : m.Known s := by
  cases h with
  | member h | indexed h => cases hm; exact ⟨t, h⟩
  | element ho | entry _ ho => exact ho m hm

/-- The member that a step goes through is one of the type. -/
theorem Step.Fits.of_member {s : Schema} {st : Step} {t : Ty} {m : Member} (h : st.Fits s t)
    (hm : st.member? = some m) : m.Of s t := by
  cases h with
  | member h | indexed h => cases hm; exact h
  | element | entry => cases hm

namespace Evaluator

variable {ev : Evaluator} {t : Ty} {site next : Site} {a : Atom} {st : Step}

theorem fits_start {s : Schema} (v : Value) : (start v).Fits s v.typeOf := ⟨rfl, nofun⟩

/-- An atom resolves to a step that fits, or to the index of a member. -/
theorem fits_of_resolve (hev : ev.Typed) (hsite : site.Fits ev.schema t) {r : Resolved}
    (h : ev.resolve site a = .ok r) :
    (∃ st, r = .step st ∧ st.Fits ev.schema t) ∨
      ∃ next, r = .site next ∧ next.Fits ev.schema t := by
  have hnone : ∀ c : Converter, none = some c → c.Typed ev.schema := nofun
  cases site with
  | index m u =>
    simp only [resolve] at h
    split at h
    · next i hi =>
      cases h
      exact .inl ⟨_, rfl, .indexed hsite.1 hsite.2 (hasType_parse hev.converters hnone hi)⟩
    · cases h
  | value u o =>
    obtain ⟨rfl, ho⟩ := hsite
    cases u with
    | leaf | option => cases h
    | seq k item =>
      simp only [resolve] at h
      split at h
      · cases h; exact .inl ⟨_, rfl, .element ho⟩
      · cases h
    | map k key value =>
      simp only [resolve] at h
      split at h
      · next i hi =>
        cases h
        exact .inl ⟨_, rfl, .entry (hasType_parse hev.converters hnone hi) ho⟩
      · cases h
    | record path =>
      simp only [resolve] at h
      split at h
      · cases h
      · next m hm =>
        obtain ⟨md, hmd, hm⟩ := Option.bind_eq_some_iff.1 hm
        have hof : m.Of ev.schema (.record path) := ⟨md, a.text, hmd, hm⟩
        split at h
        · next u hu => cases h; exact .inr ⟨_, rfl, hof, hu⟩
        · next hu => cases h; exact .inl ⟨_, rfl, .member hof hu⟩

theorem fits_step (hev : ev.Typed) (hsite : site.Fits ev.schema t)
    (h : ev.resolve site a = .ok (.step st)) : st.Fits ev.schema t := by
  obtain ⟨st', he, hst⟩ | ⟨_, he, _⟩ := fits_of_resolve hev hsite h
  · cases he; exact hst
  · cases he

theorem fits_site (hev : ev.Typed) (hsite : site.Fits ev.schema t)
    (h : ev.resolve site a = .ok (.site next)) : next.Fits ev.schema t := by
  obtain ⟨_, he, _⟩ | ⟨next', he, hn⟩ := fits_of_resolve hev hsite h
  · cases he
  · cases he; exact hn

/-- Behind a step that fits stands a value of the declared type. -/
theorem fits_below {s : Schema} (hst : st.Fits s t) (u : Ty) :
    (Site.value u st.origin).Fits s u :=
  ⟨rfl, fun _ hm => hst.origin hm⟩

end Evaluator

/-! ## Entries of typed maps -/

namespace Entries

variable {key v : Value} {es : List (Value × Value)} {e : Value × Value}

theorem mem_replace (h : e ∈ replace key v es) : e.1 = key ∧ e.2 = v ∨ e ∈ es := by
  induction es with
  | nil => cases h
  | cons e' es ih =>
    obtain ⟨k, w⟩ := e'
    simp only [replace] at h
    split at h
    · next hk =>
      rcases List.mem_cons.1 h with rfl | h
      · exact .inl ⟨hk, rfl⟩
      · exact .inr (List.mem_cons_of_mem _ h)
    · rcases List.mem_cons.1 h with rfl | h
      · exact .inr List.mem_cons_self
      · exact (ih h).imp_right (List.mem_cons_of_mem _)

theorem mem_place {kind : MapKind} (h : e ∈ place kind key v es) :
    e.1 = key ∧ e.2 = v ∨ e ∈ es := by
  induction es with
  | nil =>
    rw [place, List.mem_singleton] at h
    exact .inl (h ▸ ⟨rfl, rfl⟩)
  | cons e' es ih =>
    obtain ⟨k, w⟩ := e'
    simp only [place] at h
    split at h
    · rcases List.mem_cons.1 h with rfl | h
      · exact .inl ⟨rfl, rfl⟩
      · exact .inr h
    · rcases List.mem_cons.1 h with rfl | h
      · exact .inr List.mem_cons_self
      · exact (ih h).imp_right (List.mem_cons_of_mem _)

theorem mem_insert {kind : MapKind} (h : e ∈ insert kind key v es) :
    e.1 = key ∧ e.2 = v ∨ e ∈ es := by
  unfold insert at h
  split at h
  · exact mem_replace h
  · exact mem_place h

theorem mem_of_get? (h : get? key es = some v) : (key, v) ∈ es := by
  induction es with
  | nil => cases h
  | cons e es ih =>
    obtain ⟨k, w⟩ := e
    simp only [get?] at h
    split at h
    · next hk => cases h; exact hk ▸ List.mem_cons_self
    · exact List.mem_cons_of_mem _ (ih h)

end Entries

namespace HasType

variable {s : Schema} {k : MapKind} {key value t : Ty} {es es' : List (Value × Value)} {x y : Value}

/-- Entries that are new or were there keep a map typed. -/
theorem mapOf (h : HasType s (.map k key value es) t) (hx : HasType s x key)
    (hy : HasType s y value) (hes : ∀ e ∈ es', e.1 = x ∧ e.2 = y ∨ e ∈ es) :
    HasType s (.map k key value es') t := by
  cases h with
  | map hk hv =>
    refine .map (fun e he => ?_) fun e he => ?_
    · rcases hes e he with ⟨h, -⟩ | h
      · rw [h]; exact hx
      · exact hk e h
    · rcases hes e he with ⟨-, h⟩ | h
      · rw [h]; exact hy
      · exact hv e h

theorem value_of_get? (h : HasType s (.map k key value es) t) (hy : Entries.get? x es = some y) :
    HasType s y value := by
  cases h with
  | map _ hv => exact hv _ (Entries.mem_of_get? hy)

/-- The place under a key holds a value of the type of the map's values, and takes one. -/
theorem typed_atKey? {v : Value} {p : Place v} (h : HasType s v (.map k key value))
    (hx : HasType s x key) (hp : Value.atKey? x v = some p) :
    p.Typed s (.map k key value) value := by
  have hmap := h
  cases h with
  | map =>
    obtain ⟨hget, hfill⟩ := Value.atKey?_map hp
    exact ⟨hmap.value_of_get? hget,
      fun w hw => hfill w ▸ hmap.mapOf hx hw fun _ => Entries.mem_replace⟩

/-- The place of an item holds a value of the item type, and takes one. -/
theorem typed_atIndex? {v : Value} {kind : SeqKind} {item : Ty} {i : Nat} {p : Place v}
    (h : HasType s v (.seq kind item)) (hp : Value.atIndex? i v = some p) :
    p.Typed s (.seq kind item) item := by
  have hseq := h
  cases h with
  | seq =>
    obtain ⟨hx, hfill⟩ := Value.atIndex?_seq hp
    exact ⟨hseq.items _ (List.mem_of_getElem? hx), fun w hw => hfill w ▸ hseq.setItem _ hw⟩

end HasType

/-! ## Typed places and contents -/

namespace Step

variable {s : Schema} {t : Ty} {st : Step} {v w x : Value} {o : Offer} {p : Place w}

/-- What a step offers leaves the value around it typed. -/
theorem typed_offer (hs : s.Typed) (hst : st.Fits s t) (hv : HasType s v t)
    (h : st.slotPlace v = .ok o) : o.Typed s t st.type := by
  cases hst with
  | member hm => exact Member.typed_place hs hm hv h
  | indexed hm hu hi => exact Member.typed_placeAt hs hm hv hu hi h
  | element =>
    have hseq := hv
    cases hv with
    | seq =>
      cases h
      exact Offer.typed_of hseq fun p hp => hseq.typed_atIndex? hp
  | entry hkey =>
    have hmap := hv
    cases hv with
    | map =>
      cases h
      exact Offer.typed_of hmap fun p hp => hmap.typed_atKey? hkey hp

theorem slotPlace_of_ok (h : st.place v = .ok o) :
    ∃ o', st.slotPlace v = .ok o' ∧ o'.inner = o := by
  unfold place at h
  split at h
  · next o' ho => exact ⟨o', ho, Except.ok.inj h⟩
  · cases h

/-- The slot a step leads to holds a value of its type, and takes one. -/
theorem typed_slotPlace (hs : s.Typed) (hst : st.Fits s t) (hv : HasType s v t)
    (h : st.slotPlace v = .ok (.place w p)) : p.Typed s t st.type :=
  typed_offer hs hst hv h

theorem slotPlace_of_place (h : st.place v = .ok (.place w p)) :
    ∃ q, st.slotPlace v = .ok (.place w q) ∧ q.inner? = some p := by
  obtain ⟨o, ho, hinner⟩ := slotPlace_of_ok h
  obtain ⟨q, rfl, hq⟩ := Offer.inner_eq_place hinner
  exact ⟨q, ho, hq⟩

/-- The place a step leads to holds a value of the declared type, and takes one. -/
theorem typed_place (hs : s.Typed) (hst : st.Fits s t) (hv : HasType s v t)
    (h : st.place v = .ok (.place w p)) : p.Typed s t st.type.declared := by
  obtain ⟨q, hq, hp⟩ := slotPlace_of_place h
  exact (typed_slotPlace hs hst hv hq).inner hp

/-- What is left behind when a step is asked for its place is of the type of what was there. -/
theorem hasType_left (hs : s.Typed) (hst : st.Fits s t) (hv : HasType s v t)
    (h : st.place v = .ok o) : HasType s o.left t := by
  obtain ⟨o', ho, rfl⟩ := slotPlace_of_ok h
  exact (typed_offer hs hst hv ho).inner.left

/-- The content of a slot is of its type. -/
theorem hasType_slot (hs : s.Typed) (hst : st.Fits s t) (hv : HasType s v t)
    (h : st.slot v = .ok (some x)) : HasType s x st.type := by
  cases hst with
  | member hm => exact Member.hasType_read hs hm hv h
  | indexed hm hu hi => exact Member.hasType_readAt hs hm hv hu hi h
  | element =>
    cases hv with
    | seq hitems => exact hitems _ (List.mem_of_getElem? (Except.ok.inj h))
  | entry hkey =>
    have hmap := hv
    cases hv with
    | map => exact hmap.value_of_get? (Except.ok.inj h)

theorem slot_of_read (h : st.read v = .ok (some x)) :
    ∃ c, st.slot v = .ok (some c) ∧ c.unwrapped = some x := by
  unfold read at h
  split at h
  · next o ho =>
    obtain ⟨c, rfl, hc⟩ := Option.bind_eq_some_iff.1 (Except.ok.inj h)
    exact ⟨c, ho, hc⟩
  · cases h

/-- What a step reads is of the declared type. -/
theorem hasType_read (hs : s.Typed) (hst : st.Fits s t) (hv : HasType s v t)
    (h : st.read v = .ok (some x)) : HasType s x st.type.declared := by
  obtain ⟨c, hc, hx⟩ := slot_of_read h
  exact (hasType_slot hs hst hv hc).unwrapped hx

/-- The converter that overrides the registered one is typed. -/
theorem typed_override (hs : s.Typed) (hst : st.Fits s t) {c : Converter}
    (h : st.override? = some c) : c.Typed s := by
  obtain ⟨tag, htag, hc⟩ := Option.bind_eq_some_iff.1 h
  obtain ⟨m, hm, htag⟩ := Option.bind_eq_some_iff.1 htag
  exact Member.typed_tag hs (hst.origin hm) htag hc

end Step

/-! ## Storing -/

namespace Written

/-- What an attempt leaves behind is the new value or the old one. -/
theorem attempt_value (P : Value → Prop) {v : Value} {r : Except Fault Value} (hv : P v)
    (hr : ∀ w, r = .ok w → P w) : P (attempt v r).value := by
  cases r with
  | ok w => exact hr w rfl
  | error f => exact hv

theorem attempt_ok {v : Value} {r : Except Fault Value} (h : (attempt v r).result = .ok ()) :
    r = .ok (attempt v r).value := by
  cases r with
  | ok w => rfl
  | error f => cases h

theorem attempt_error {v : Value} {r : Except Fault Value} {f : Fault}
    (h : (attempt v r).result = .error f) : r = .error f ∧ (attempt v r).value = v := by
  cases r with
  | ok w => cases h
  | error g => cases h; exact ⟨rfl, rfl⟩

end Written

namespace Step

variable {s : Schema} {t item : Ty} {st : Step} {v x : Value} {y : Option Value} {next : Atom}
  {items ys : List Value} {r : Except Fault Unit} {n i : Nat}

/-- Padding appends default items, as many as wanted if it succeeds. -/
theorem pad_spec (h : st.pad s item n items = (ys, r)) :
    ∃ zs, ys = items ++ zs ∧ (∀ z ∈ zs, s.default? item = some z) ∧
      (r = .ok () → zs.length = n) := by
  induction n generalizing items with
  | zero => cases h; exact ⟨[], by simp, by simp, fun _ => rfl⟩
  | succ n ih =>
    simp only [pad] at h
    split at h
    · cases h; exact ⟨[], by simp, by simp, nofun⟩
    · next d hd =>
      split at h
      · next items' hp =>
        unfold Value.push at hp
        split at hp
        · cases hp
          obtain ⟨zs, rfl, hz, hlen⟩ := ih h
          refine ⟨d :: zs, by simp, List.forall_mem_cons.2 ⟨hd, hz⟩, fun hr => ?_⟩
          rw [List.length_cons, hlen hr]
        · cases hp
      · cases h; exact ⟨[], by simp, by simp, nofun⟩

/-- Storing at an index replaces the item there, or appends the item behind default ones; a failure
leaves default items behind at most. -/
theorem writeItem_spec (h : st.writeItem s item items i x = (ys, r)) :
    r = .ok () ∧ i < items.length ∧ ys = items.set i x ∨
      ∃ zs, (∀ z ∈ zs, s.default? item = some z) ∧
        (r = .ok () ∧ items.length + zs.length = i ∧ ys = items ++ zs ++ [x] ∨
          (∃ f, r = .error f) ∧ ys = items ++ zs) := by
  simp only [writeItem] at h
  split at h
  · next old hold =>
    split at h
    · cases h; exact .inl ⟨rfl, (List.getElem?_eq_some_iff.1 hold).1, rfl⟩
    · cases h; exact .inr ⟨[], by simp, .inr ⟨⟨_, rfl⟩, by simp⟩⟩
  · next hnone =>
    have hlen : items.length ≤ i := List.getElem?_eq_none_iff.1 hnone
    split at h
    · cases h; exact .inr ⟨[], by simp, .inr ⟨⟨_, rfl⟩, by simp⟩⟩
    · split at h
      · next hp =>
        obtain ⟨zs, rfl, hz, -⟩ := pad_spec hp
        cases h
        exact .inr ⟨zs, hz, .inr ⟨⟨_, rfl⟩, rfl⟩⟩
      · next hp =>
        obtain ⟨zs, rfl, hz, hcount⟩ := pad_spec hp
        have hcount := hcount rfl
        split at h
        · next hpush =>
          unfold Value.push at hpush
          split at hpush
          · cases hpush
            cases h
            exact .inr ⟨zs, hz, .inl ⟨rfl, by omega, rfl⟩⟩
          · cases hpush
        · cases h; exact .inr ⟨zs, hz, .inr ⟨⟨_, rfl⟩, rfl⟩⟩

theorem writeArrayItem_ok (h : st.writeArrayItem items i x = .ok ys) :
    i < items.length ∧ ys = items.set i x := by
  unfold writeArrayItem at h
  split at h
  · next old hold =>
    split at h
    · cases h; exact ⟨(List.getElem?_eq_some_iff.1 hold).1, rfl⟩
    · cases h
  · cases h

theorem hasType_writeItem (hs : s.Typed) (hitems : ∀ z ∈ items, HasType s z item)
    (hx : HasType s x item) (h : st.writeItem s item items i x = (ys, r)) :
    ∀ z ∈ ys, HasType s z item := by
  intro z hz
  obtain ⟨-, -, rfl⟩ | ⟨zs, hzs, ⟨-, -, rfl⟩ | ⟨-, rfl⟩⟩ := writeItem_spec h
  · rcases List.mem_or_eq_of_mem_set hz with hz | rfl
    · exact hitems z hz
    · exact hx
  · simp only [List.mem_append, List.mem_singleton] at hz
    rcases hz with (hz | hz) | rfl
    · exact hitems z hz
    · exact hasType_default hs (hzs z hz)
    · exact hx
  · rcases List.mem_append.1 hz with hz | hz
    · exact hitems z hz
    · exact hasType_default hs (hzs z hz)

/-- Storing a value of the type of the slot keeps the value around it typed, even if it fails. -/
theorem hasType_store (hs : s.Typed) (hst : st.Fits s t) (hv : HasType s v t)
    (hx : HasType s x st.type) : HasType s (st.store s v x).value t := by
  cases hst with
  | member hm =>
    exact Written.attempt_value (HasType s · t) hv fun w hw => Member.hasType_write hs hm hv hx hw
  | indexed hm hu hi =>
    exact Written.attempt_value (HasType s · t) hv fun w hw =>
      Member.hasType_writeAt hs hm hv hu hi hx hw
  | @element i k item o =>
    have hseq := hv
    cases hv with
    | @seq _ _ items hitems =>
      simp only [store]
      split
      · exact .seq (hasType_writeItem hs hitems hx rfl)
      · split
        · next hw =>
          obtain ⟨-, rfl⟩ := writeArrayItem_ok hw
          exact hseq.setItem _ hx
        · exact hseq
  | entry hkey =>
    have hmap := hv
    cases hv with
    | map =>
      simp only [store]
      split
      · exact hmap.mapOf hkey hx fun _ => Entries.mem_insert
      · exact hmap

/-- A write stores what the slot takes for the value. -/
theorem write_eq_store (h : st.type.prepare st.label y = .ok x) :
    st.write s v y = st.store s v x := by
  rw [write, h]

theorem write_ok (h : (st.write s v y).result = .ok ()) :
    ∃ x, st.type.prepare st.label y = .ok x ∧ st.write s v y = st.store s v x := by
  cases hp : st.type.prepare st.label y with
  | ok x => exact ⟨x, rfl, write_eq_store hp⟩
  | error f => rw [write, hp] at h; cases h

/-- A write keeps the value around the slot typed, even if it fails. -/
theorem hasType_write (hs : s.Typed) (hst : st.Fits s t) (hv : HasType s v t)
    (hy : ∀ x, y = some x → HasType s x x.typeOf) : HasType s (st.write s v y).value t := by
  unfold write
  split
  · next hp => exact hasType_store hs hst hv (hasType_prepare hy hp)
  · exact hv

/-- A created value is of the type of the missing one. -/
theorem hasType_create (hs : s.Typed) (h : st.create s next = .ok x) :
    HasType s x st.type.declared := by
  simp only [create] at h
  split at h
  · next hd =>
    rw [hd]
    split at h
    · split at h
      · next hdef => cases h; exact hasType_default hs hdef
      · cases h
    · split at h
      · cases h
      · split at h
        · cases h
        · split at h
          · cases h
          · next d hdef =>
            split at h
            · next hc =>
              cases h
              refine hasType_collect (fun z hz => ?_) hc
              rw [List.eq_of_mem_replicate hz]
              exact (hasType_default hs hdef).self
            · cases h
  · split at h
    · next hdef => cases h; exact hasType_default hs hdef
    · cases h

end Step

/-- The items of a longer array are those of the array and default ones. -/
theorem Value.resized_spec {s : Schema} {item : Ty} {items left longer : List Value} {n : Nat}
    (h : resized s item items n = (left, some longer)) (hn : items.length < n) :
    left = [] ∧ ∃ d, s.default? item = some d ∧
      longer = items ++ List.replicate (n - items.length) d := by
  unfold resized at h
  split at h
  · next d hd =>
    cases h
    exact ⟨rfl, d, hd, by rw [List.take_of_length_le (by omega)]⟩
  · rw [if_pos hn] at h
    cases h

/-! ## What a step reads of what is stored -/

namespace Step

variable {s : Schema} {t : Ty} {st : Step} {u v x : Value} {p q : Place u}

/-- The step reads what stands at the place, whatever is put there. -/
def Shows (s : Schema) (st : Step) {v : Value} (p : Place v) : Prop :=
  p.Shown s st.type.declared st.read

/-- What the step reads is out of reach: neither what is put at the place nor what is written then
changes it. -/
def Hides (s : Schema) (st : Step) {v : Value} (p : Place v) : Prop :=
  ∀ w, HasType s w st.type.declared → st.read (p.fill w) = st.read v ∧
    ∀ y, (∀ x, y = some x → HasType s x x.typeOf) →
      st.read (st.write s (p.fill w) y).value = st.read v

theorem read_of_slot {c : Option Value} (h : st.slot v = .ok c) :
    st.read v = .ok (c.bind (·.unwrapped)) := by
  rw [read, h]

theorem read_congr {v' : Value} (h : st.slot v = st.slot v') : st.read v = st.read v' := by
  rw [read, read, h]

/-- Sequences and maps stay as they are when they are asked for a place. -/
theorem left_of_container (hm : ∀ m, st ≠ .member m) (hi : ∀ m i l, st ≠ .indexed m i l)
    {o : Offer} (h : st.slotPlace v = .ok o) : o.left = v := by
  cases st with
  | member m => exact absurd rfl (hm m)
  | indexed m i l => exact absurd rfl (hi m i l)
  | element =>
    cases v with
    | seq => cases h; exact Offer.left_of _
    | leaf | absent | present | map | record => cases h
  | entry =>
    cases v with
    | map => cases h; exact Offer.left_of _
    | leaf | absent | present | seq | record => cases h

/-- Seeing through an optional slot keeps a place shown. -/
theorem shows_of_slot (hq : q.Typed s t st.type) (h : q.Shown s st.type st.slot)
    (hp : q.inner? = some p) : st.Shows s p := by
  obtain ⟨hval, hfill⟩ := Place.inner?_eq_some hp
  refine ⟨by rw [read_of_slot h.1]; exact congrArg _ hval, fun w hw => ?_⟩
  have hr : HasType s (q.value.rewrap w) st.type := hq.value.rewrap hval hw
  have htype : w.typeOf = p.value.typeOf := by
    rw [hw.typeOf_eq, (hq.value.unwrapped hval).typeOf_eq]
  rw [hfill, read_of_slot (h.2 _ hr)]
  exact congrArg _ (Value.unwrapped_rewrap hval htype)

theorem hides_of_slot {write : Value → Value → Except Fault Value}
    (hstore : ∀ v x, st.store s v x = .attempt v (write v x)) (hq : q.Typed s t st.type)
    (h : q.Hidden s st.type st.slot write) (hp : q.inner? = some p) : st.Hides s p := by
  obtain ⟨hval, hfill⟩ := Place.inner?_eq_some hp
  intro w hw
  obtain ⟨hread, hwrite⟩ := h _ (hq.value.rewrap hval hw)
  rw [hfill]
  refine ⟨read_congr hread, fun y hy => ?_⟩
  unfold Step.write
  split
  · next x hx =>
    rw [hstore]
    exact Written.attempt_value (fun r => st.read r = st.read u) (read_congr hread)
      fun r hr => read_congr (hwrite x r (hasType_prepare hy hx) hr)
  · exact read_congr hread

/-- The items of a sequence and the values of a map are read where they are placed. -/
theorem slot_shown_of_container (hst : st.Fits s t) (hv : HasType s v t) (hm : ∀ m, st ≠ .member m)
    (hi : ∀ m i l, st ≠ .indexed m i l) (h : st.slotPlace v = .ok (.place u q)) :
    q.Shown s st.type st.slot := by
  obtain rfl : u = v := left_of_container hm hi h
  cases hst with
  | member => exact absurd rfl (hm _)
  | indexed => exact absurd rfl (hi _ _ _)
  | element =>
    cases hv with
    | seq =>
      obtain ⟨hx, hfill⟩ := Value.atIndex?_seq (Offer.of_eq_place (Except.ok.inj h))
      refine ⟨by rw [slot, hx], fun w _ => ?_⟩
      rw [hfill, slot, List.getElem?_set_self (List.getElem?_eq_some_iff.1 hx).1]
  | entry =>
    cases hv with
    | map =>
      obtain ⟨hx, hfill⟩ := Value.atKey?_map (Offer.of_eq_place (Except.ok.inj h))
      refine ⟨by rw [slot, hx], fun w _ => ?_⟩
      rw [hfill, slot, Entries.get?_replace_self w hx]

/-- To offer a place the step leaves the value around it alone. -/
def LeavesValue (st : Step) : Prop := ∀ (v : Value) (o : Offer), st.place v = .ok o → o.left = v

/-- It is up to the member whether a step leaves values alone. -/
theorem leavesValue (hlaw : ∀ m, st.member? = some m → m.LeavesRecord) : st.LeavesValue := by
  intro v o h
  obtain ⟨o', ho, rfl⟩ := slotPlace_of_ok h
  rw [Offer.left_inner]
  cases st with
  | member m => exact (hlaw m rfl).place v o' ho
  | indexed m i l => exact (hlaw m rfl).placeAt v i o' ho
  | element | entry => exact left_of_container (by simp) (by simp) ho

theorem Fits.leavesValue_of_coherent (hst : st.Fits s t) (hlaw : s.Coherent) : st.LeavesValue :=
  Step.leavesValue fun m hm => (hlaw _ m (hst.of_member hm)).leaves

/-- In a coherent schema a step shows the place it leads to, or hides what it reads. -/
theorem shows_or_hides (hs : s.Typed) (hlaw : s.Coherent) (hst : st.Fits s t) (hv : HasType s v t)
    (h : st.place v = .ok (.place u p)) : st.Shows s p ∨ st.Hides s p := by
  obtain rfl : u = v := hst.leavesValue_of_coherent hlaw v _ h
  obtain ⟨q, hq, hp⟩ := slotPlace_of_place h
  have htyped := typed_slotPlace hs hst hv hq
  have hfits := hst
  cases hst with
  | member hm =>
    rcases (hlaw _ _ hm).place _ q hv hq with hshown | hhidden
    · exact .inl (shows_of_slot htyped hshown hp)
    · exact .inr (hides_of_slot (fun _ _ => rfl) htyped hhidden hp)
  | @indexed m _ _ i label hm hu hi =>
    rcases (hlaw _ _ hm).placeAt _ i q _ hv hu hi hq with hshown | hhidden
    · exact .inl (shows_of_slot htyped hshown hp)
    · exact .inr (hides_of_slot (fun _ _ => rfl) htyped (hhidden _) hp)
  | element | entry =>
    exact .inl (shows_of_slot htyped (slot_shown_of_container hfits hv (by simp) (by simp) hq) hp)

/-- The content of a slot behind a member that shows its place is what stands there. -/
theorem slot_shown (hlaw : ∀ m, st.member? = some m → m.ShowsPlace s t) (hst : st.Fits s t)
    (hv : HasType s v t) (h : st.slotPlace v = .ok (.place u q)) : q.Shown s st.type st.slot := by
  have hfits := hst
  cases hst with
  | member => exact (hlaw _ rfl).place v u q hv h
  | @indexed m _ k i label hm hk hi => exact (hlaw _ rfl).placeAt v u i q k hv hk hi h
  | element | entry => exact slot_shown_of_container hfits hv (by simp) (by simp) h

/-- A step through a member that shows its place shows the place it leads to. -/
theorem shows_of_member (hs : s.Typed) (hlaw : ∀ m, st.member? = some m → m.ShowsPlace s t)
    (hst : st.Fits s t) (hv : HasType s v t) (h : st.place v = .ok (.place u p)) :
    st.Shows s p := by
  obtain ⟨q, hq, hp⟩ := slotPlace_of_place h
  exact shows_of_slot (typed_slotPlace hs hst hv hq) (slot_shown hlaw hst hv hq) hp

/-- Where members share their slots, a step shows the place it leads to. -/
theorem shows (hs : s.Typed) (hlaw : ∀ m : Member, m.Of s t → m.SharesSlot s t)
    (hst : st.Fits s t) (hv : HasType s v t) (h : st.place v = .ok (.place u p)) : st.Shows s p :=
  shows_of_member hs (fun m hm => (hlaw m (hst.of_member hm)).showsPlace) hst hv h

/-- The slot behind a member that reads what was stored in it holds that. -/
theorem slot_store (hlaw : ∀ m, st.member? = some m → m.ReadsStored s t)
    (hst : st.Fits s t) (hv : HasType s v t) (hx : HasType s x st.type)
    (h : (st.store s v x).result = .ok ()) : st.slot (st.store s v x).value = .ok (some x) := by
  cases hst with
  | member => exact (hlaw _ rfl).write v x _ hv hx (Written.attempt_ok h)
  | @indexed m _ u i label hm hu hi =>
    exact (hlaw _ rfl).writeAt v i x _ u _ hv hu hi hx (Written.attempt_ok h)
  | @element i k item o =>
    cases hv with
    | @seq _ _ items hitems =>
      simp only [store] at h ⊢
      split
      · next hk =>
        cases hw : (element i item o).writeItem s item items i x with
        | mk ys r =>
          rw [if_pos hk, hw] at h
          obtain ⟨-, hlt, rfl⟩ | ⟨zs, -, ⟨-, hlen, rfl⟩ | ⟨⟨f, rfl⟩, -⟩⟩ := writeItem_spec hw
          · exact congrArg Except.ok (List.getElem?_set_self hlt)
          · refine congrArg Except.ok ?_
            rw [← hlen, ← List.length_append, List.getElem?_concat_length]
          · cases h
      · next hk =>
        rw [if_neg hk] at h
        split
        · next hw =>
          obtain ⟨hlt, rfl⟩ := writeArrayItem_ok hw
          exact congrArg Except.ok (List.getElem?_set_self hlt)
        · next hw => rw [hw] at h; cases h
  | entry hkey =>
    cases hv with
    | map =>
      simp only [store] at h ⊢
      split at h
      · next hc =>
        rw [if_pos hc]
        exact congrArg Except.ok (by rw [Entries.get?_insert, if_pos rfl])
      · cases h

/-- A step through a member that reads what was stored in it reads what was written through it. -/
theorem read_write_of_member (hlaw : ∀ m, st.member? = some m → m.ReadsStored s t)
    (hst : st.Fits s t) (hv : HasType s v t) {y : Option Value}
    (hy : ∀ x, y = some x → HasType s x x.typeOf) (h : (st.write s v y).result = .ok ()) :
    ∃ x, st.type.prepare st.label y = .ok x ∧
      st.read (st.write s v y).value = .ok x.unwrapped := by
  obtain ⟨x, hx, heq⟩ := write_ok h
  rw [heq] at h ⊢
  exact ⟨x, hx, read_of_slot (slot_store hlaw hst hv (hasType_prepare hy hx) h)⟩

/-- Where members share their slots, a step reads what was written through it. -/
theorem read_write (hlaw : s.SharesSlots) (hst : st.Fits s t) (hv : HasType s v t)
    {y : Option Value} (hy : ∀ x, y = some x → HasType s x x.typeOf)
    (h : (st.write s v y).result = .ok ()) :
    ∃ x, st.type.prepare st.label y = .ok x ∧
      st.read (st.write s v y).value = .ok x.unwrapped :=
  read_write_of_member (fun _ hm => (hlaw _ _ (hst.of_member hm)).readsStored) hst hv hy h

end Step

end ObjectPath
