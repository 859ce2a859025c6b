import ObjectPath.Proofs.Binding
import ObjectPath.Proofs.Contents
import ObjectPath.Proofs.Faults

/-!
# Blank strings

A string without other characters than blanks is null for an optional type, and no converter is
asked for it.  Any other string is converted for the type behind all optional layers and put back
behind them (`Registry.parse_options`), so no layer in between becomes null.

Where there are only fields, what was put in a slot is read there (`Evaluator.read_of_puts`).  So a
string that was set on an optional slot reads as null if and only if it is blank
(`Evaluator.blankIsNull`).
-/

namespace ObjectPath

/-! ## Optional layers -/

/-- A type behind a number of optional layers. -/
def Ty.options : Nat → Ty → Ty
  | 0, t => t
  | n + 1, t => .option (t.options n)

/-- A value as the content of a number of optional slots, one inside the other. -/
def Value.presents : Nat → Value → Value
  | 0, v => v
  | n + 1, v => .present (v.presents n)

namespace Registry

variable {r : Registry} {o : Option Converter} {raw : String} {t : Ty}

/-- Behind an optional layer a string that is not blank is converted as for the type itself. -/
theorem parse_option (hraw : Text.allBlank raw = false) :
    r.parse o raw (.option t) = (r.parse o raw t).map .present := by
  simp only [parse, hraw, Bool.false_eq_true, if_false]
  cases h : r.parse o raw t with
  | error f => rfl
  | ok v =>
    simp only [Value.wrap, if_pos (typeOf_parse h)]
    rfl

theorem parse_option_ok {x : Value} (hraw : Text.allBlank raw = false)
    (h : r.parse o raw (.option t) = .ok x) : ∃ v, r.parse o raw t = .ok v ∧ x = .present v := by
  rw [parse_option hraw] at h
  cases hv : r.parse o raw t with
  | error f => rw [hv] at h; cases h
  | ok v => rw [hv] at h; exact ⟨v, rfl, (Except.ok.inj h).symm⟩

/-- Behind any number of optional layers a string that is not blank is converted as for the type
itself, by induction on the layers. -/
theorem parse_options (hraw : Text.allBlank raw = false) (n : Nat) :
    r.parse o raw (t.options n) = (r.parse o raw t).map (·.presents n) := by
  induction n with
  | zero => exact (congrFun Except.map_id (r.parse o raw t)).symm
  | succ n ih =>
    rw [Ty.options, parse_option hraw, ih]
    cases r.parse o raw t <;> rfl

/-- One string for a slot that takes no sequence is converted for the type of the slot. -/
theorem parseStrings_single_ok {label : String} {y : Option Value}
    (hseq : ∀ k item, t.declared ≠ .seq k item) (h : r.parseStrings o t label [raw] = .ok y) :
    ∃ x, r.parse o raw t = .ok x ∧ y = some x := by
  unfold parseStrings at h
  split at h
  · next k item hd => exact absurd hd (hseq k item)
  · cases hx : r.parse o raw t with
    | error f => simp only [hx] at h; cases h
    | ok x => simp only [hx] at h; exact ⟨x, rfl, (Except.ok.inj h).symm⟩

end Registry

/-! ## Reading what was put in a slot -/

/-- What was put in a slot is read there. -/
theorem Step.Opens.read_put {s : Schema} {st : Step} {v : Value} (h : st.Opens s v) (c : Value) :
    st.read (st.put s v c) = .ok c.unwrapped := by
  obtain ⟨hinto, q, hq, hc, -⟩ := h.exists_place c
  obtain ⟨o, ho, hslot⟩ := hinto.slot_eq_slotPlace
  obtain rfl := Offer.of_eq_place (Except.ok.inj (ho.symm.trans hq))
  rw [Step.read_of_slot hslot]
  exact congrArg (fun x : Value => Except.ok x.unwrapped) hc

namespace Evaluator

variable {ev : Evaluator} {payload : Payload} {root : Value} {source raw : String} {s : Step}

/-- A read along the path of a write finds what the last slot shows of the payload, by induction on
the atoms behind the first step: what is put in a slot holds the next one. -/
theorem read_of_puts (hev : ev.Typed) (rest : List Atom) :
    ∀ {a : Atom} {site : Site} {st : Step} {v new : Value} {held : Option Value},
      ev.TypedSlot st held → ev.Puts payload st rest held new →
        ev.resolve site a = .ok (.step st) → st.read v = .ok new.unwrapped →
          ∃ s y, ev.terminal site (a :: rest) = .ok s ∧ ev.bound payload s = .ok y ∧
            ev.read v site (a :: rest) = .ok (.of s (s.type.sees y)) := by
  induction rest with
  | nil =>
    intro a site st v new held _ h hres hread
    cases h with
    | @stored _ y _ hy hnew =>
      rw [Ty.unwrapped_prepare hnew] at hread
      exact ⟨st, y, terminal_last hres, hy, read_of_step hres hread⟩
  | cons b rest ih =>
    intro a site st v new held hslot h hres hread
    cases held with
    | none => cases h
    | some c =>
      -- The next slot is put in what the step held or creates, and that goes back behind the step.
      obtain ⟨u, st', new', hu, hres', hopens, hputs, rfl⟩ := (puts_cons_iff hev hslot).1 h
      have hutype := (hslot.base hev hu).1.typeOf_eq
      have htype := hopens.typeOf_put new'
      rw [Ty.unwrapped_holding (htype.trans hutype)] at hread
      obtain ⟨s, y, hs, hy, hbelow⟩ := ih (hslot.below hev hu hres') hputs hres' (hopens.read_put new')
      refine ⟨s, y, ?_, hy, ?_⟩
      · rw [terminal_step hres, ← hutype]
        exact hs
      · rw [read_step hres hread, htype]
        exact hbelow

/-- Where there are only fields, an expression that was written to gives what the slot at its end
shows of the payload. -/
theorem get_of_set (hev : ev.Typed) (hfields : ev.schema.OnlyFields root.typeOf)
    (hpay : payload.Typed ev.schema) (hroot : HasType ev.schema root root.typeOf)
    (h : (ev.set source payload root).result = .ok ()) :
    ∃ s y, ev.resolved source root.typeOf = .ok s ∧ ev.bound payload s = .ok y ∧
      ev.get source (ev.set source payload root).value = .ok (s.type.sees y) := by
  cases hparse : parse source with
  | error f => rw [set_of_parse_error hparse] at h; cases h
  | ok atoms =>
    obtain ⟨hvalue, hresult⟩ := set_of_parse hparse ev payload root
    have hleaves : (ev.write payload root (start root) atoms).Leaves
        (ev.write payload root (start root) atoms).value := ⟨hresult.symm.trans h, rfl⟩
    obtain ⟨a, rest, st, rfl, hres⟩ :=
      exists_step_of_leaves hev hfields (fits_start root) hleaves
    have hst := fits_step hev (fits_start root) hres
    have hinto := Step.leadsInto hfields hst hroot
    obtain ⟨⟨hopens, -⟩, new, hputs, hput⟩ := (write_leaves_iff hev hinto hst hroot hres).1 hleaves
    obtain ⟨s, y, hs, hy, hread⟩ := read_of_puts hev rest (.of_fits hev hfields hst hroot) hputs hres
      (hopens.read_put new)
    refine ⟨s, y, ?_, hy, ?_⟩
    · simp only [resolved, hparse, bind, Except.bind]
      exact blame_ok.2 hs
    · refine get_eq (s := s) hparse ?_
      rw [hvalue, start_write hev hpay hroot, hput]
      exact hread

/-! ## Null for blank strings -/

/-- One string that was set on a slot that takes no sequence reads as what it is converted to. -/
theorem get_set_string (hev : ev.Typed) (hfields : ev.schema.OnlyFields root.typeOf)
    (hroot : HasType ev.schema root root.typeOf) (hs : ev.resolved source root.typeOf = .ok s)
    (hseq : ∀ k item, s.type.declared ≠ .seq k item)
    (h : (ev.set source (.strings [raw]) root).result = .ok ()) :
    ∃ x, ev.converters.parse s.override? raw s.type = .ok x ∧
      ev.get source (ev.set source (.strings [raw]) root).value = .ok x.unwrapped := by
  have hpay : (Payload.strings [raw]).Typed ev.schema := trivial
  obtain ⟨s', y, hs', hy, hget⟩ := get_of_set hev hfields hpay hroot h
  cases hs.symm.trans hs'
  obtain ⟨x, hx, rfl⟩ := Registry.parseStrings_single_ok hseq hy
  exact ⟨x, hx, hget.trans (congrArg Except.ok (if_pos (Registry.typeOf_parse hx)))⟩

/-- A string for an optional type is null if and only if it is blank, whatever the converters make
of strings.  Otherwise it becomes what it is converted to for the type behind all optional layers,
behind as many layers again, or fails as it does there.  So where there are only fields, an optional
slot that takes no sequence is null after one string was set on it if and only if the string is
blank. -/
theorem blankIsNull (hev : ev.Typed) (hfields : ev.schema.OnlyFields root.typeOf)
    (hroot : HasType ev.schema root root.typeOf) :
    (∀ (r : Registry) (o : Option Converter) (raw : String) (n : Nat) (t : Ty),
      (Text.allBlank raw = true → r.parse o raw (t.options (n + 1)) = .ok (.absent (t.options n))) ∧
      (Text.allBlank raw = false →
        (∃ f, r.parse o raw t = .error f ∧ r.parse o raw (t.options (n + 1)) = .error f) ∨
          ∃ v, r.parse o raw t = .ok v ∧ v.typeOf = t ∧
            r.parse o raw (t.options (n + 1)) = .ok (v.presents (n + 1)))) ∧
    ∀ source raw s t, ev.resolved source root.typeOf = .ok s → s.type = .option t →
      (∀ k item, t ≠ .seq k item) → (ev.set source (.strings [raw]) root).result = .ok () →
        (ev.get source (ev.set source (.strings [raw]) root).value = .ok none ↔
          Text.allBlank raw = true) := by
  refine ⟨fun r o raw n t => ⟨Registry.parse_blank r o, fun hraw => ?_⟩,
    fun source raw s t hs htype hseq hset => ?_⟩
  · rw [Registry.parse_options hraw]
    cases h : r.parse o raw t with
    | error f => exact .inl ⟨f, rfl, rfl⟩
    | ok v => exact .inr ⟨v, rfl, Registry.typeOf_parse h, rfl⟩
  · obtain ⟨x, hx, hget⟩ := get_set_string hev hfields hroot hs (by rwa [htype]) hset
    rw [hget]
    rw [htype] at hx
    cases hraw : Text.allBlank raw with
    | true =>
      cases (Registry.parse_blank _ _ hraw).symm.trans hx
      exact ⟨fun _ => rfl, fun _ => rfl⟩
    | false =>
      obtain ⟨v, -, rfl⟩ := Registry.parse_option_ok hraw hx
      exact ⟨nofun, nofun⟩

end Evaluator

/-! ## A parcel -/

namespace Parcel

/-- A parcel whose weight may be unknown, or known to be missing. -/
def parcel : RecordDecl :=
  .ofParts [] "Parcel" true [.exposed "weight" (.option (.option (.int .u32))) []] []

/-- The evaluator for parcels. -/
def evaluator : Evaluator := ⟨⟨[parcel], []⟩, .standard⟩

theorem isPlain : evaluator.schema.isPlain = true := by decide

/-- A parcel of five. -/
def weighed : Value := .record "Parcel" [.present (.present (.int .u32 5))]

end Parcel

set_option maxRecDepth 10000 in
theorem Evaluator.blankIsNull_weighed :
    Parcel.evaluator.Typed ∧ Parcel.evaluator.schema.OnlyFields Parcel.weighed.typeOf ∧
      HasType Parcel.evaluator.schema Parcel.weighed Parcel.weighed.typeOf ∧
      Registry.standard.parse none "\u2003 " (.options 2 (.int .u32)) =
        .ok (.absent (.options 1 (.int .u32))) ∧
      (Parcel.evaluator.set "weight" (.strings [" 7 "]) Parcel.weighed).result = .ok () ∧
      (Parcel.evaluator.get "weight" (Parcel.evaluator.set "weight" (.strings [" 7 "])
        Parcel.weighed).value = .ok none ↔ Text.allBlank " 7 " = true) := by
  have htyped : Parcel.evaluator.Typed :=
    ⟨(typed_of_isPlain Parcel.isPlain).schema, Registry.typed_standard _⟩
  have hfields := Schema.OnlyFields.of_isPlain Parcel.isPlain Parcel.weighed.typeOf
  have hroot : HasType Parcel.evaluator.schema Parcel.weighed Parcel.weighed.typeOf :=
    .of_checks _ _ (by decide)
  have hset : (Parcel.evaluator.set "weight" (.strings [" 7 "]) Parcel.weighed).result = .ok () := by
    rfl
  obtain ⟨hparse, hget⟩ := blankIsNull htyped hfields hroot
  exact ⟨htyped, hfields, hroot, (hparse _ _ _ 1 _).1 (by decide), hset,
    hget "weight" " 7 " _ _ rfl rfl (by simp) hset⟩

end ObjectPath
