import ObjectPath.Proofs.Atomicity
import ObjectPath.Proofs.Delivery
import ObjectPath.Proofs.TextForms

/-!
# Types kept by writes

One write keeps a root typed whether it succeeds or not (`Evaluator.hasType_write`), so any number
of them do (`Evaluator.hasType_run`), whatever their expressions and payloads and whatever the
converters make of strings.

`Evaluator.Stores` lists what a write stores on its way and at its end.  All of it is of the type of
its slot (`Evaluator.Stores.hasType`), and where nothing is stored nothing changes but what getters
change when they are asked for a place (`Evaluator.write_asked_of_not_stores`).  What a converter
makes of a string is checked before: a value of another type than the wanted one is a conversion
fault (`Registry.parse_of_misses`).
-/

namespace ObjectPath

/-! ## Converters that give values of other types -/

/-- A type without its optional layers. -/
def Ty.core : Ty → Ty
  | .option t => t.core
  | t => t

theorem Ty.core_ne_option (t : Ty) : ∀ u, t.core ≠ .option u := by
  induction t with
  | option t ih => exact ih
  | leaf | seq | map | record => exact nofun

/-- Only the value of a type itself fits a slot of the type that is not optional. -/
theorem Ty.fit_error_of_ne {target : Ty} {v : Value} (ht : ∀ u, target ≠ .option u)
    (hv : v.typeOf ≠ target) : target.fit v = .error v := by
  unfold Ty.fit
  rw [if_neg hv]
  split
  · next u => exact absurd rfl (ht u)
  · rfl

namespace Registry

variable {r : Registry} {override : Option Converter} {t item target found : Ty} {raw : String}
  {raws before behind : List String} {f : Fault}

/-- The converter that is run for a type: the one that overrides, or the registered one.  A text
needs none. -/
def converter? (r : Registry) (override : Option Converter) (t : Ty) : Option Converter :=
  match override with
  | some c => some c
  | none => if t = .text then none else r.get? t

/-- The converter for a type makes a value of another type of a string. -/
def Misses (r : Registry) (override : Option Converter) (t : Ty) (raw : String) (found : Ty) :
    Prop :=
  ∃ c v, r.converter? override t = some c ∧ c.parse t raw = .ok v ∧ v.typeOf = found ∧ found ≠ t

theorem convert_of_misses (ht : ∀ u, t ≠ .option u) (h : r.Misses override t raw found) :
    r.convert override t raw = .error (.conversion t raw (.produced found)) := by
  obtain ⟨c, v, hc, hv, rfl, hne⟩ := h
  have hfit := Ty.fit_error_of_ne ht hne
  cases override with
  | some c' =>
    cases hc
    simp only [convert, hv, hfit]
  | none =>
    simp only [converter?] at hc
    split at hc
    · cases hc
    · next htext => simp only [convert, if_neg htext, hc, hv, hfit]

/-- What fails for a type fails behind any number of optional layers.  A blank string is not converted
there. -/
theorem parse_of_convert_error (hblank : (∀ u, target ≠ .option u) ∨ Text.allBlank raw = false)
    (h : r.convert override target.core raw = .error f) : r.parse override raw target = .error f := by
  induction target with
  | option t ih =>
    have hraw : Text.allBlank raw = false := hblank.resolve_left fun hne => hne t rfl
    simp only [parse, hraw, Bool.false_eq_true, if_false, ih (.inr hraw) h]
  | leaf | seq | map | record => exact h

/-- A value of another type is a conversion fault. -/
theorem parse_of_misses (hblank : (∀ u, target ≠ .option u) ∨ Text.allBlank raw = false)
    (h : r.Misses override target.core raw found) :
    r.parse override raw target = .error (.conversion target.core raw (.produced found)) :=
  parse_of_convert_error hblank (convert_of_misses (Ty.core_ne_option target) h)

/-- The first string that cannot be converted ends the conversion. -/
theorem parseItems_of_error {vs : List Value} (hbefore : r.parseItems override item before = .ok vs)
    (h : r.parse override raw item = .error f) :
    r.parseItems override item (before ++ raw :: behind) = .error f := by
  induction before generalizing vs with
  | nil => simp only [List.nil_append, parseItems, h]
  | cons s before ih =>
    simp only [parseItems] at hbefore
    split at hbefore
    · cases hbefore
    · next v hv =>
      split at hbefore
      · cases hbefore
      · next vs' hvs => simp only [List.cons_append, parseItems, hv, ih hvs]

/-- The conversion of strings for a slot comes to the string `raw`, of which a value of type `t` is
wanted. -/
inductive ConvertsAt (r : Registry) (override : Option Converter) (target : Ty) :
    List String → String → Ty → Prop
  | single {raw : String} (htarget : ∀ k item, target.declared ≠ .seq k item) :
      ConvertsAt r override target [raw] raw target
  | item {k : SeqKind} {item : Ty} {before behind : List String} {raw : String} {vs : List Value}
      (htarget : target.declared = .seq k item)
      (hbefore : r.parseItems override item before = .ok vs) :
      ConvertsAt r override target (before ++ raw :: behind) raw item

theorem parseStrings_of_error (member : String) (h : r.ConvertsAt override target raws raw t)
    (hf : r.parse override raw t = .error f) :
    r.parseStrings override target member raws = .error f := by
  unfold parseStrings
  cases h with
  | single htarget =>
    split
    · next k item hd => exact absurd hd (htarget k item)
    · simp only [hf]
  | item htarget hbefore =>
    split
    · next k' item' hd =>
      rw [htarget] at hd
      cases hd
      simp only [parseItems_of_error hbefore hf]
    · next hne => exact absurd htarget (hne _ _)

/-- Strings for a slot of which one is converted to a value of another type, with the fault. -/
inductive MissesSlot (r : Registry) (override : Option Converter) (target : Ty) :
    List String → Fault → Prop
  | single {raw : String} {found : Ty} (htarget : ∀ k item, target.declared ≠ .seq k item)
      (hblank : (∀ u, target ≠ .option u) ∨ Text.allBlank raw = false)
      (h : r.Misses override target.core raw found) :
      MissesSlot r override target [raw] (.conversion target.core raw (.produced found))
  | item {k : SeqKind} {item found : Ty} {before behind : List String} {raw : String}
      {vs : List Value} (htarget : target.declared = .seq k item)
      (hbefore : r.parseItems override item before = .ok vs)
      (hblank : (∀ u, item ≠ .option u) ∨ Text.allBlank raw = false)
      (h : r.Misses override item.core raw found) :
      MissesSlot r override target (before ++ raw :: behind)
        (.conversion item.core raw (.produced found))

theorem parseStrings_of_misses (member : String) (h : r.MissesSlot override target raws f) :
    r.parseStrings override target member raws = .error f := by
  cases h with
  | single htarget hblank h =>
    exact parseStrings_of_error member (.single htarget) (parse_of_misses hblank h)
  | item htarget hbefore hblank h =>
    exact parseStrings_of_error member (.item htarget hbefore) (parse_of_misses hblank h)

end Registry

namespace Evaluator

variable {ev : Evaluator} {payload : Payload} {site : Site} {a b : Atom} {atoms rest : List Atom}
  {s st : Step} {v x root : Value} {t : Ty}

/-! ## What a write stores -/

/-- The write stores `x` through the step `s`, or tries to: at its end, in place of a missing value
on its way, or in place of an array that is too short. -/
inductive Stores (ev : Evaluator) (payload : Payload) :
    Value → Site → List Atom → Step → Value → Prop
  | delivered {v : Value} {site : Site} {a : Atom} {st : Step} {y : Option Value} {x : Value}
      (hres : ev.resolve site a = .ok (.step st)) (hy : ev.bound payload st = .ok y)
      (hx : st.type.prepare st.label y = .ok x) : Stores ev payload v site [a] st x
  | created {v : Value} {site : Site} {a b : Atom} {rest : List Atom} {st : Step} {c x : Value}
      {w : Value} (hres : ev.resolve site a = .ok (.step st)) (hp : st.place v = .ok (.nothing w))
      (hc : st.create ev.schema b = .ok c) (hx : st.type.prepare st.label (some c) = .ok x) :
      Stores ev payload v site (a :: b :: rest) st x
  | lengthened {v : Value} {site : Site} {a b : Atom} {rest : List Atom} {st : Step}
      {w : Value} {p : Place w} {left longer x : Value}
      (hres : ev.resolve site a = .ok (.step st)) (hfill : (ev.fillIn st b v).result = .ok ())
      (hp : st.place (ev.fillIn st b v).value = .ok (.place w p))
      (hout : Outgrown ev.schema b p.value left longer)
      (hx : st.type.prepare st.label (some longer) = .ok x) :
      Stores ev payload v site (a :: b :: rest) st x
  | index {v : Value} {site next : Site} {a : Atom} {rest : List Atom} {s : Step} {x : Value}
      (hres : ev.resolve site a = .ok (.site next)) (h : Stores ev payload v next rest s x) :
      Stores ev payload v site (a :: rest) s x
  | further {v : Value} {site : Site} {a b : Atom} {rest : List Atom} {st s : Step} {x : Value}
      {w : Value} {p : Place w} (hres : ev.resolve site a = .ok (.step st))
      (ha : (ev.approach st b v).result = .ok ())
      (hp : st.place (ev.approach st b v).value = .ok (.place w p))
      (h : Stores ev payload p.value (.value p.value.typeOf st.origin) (b :: rest) s x) :
      Stores ev payload v site (a :: b :: rest) s x

/-- What is stored is of the type of its slot: by induction on the way of the write. -/
theorem Stores.hasType (hev : ev.Typed) (hpay : payload.Typed ev.schema)
    (h : ev.Stores payload v site atoms s x) :
    ∀ {t : Ty}, HasType ev.schema v t → site.Fits ev.schema t → HasType ev.schema x s.type := by
  induction h with
  | delivered hres hy hx =>
    intro t _ hsite
    exact hasType_prepare (hasType_bound hev hpay (fits_step hev hsite hres) hy) hx
  | created _ _ hc hx =>
    intro t _ _
    refine hasType_prepare (fun z hz => ?_) hx
    cases hz
    exact (Step.hasType_create hev.schema hc).self
  | lengthened hres _ hp hout hx =>
    intro t hv hsite
    have hst := fits_step hev hsite hres
    have htyped := Step.typed_place hev.schema hst (hasType_fillIn hev hst hv) hp
    refine hasType_prepare (fun z hz => ?_) hx
    cases hz
    exact (hout.hasType_longer hev.schema htyped.value).self
  | index hres _ ih =>
    intro t hv hsite
    exact ih hv (fits_site hev hsite hres)
  | further hres _ hp _ ih =>
    intro t hv hsite
    have hst := fits_step hev hsite hres
    obtain ⟨hptype, hsite'⟩ := fits_place hev hst (hasType_approach hev hst hv) hp
    exact ih hptype hsite'

theorem write_value_of_not_prepared {y : Option Value}
    (h : ∀ x, st.type.prepare st.label y ≠ .ok x) : (st.write ev.schema v y).value = v := by
  unfold Step.write
  split
  · next x hx => exact absurd hx (h x)
  · rfl

theorem deliver_value_of_not_stores (hres : ev.resolve site a = .ok (.step st))
    (hnone : ∀ s x, ¬ ev.Stores payload v site [a] s x) :
    (ev.deliver payload st v).value = v := by
  rw [deliver_eq]
  split
  · next y hy =>
    exact write_value_of_not_prepared fun x hx => hnone st x (.delivered hres hy hx)
  · rfl

theorem fillIn_asked_of_not_stores (hres : ev.resolve site a = .ok (.step st))
    (hnone : ∀ s x, ¬ ev.Stores payload v site (a :: b :: rest) s x) :
    st.Asked v (ev.fillIn st b v).value := by
  unfold fillIn
  split
  · exact .unasked
  · next hp => exact .left hp
  · next w hp =>
    split
    · exact .left hp
    · next c hc =>
      have hw : (st.write ev.schema w (some c)).value = w :=
        write_value_of_not_prepared fun x hx => hnone st x (.created hres hp hc hx)
      exact hw.symm ▸ .left hp

/-- Where nothing is stored, approaching a step does nothing but ask for its place: what a longer
array is made of is only moved when that array fits its slot. -/
theorem approach_asked_of_not_stores (hev : ev.Typed) (hst : st.Fits ev.schema t)
    (hv : HasType ev.schema v t) (hres : ev.resolve site a = .ok (.step st))
    (hnone : ∀ s x, ¬ ev.Stores payload v site (a :: b :: rest) s x) :
    ∃ w, st.Asked v w ∧ st.Asked w (ev.approach st b v).value := by
  refine ⟨_, fillIn_asked_of_not_stores hres hnone, ?_⟩
  unfold approach
  cases hr : (ev.fillIn st b v).result with
  | error f => rw [(Written.andThen_of_error hr).1]; exact .unasked
  | ok =>
    rw [(Written.andThen_of_ok hr).1]
    obtain ⟨w, hw, h⟩ | ⟨w, f, hw, h, -⟩ | ⟨w, p, left, longer, n, hp, hout, -⟩ :=
      ev.lengthen_spec st b (ev.fillIn st b v).value
    · rw [h]; exact hw
    · rw [h]; exact hw
    · have hv' := hasType_fillIn (b := b) hev hst hv
      have hlonger := hout.hasType_longer hev.schema (Step.typed_place hev.schema hst hv' hp).value
      obtain ⟨x, hx⟩ := Ty.exists_fit hlonger.typeOf_eq
      exact absurd (.lengthened hres hr hp hout (Ty.prepare_of_fit st.label hx)) (hnone st x)

/-- Where a write stores nothing it does nothing but ask for places. -/
theorem write_asked_of_not_stores (hev : ev.Typed) (atoms : List Atom) :
    ∀ {v : Value} {t : Ty} {site : Site}, HasType ev.schema v t → site.Fits ev.schema t →
      (∀ s x, ¬ ev.Stores payload v site atoms s x) →
      ev.Asked site atoms v (ev.write payload v site atoms).value := by
  induction atoms with
  | nil => intro v t site _ _ _; rw [write]; exact .stop
  | cons a rest ih =>
    intro v t site hv hsite hnone
    cases hres : ev.resolve site a with
    | error f => rw [write_error hres]; exact .stop
    | ok r =>
      cases r with
      | site next =>
        rw [write_site hres]
        exact .index hres (ih hv (fits_site hev hsite hres) fun s x h => hnone s x (.index hres h))
      | step st =>
        have hst := fits_step hev hsite hres
        cases rest with
        | nil =>
          rw [write_last hres]
          rw [deliver_value_of_not_stores hres hnone]
          exact .stop
        | cons b rest =>
          rw [write_step hres]
          obtain ⟨w, hfilled, hlengthened⟩ := approach_asked_of_not_stores hev hst hv hres hnone
          refine .step hres hfilled (.step hres hlengthened ?_)
          cases ha : (ev.approach st b v).result with
          | error f => rw [(Written.andThen_of_error ha).1]; exact .stop
          | ok =>
            rw [(Written.andThen_of_ok ha).1]
            have hv' := hasType_approach (b := b) hev hst hv
            unfold descend
            split
            · exact .stop
            · next hp => exact .step hres (.left hp) .stop
            · next u p hp =>
              obtain ⟨hptype, hsite'⟩ := fits_place hev hst hv' hp
              exact .inside hres hp
                (ih hptype hsite' fun s x h => hnone s x (.further hres ha hp h))

/-! ## Runs -/

/-- Stores payloads one after the other at expressions, and goes on after failures. -/
def run (ev : Evaluator) (root : Value) (requests : List (String × Payload)) : Value :=
  requests.foldl (fun v request => (ev.set request.1 request.2 v).value) root

/-- One request keeps the root typed, whether it succeeds or not. -/
theorem hasType_set (hev : ev.Typed) (hpay : payload.Typed ev.schema)
    (hroot : HasType ev.schema root t) (source : String) :
    HasType ev.schema (ev.set source payload root).value t := by
  cases hparse : parse source with
  | error f => rw [set_of_parse_error hparse]; exact hroot
  | ok atoms =>
    rw [(set_of_parse hparse ev payload root).1]
    have hsite : (start root).Fits ev.schema t := hroot.typeOf_eq ▸ fits_start root
    exact hasType_write hev hpay atoms hroot hsite

/-- Any number of requests keeps the root typed: by induction on the requests. -/
theorem hasType_run (hev : ev.Typed) (requests : List (String × Payload)) :
    ∀ {root : Value}, HasType ev.schema root t →
      (∀ request ∈ requests, request.2.Typed ev.schema) →
      HasType ev.schema (ev.run root requests) t := by
  induction requests with
  | nil => intro root hroot _; exact hroot
  | cons request requests ih =>
    intro root hroot hpay
    obtain ⟨hfirst, hrest⟩ := List.forall_mem_cons.1 hpay
    exact ih (hasType_set hev hfirst hroot request.1) hrest

/-- A root of a type, and what further requests do to it.  What they store is of the type of its
slot (`stored`), and without that they change nothing but what getters change when they are asked
for a place (`unchanged`).  A converter that makes a value
of another type of a string at the end of an expression is reported as a conversion fault, unless no
request comes so far (`missed`), and so is one that does so for a key or an index (`missedKey`). -/
structure KeepsType (ev : Evaluator) (root : Value) (t : Ty) : Prop where
  typed : HasType ev.schema root t
  stored : ∀ (payload : Payload) (source : String) (atoms : List Atom) (s : Step) (x : Value),
    payload.Typed ev.schema → parse source = .ok atoms →
      ev.Stores payload root (start root) atoms s x → HasType ev.schema x s.type
  unchanged : ∀ (payload : Payload) (source : String) (atoms : List Atom),
    parse source = .ok atoms → (∀ s x, ¬ ev.Stores payload root (start root) atoms s x) →
      ev.Asked (start root) atoms root (ev.set source payload root).value ∧
        (ev.schema.LeavesRecords → (ev.set source payload root).value = root)
  missed : ∀ (source : String) (atoms : List Atom) (s : Step) (raw : List String) (f : Fault),
    parse source = .ok atoms → ev.terminal (start root) atoms = .ok s →
      ev.converters.MissesSlot s.override? s.type raw f →
        (ev.set source (.strings raw) root).result = .error f ∨
          ∃ g, ∀ payload, (ev.set source payload root).result = .error g
  missedKey : ∀ (payload : Payload) (v : Value) (site : Site) (a : Atom) (rest : List Atom)
    (key found : Ty),
    ((∃ k u o, site = .value (.map k key u) o) ∨ ∃ m, site = .index m key) →
      ((∀ u, key ≠ .option u) ∨ Text.allBlank a.text = false) →
        ev.converters.Misses none key.core a.text found →
          ev.write payload v site (a :: rest) =
            .failed v (.conversion key.core a.text (.produced found))

/-- A converter that makes a value of another type of the strings for the last step is reported. -/
theorem set_of_misses (hev : ev.Typed) (hroot : HasType ev.schema root root.typeOf)
    {source : String} {raw : List String} {f : Fault} (hparse : parse source = .ok atoms)
    (hs : ev.terminal (start root) atoms = .ok s)
    (h : ev.converters.MissesSlot s.override? s.type raw f) :
    (ev.set source (.strings raw) root).result = .error f ∨
      ∃ g, ∀ payload, (ev.set source payload root).result = .error g := by
  rcases stops_or_arrives hev atoms hroot (fits_start root) with
    ⟨w, g, hstop⟩ | ⟨s', w, u, fill, hs', -, -, harrive⟩
  · refine .inr ⟨g, fun payload => ?_⟩
    rw [(set_of_parse hparse ev payload root).2]
    exact (hstop payload).result
  · rw [hs] at hs'
    cases hs'
    have hbound : ev.bound (.strings raw) s = .error f :=
      Registry.parseStrings_of_misses s.label h
    refine .inl ?_
    rw [(set_of_parse hparse ev _ root).2, (harrive _).result, deliver_eq, hbound]
    rfl

/-- A converter that makes a value of another type of a key or of an index is reported. -/
theorem write_of_misses_key (payload : Payload) (v : Value) (rest : List Atom) {key found : Ty}
    (hsite : (∃ k u o, site = .value (.map k key u) o) ∨ ∃ m, site = .index m key)
    (hblank : (∀ u, key ≠ .option u) ∨ Text.allBlank a.text = false)
    (h : ev.converters.Misses none key.core a.text found) :
    ev.write payload v site (a :: rest) =
      .failed v (.conversion key.core a.text (.produced found)) := by
  have hparse := Registry.parse_of_misses hblank h
  refine write_error ?_
  obtain ⟨k, u, o, rfl⟩ | ⟨m, rfl⟩ := hsite
  · simp only [resolve, hparse]
  · simp only [resolve, hparse]

/-- After any requests, with whatever expressions, values and strings and whether they succeeded or
not, the root is of the type it was of before, and further requests keep it so. -/
theorem keepsType_run (hev : ev.Typed) (hroot : HasType ev.schema root t)
    {requests : List (String × Payload)}
    (hpay : ∀ request ∈ requests, request.2.Typed ev.schema) :
    ev.KeepsType (ev.run root requests) t := by
  have htyped := hasType_run hev requests hroot hpay
  have hself := htyped.self
  refine ⟨htyped, fun payload source atoms s x hp _ h => ?_,
    fun payload source atoms hparse h => ?_, fun source atoms s raw f hparse hs h => ?_,
    fun payload v site a rest key found hsite hb h => ?_⟩
  · exact h.hasType hev hp hself (fits_start _)
  · rw [(set_of_parse hparse ev payload _).1]
    have hasked := write_asked_of_not_stores hev atoms hself (fits_start _) h
    exact ⟨hasked, fun hlaw => hasked.eq hlaw trivial⟩
  · exact set_of_misses hev hself hparse hs h
  · exact write_of_misses_key payload v rest hsite hb h

set_option maxRecDepth 10000 in
/-- The converter for quantities gives texts.  Two requests on the line in a bin: strings for its
quantity are refused, and a quantity is stored behind it. -/
theorem keepsType_run_stocked :
    (Evaluator.mk Shelf.evaluator.schema (.register .standard (.int .u32) .verbatim)).Typed ∧
      HasType Shelf.evaluator.schema Shelf.stocked Shelf.stocked.typeOf ∧
      ((Evaluator.mk Shelf.evaluator.schema (.register .standard (.int .u32) .verbatim)).set
        "bin['a b'][0].qty" (.strings ["7"]) Shelf.stocked).result =
          .error (.conversion (.int .u32) "7" (.produced .text)) ∧
      (Evaluator.mk Shelf.evaluator.schema (.register .standard (.int .u32) .verbatim)).KeepsType
        ((Evaluator.mk Shelf.evaluator.schema (.register .standard (.int .u32) .verbatim)).run
          Shelf.stocked [("bin['a b'][0].qty", .strings ["7"]),
            ("bin['a b'][2].qty", .value (some (.int .u32 7)))]) Shelf.stocked.typeOf := by
  have htyped : (Evaluator.mk Shelf.evaluator.schema
      (.register .standard (.int .u32) .verbatim)).Typed :=
    ⟨Shelf.typed.schema, (Registry.typed_standard _).register Converter.typed_verbatim⟩
  have hpay : ∀ request ∈ [("bin['a b'][0].qty", Payload.strings ["7"]),
      ("bin['a b'][2].qty", .value (some (.int .u32 7)))],
      request.2.Typed Shelf.evaluator.schema := by
    refine List.forall_mem_cons.2 ⟨trivial, List.forall_mem_cons.2 ⟨?_, nofun⟩⟩
    exact .of_checks _ _ (by decide)
  exact ⟨htyped, Shelf.hasType_stocked, rfl, keepsType_run htyped Shelf.hasType_stocked hpay⟩

end Evaluator

end ObjectPath
