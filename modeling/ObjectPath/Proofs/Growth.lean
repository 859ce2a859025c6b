import ObjectPath.Proofs.Holders

/-!
# Sequences that grow

A path leads to a slot that holds a sequence or is null (`Evaluator.SlotAt`), and an expression
goes on from there to an index and further.  The items that are left when a payload is set there are
the same for all kinds of sequences (`Evaluator.set_item_iff`).

So what succeeds for one kind succeeds for the others and leaves the same items, and at the last
index every kind refuses (`Evaluator.grow_alike`).
-/

namespace ObjectPath

namespace Evaluator

variable {ev : Evaluator} {payload : Payload} {site : Site} {a b : Atom} {path rest : List Atom}
  {st : Step} {v u w d root : Value} {t item : Ty} {items : List Value} {i : Nat} {k : SeqKind}
  {q : Place v} {source : String}

/-! ## Slots that a path leads to -/

/-- A path leads to a slot that is there: its last step is to a field, an item or an entry, and
nothing on the way is null. -/
inductive SlotAt (ev : Evaluator) : (v : Value) → Site → List Atom → Step → Place v → Prop
  | last {v : Value} {site : Site} {a : Atom} {st : Step} {q : Place v}
      (hres : ev.resolve site a = .ok (.step st)) (hinto : st.LeadsInto v)
      (hq : st.slotPlace v = .ok (.place v q)) : SlotAt ev v site [a] st q
  | further {v : Value} {site : Site} {a b : Atom} {rest : List Atom} {st last : Step}
      {p : Place v} {q : Place p.value} (hres : ev.resolve site a = .ok (.step st))
      (hp : st.place v = .ok (.place v p))
      (h : SlotAt ev p.value (.value p.value.typeOf st.origin) (b :: rest) last q) :
      SlotAt ev v site (a :: b :: rest) last (p.compose q)

/-- An index behind the end of an array leads to no slot. -/
theorem SlotAt.not_beyond {o : Option Member}
    (h : ev.SlotAt v (.value v.typeOf o) (b :: rest) st q) : ¬ Beyond b v := by
  intro hbeyond
  obtain ⟨item, items, i, rfl, hi, hclosed⟩ := hbeyond.closed
  have hres := ev.resolve_item hi .boxed item o
  cases h with
  | last hres' _ hq =>
    cases hres.symm.trans hres'
    rw [Step.slotPlace_item_of_le hclosed.short] at hq
    cases hq
  | further hres' hp =>
    cases hres.symm.trans hres'
    rw [Step.place_item_of_le hclosed.short] at hp
    cases hp

/-- A write passes a value that is there and is not too short for its next step. -/
theorem write_agrees_of_place (payload : Payload) (rest : List Atom)
    (hres : ev.resolve site a = .ok (.step st)) {p : Place v} (hp : st.place v = .ok (.place v p))
    (hlong : ¬ Beyond b p.value) : (ev.write payload v site (a :: b :: rest)).Agrees
      ((ev.write payload p.value (.value p.value.typeOf st.origin) (b :: rest)).within p.fill) := by
  have happroach : (ev.approach st b v).Leaves v := by
    refine Written.leaves_andThen.2 ⟨v, ?_, ?_⟩
    · rw [fillIn_of_place hp]
      exact Written.leaves_done
    · rw [lengthen_of_not_beyond hp hlong]
      exact Written.leaves_done
  rw [write_step hres, ← descend_of_place hp]
  exact happroach.andThen _

/-- A write on a path that goes on behind a slot comes to the value that holds the slot, and what it
leaves there is put back: by induction on the path. -/
theorem SlotAt.exists_holder (hev : ev.Typed) (h : ev.SlotAt v site path st q) :
    ∀ {t : Ty}, HasType ev.schema v t → site.Fits ev.schema t →
      ∃ (w : Value) (u : Ty) (site' : Site) (a : Atom) (q' : Place w) (fill : Value → Value),
        HasType ev.schema w u ∧ st.Fits ev.schema u ∧ st.LeadsInto w ∧
        ev.resolve site' a = .ok (.step st) ∧ st.slotPlace w = .ok (.place w q') ∧
        q'.value = q.value ∧ (∀ x, q.fill x = fill (q'.fill x)) ∧
        ∀ payload b rest, (ev.write payload v site (path ++ b :: rest)).Agrees
          ((ev.write payload w site' (a :: b :: rest)).within fill) := by
  induction h with
  | @last v site a st q hres hinto hq =>
    intro t hv hsite
    exact ⟨v, t, site, a, q, id, hv, fits_step hev hsite hres, hinto, hres, hq, rfl, fun _ => rfl,
      fun _ _ _ => .refl _⟩
  | @further v site a b rest st last p q hres hp h ih =>
    intro t hv hsite
    obtain ⟨hptype, hsite'⟩ := fits_place hev (fits_step hev hsite hres) hv hp
    obtain ⟨w, u, site', c, q', fill, hw, hst, hinto, hres', hq', hvalue, hfill, hwrite⟩ :=
      ih hptype hsite'
    refine ⟨w, u, site', c, q', p.fill ∘ fill, hw, hst, hinto, hres', hq', hvalue,
      fun x => congrArg p.fill (hfill x), fun payload d others => ?_⟩
    exact (write_agrees_of_place payload _ hres hp h.not_beyond).trans
      ((hwrite payload d others).within p.fill)

/-! ## Expressions -/

/-- In a root of its type, an expression leads to a slot, on to the index `i`, and then along
`rest`. -/
structure IndexesSlot (ev : Evaluator) (source : String) (root : Value) (st : Step)
    (q : Place root) (i : Nat) (rest : List Atom) : Prop where
  typed : HasType ev.schema root root.typeOf
  leads : ∃ path b, parse source = .ok (path ++ b :: rest) ∧
    ev.SlotAt root (start root) path st q ∧ b.index? = some i

section Expressions

variable {q : Place root} (hev : ev.Typed) (h : ev.IndexesSlot source root st q i rest)
  (hholds : q.value.Holds k item items)

include hev h hholds

/-- A write at an index of a sequence in a slot succeeds exactly if something is left of the item
that is there, or of a default one, and leaves it among the items, filled up to the index: whatever
the kind of the sequence. -/
theorem set_item_iff (hd : ev.schema.default? item = some d) (hbound : i + 1 < UInt64.size) :
    (ev.set source payload root).Leaves w ↔
      ∃ new, ev.SlotWritten payload (.element i item st.origin) rest (items[i]?.getD d) new ∧
        w = q.fill (q.value.holding (.seq k item ((paddedTo items i d).set i new))) := by
  obtain ⟨path, b, hparse, hat, hi⟩ := h.leads
  obtain ⟨v, t, site, a, q', fill, hv, hst, hinto, hres, hq', hvalue, hfill, hwrite⟩ :=
    hat.exists_holder hev h.typed (fits_start root)
  rw [← hvalue] at hholds ⊢
  rw [((set_agrees_write hparse ev payload root).trans (hwrite payload b rest)).leaves_iff,
    Written.leaves_within]
  simp only [write_holder_iff hev hinto hst hv hq' hres hholds hi hd hbound, hfill]
  constructor
  · rintro ⟨_, ⟨new, hwritten, rfl⟩, rfl⟩
    exact ⟨new, hwritten, rfl⟩
  · rintro ⟨new, hwritten, rfl⟩
    exact ⟨_, ⟨new, hwritten, rfl⟩, rfl⟩

/-- A write at the last index fails and leaves the items as they were. -/
theorem set_full (payload : Payload) (hshort : items.length ≤ i) (hfull : ¬ i + 1 < UInt64.size) :
    ∃ f c, (ev.set source payload root).Agrees (.failed (q.fill c) f) ∧
      (c = q.value ∨ q.value = .absent (.seq k item) ∧ c = .present (.seq k item [])) := by
  obtain ⟨path, b, hparse, hat, hi⟩ := h.leads
  obtain ⟨v, t, site, a, q', fill, hv, hst, hinto, hres, hq', hvalue, hfill, hwrite⟩ :=
    hat.exists_holder hev h.typed (fits_start root)
  rw [← hvalue] at hholds
  obtain ⟨f, c, hfailed, hc⟩ := write_holder_full hev hinto hst hv hq' hi hshort hfull payload rest
    hres hholds
  refine ⟨f, c, ?_, hvalue ▸ hc⟩
  rw [hfill]
  exact (set_agrees_write hparse ev payload root).trans
    ((hwrite payload b rest).trans (hfailed.within fill))

end Expressions

/-- The kinds of sequences grow alike.  Two slots hold the same items, in sequences of any kinds or
as null, below members with the same converter.  What succeeds at an index of the one, and further
along the same texts, succeeds at that index of the other and leaves the same items: those that were
there, default ones up to the index, and what a write in the item or in a default one leaves.  At
the last index a write fails, and no item is changed. -/
theorem grow_alike (hev : ev.Typed) (hd : ev.schema.default? item = some d) {root' : Value}
    {source' : String} {st' : Step} {q : Place root} {q' : Place root'} {k' : SeqKind}
    {rest' : List Atom} (h : ev.IndexesSlot source root st q i rest)
    (hholds : q.value.Holds k item items) (h' : ev.IndexesSlot source' root' st' q' i rest')
    (hholds' : q'.value.Holds k' item items)
    (hconverter : st.origin.bind Member.converter? = st'.origin.bind Member.converter?)
    (htexts : rest.map (·.text) = rest'.map (·.text)) (payload : Payload) :
    (i + 1 < UInt64.size → (ev.set source payload root).result = .ok () →
      ∃ new ys, ev.SlotWritten payload (.element i item st.origin) rest (items[i]?.getD d) new ∧
        Grown items i d new ys ∧
        (ev.set source payload root).Leaves (q.fill (q.value.holding (.seq k item ys))) ∧
        (ev.set source' payload root').Leaves (q'.fill (q'.value.holding (.seq k' item ys)))) ∧
      (i + 1 = UInt64.size → items.length + 1 < UInt64.size → ∃ f c,
        (ev.set source payload root).Agrees (.failed (q.fill c) f) ∧
          (c = q.value ∨ q.value = .absent (.seq k item) ∧ c = .present (.seq k item []))) := by
  constructor
  · intro hbound hok
    obtain ⟨new, hwritten, hvalue⟩ := (set_item_iff hev h hholds hd hbound).1 ⟨hok, rfl⟩
    refine ⟨new, _, hwritten, grown_set items i d new, ⟨hok, hvalue⟩, ?_⟩
    have hwritten' := hwritten.resembles (.element hconverter) htexts
    exact (set_item_iff hev h' hholds' hd hbound).2 ⟨new, hwritten', rfl⟩
  · intro hlast hlength
    exact set_full hev h hholds payload (by omega) (by omega)

end Evaluator

/-! ## A depot -/

namespace Depot

/-- A depot with lines in an open row and in a row that may be missing. -/
def depot : RecordDecl :=
  .ofParts [Shelf.line] "Depot" true
    [.exposed "rows" (.seq .vec (.record "Line")) [], .exposed "shut" Shelf.linesTy []] []

/-- The evaluator for depots. -/
def evaluator : Evaluator := ⟨⟨[Shelf.line, depot], []⟩, .empty⟩

theorem isPlain : evaluator.schema.isPlain = true := by decide

/-- A line with a name and a quantity. -/
def line (name : String) (n : Int) : Value := .record "Line" [.text name, .int .u32 n]

/-- A depot with one line in each of its rows. -/
def stocked : Value :=
  .record "Depot" [.seq .vec (.record "Line") [line "x" 5],
    .present (.seq .boxed (.record "Line") [line "x" 5])]

theorem hasType_stocked : HasType evaluator.schema stocked stocked.typeOf :=
  .of_checks _ _ (by decide)

/-- The step to the open row. -/
def toRows : Step := .member (.field ⟨"rows", 0, .seq .vec (.record "Line"), .empty⟩)

/-- The slot of the open row. -/
def rows : Place stocked := (stocked.atSlot? 0).get rfl

/-- The step to the row that may be missing. -/
def toShut : Step := .member (.field ⟨"shut", 1, Shelf.linesTy, .empty⟩)

/-- The slot of the row that may be missing. -/
def shut : Place stocked := (stocked.atSlot? 1).get rfl

end Depot

set_option maxRecDepth 10000 in
/-- The quantity of a third line is set in the rows of a depot: both get a second line, too.  The
last index is too large for a line. -/
theorem Evaluator.grow_alike_depot :
    Depot.evaluator.Typed ∧
      Depot.evaluator.schema.default? (.record "Line") = some (Depot.line "" 0) ∧
      Depot.evaluator.IndexesSlot "rows[2].qty" Depot.stocked Depot.toRows Depot.rows 2
        [⟨"qty", .name, 8⟩] ∧
      Depot.rows.value.Holds .vec (.record "Line") [Depot.line "x" 5] ∧
      Depot.evaluator.IndexesSlot "shut[2].qty" Depot.stocked Depot.toShut Depot.shut 2
        [⟨"qty", .name, 8⟩] ∧
      Depot.shut.value.Holds .boxed (.record "Line") [Depot.line "x" 5] ∧
      (Depot.evaluator.set "rows[2].qty" (.value (some (.int .u32 7))) Depot.stocked).result =
        .ok () ∧
      (∃ new ys, Depot.evaluator.SlotWritten (.value (some (.int .u32 7)))
          (.element 2 (.record "Line") Depot.toRows.origin) [⟨"qty", .name, 8⟩]
          (Depot.line "" 0) new ∧
        Grown [Depot.line "x" 5] 2 (Depot.line "" 0) new ys ∧
        (Depot.evaluator.set "rows[2].qty" (.value (some (.int .u32 7))) Depot.stocked).Leaves
          (Depot.rows.fill (.seq .vec (.record "Line") ys)) ∧
        (Depot.evaluator.set "shut[2].qty" (.value (some (.int .u32 7))) Depot.stocked).Leaves
          (Depot.shut.fill (.present (.seq .boxed (.record "Line") ys)))) ∧
      ∃ f c, (Depot.evaluator.set "rows[18446744073709551615]"
          (.value (some (Depot.line "y" 1))) Depot.stocked).Agrees (.failed (Depot.rows.fill c) f) ∧
        (c = Depot.rows.value ∨ Depot.rows.value = .absent (.seq .vec (.record "Line")) ∧
          c = .present (.seq .vec (.record "Line") [])) := by
  have htyped : Depot.evaluator.Typed := typed_of_isPlain Depot.isPlain
  have hdefault : Depot.evaluator.schema.default? (.record "Line") = some (Depot.line "" 0) := rfl
  have hrows : Depot.evaluator.IndexesSlot "rows[2].qty" Depot.stocked Depot.toRows Depot.rows 2
      [⟨"qty", .name, 8⟩] :=
    ⟨Depot.hasType_stocked, [⟨"rows", .name, 0⟩], ⟨"2", .bracketed, 5⟩, rfl,
      .last rfl .field rfl, rfl⟩
  have hshut : Depot.evaluator.IndexesSlot "shut[2].qty" Depot.stocked Depot.toShut Depot.shut 2
      [⟨"qty", .name, 8⟩] :=
    ⟨Depot.hasType_stocked, [⟨"shut", .name, 0⟩], ⟨"2", .bracketed, 5⟩, rfl,
      .last rfl .field rfl, rfl⟩
  have hlast : Depot.evaluator.IndexesSlot "rows[18446744073709551615]" Depot.stocked Depot.toRows
      Depot.rows 18446744073709551615 [] :=
    ⟨Depot.hasType_stocked, [⟨"rows", .name, 0⟩], ⟨"18446744073709551615", .bracketed, 5⟩, rfl,
      .last rfl .field rfl, rfl⟩
  have hlist : Depot.rows.value.Holds .vec (.record "Line") [Depot.line "x" 5] := .plain _
  have harray : Depot.shut.value.Holds .boxed (.record "Line") [Depot.line "x" 5] := .present _
  have hok : (Depot.evaluator.set "rows[2].qty" (.value (some (.int .u32 7)))
      Depot.stocked).result = .ok () := rfl
  exact ⟨htyped, hdefault, hrows, hlist, hshut, harray, hok,
    (grow_alike htyped hdefault hrows hlist hshut harray rfl rfl _).1 (by decide) hok,
    (grow_alike htyped hdefault hlast hlist hlast hlist rfl rfl _).2 rfl (by decide)⟩

end ObjectPath
