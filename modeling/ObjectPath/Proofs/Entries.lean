import ObjectPath.Derive.Registration
import ObjectPath.Proofs.Separation

/-!
# Entries of attributes

The attributes that count hold entries, of which there are two kinds: a name, which may be set to a
path, and a tag (`Entry.Spelled`).  `Hold` tells which entries some attributes hold together,
whatever other attributes stand between them.  How the paths and expressions in them are read is left
to the parsers: either they are read where they stand (`Parser.Gives`), or each is well formed by
itself, whatever stands behind it (`Parser.Whole`).

What the attributes give is the fold of their entries, one after the other
(`Enters.readAttributes_eq`), so only the entries and their order count, and not how they are spread
over the attributes.  Attributes that are accepted hold entries (`Enters.exists_hold`).
-/

namespace ObjectPath.Derive

/-- How a parser may give tokens at an input, and leave what is behind them. -/
abbrev ParseRelation : Type := Parser (List Token) → List Token → Input → Input → Prop

/-- An entry of an attribute. -/
inductive Entry
  | word (w : String)
  /-- A name that is set to a path. -/
  | setting (w : String) (path : List Token)
  /-- A name with something else behind it. -/
  | other (w : String) (ts : List Token)
  | tag (expression : List Token)
deriving DecidableEq, Repr

namespace Entry

/-- The setting of a name that is set to a path. -/
def pathSetting? (w : String) : Option Setting :=
  if w = Setting.members.word then some .members
  else if w = Setting.cratePath.word then some .cratePath
  else none

/-- The input starts with an entry.  `R` tells how paths and expressions are given by the
parsers. -/
inductive Spelled (R : ParseRelation) (p : Parsers) : Entry → Input → Input → Prop
  | word {w : String} {i : Input} {ts : List Token} (hi : Token.exposed i.tokens = .word w :: ts)
      (hw : Token.isKeyword w = false) : Spelled R p (.word w) i ⟨ts, i.leftover⟩
  | setting {w : String} {path : List Token} {cs : List Char} {i j : Input} {ts us : List Token}
      (hi : Token.exposed i.tokens = .word w :: ts) (hw : Token.isKeyword w = false)
      (hts : Token.exposed ts = .mark '=' cs :: us) (hpath : R p.path path ⟨us, i.leftover⟩ j) :
      Spelled R p (.setting w path) i j
  | other {w : String} {i : Input} {ts us : List Token}
      (hi : Token.exposed i.tokens = .word w :: (ts ++ us)) (hw : Token.isKeyword w = false)
      (hne : ts ≠ []) (hcomma : ∀ cs vs, Token.exposed (ts ++ us) ≠ .mark ',' cs :: vs)
      (hequals : pathSetting? w ≠ none → ∀ cs vs, Token.exposed (ts ++ us) ≠ .mark '=' cs :: vs) :
      Spelled R p (.other w ts) i ⟨us, i.leftover⟩
  | tag {expression : List Token} {cs : List Char} {i j : Input} {ts : List Token}
      (hi : Token.exposed i.tokens = .mark '@' cs :: ts)
      (hexpression : R p.expression expression ⟨ts, i.leftover⟩ j) :
      Spelled R p (.tag expression) i j

/-- What an entry sets if it is one of an item. -/
def setting? : Entry → Option Setting
  | word w => if w = Setting.default.word then some .default else none
  | setting w _ => pathSetting? w
  | other _ _ | tag _ => none

/-- The path behind the name of a setting. -/
def path : Entry → List Token
  | setting _ path => path
  | word _ | other _ _ | tag _ => []

/-- What an entry sets a setting to. -/
def value? (s : Setting) (e : Entry) : Option (List Token) :=
  if e.setting? = some s then some e.path else none

/-- The entry that leaves a field out. -/
def skip : Entry := word "skip"

/-- The tag that an entry is. -/
def tag? : Entry → Option (List Token)
  | tag e => some e
  | word _ | setting _ _ | other _ _ => none

theorem pathSetting?_eq_some {w : String} {s : Setting} :
    pathSetting? w = some s ↔ w = s.word ∧ s ≠ .default := by
  rw [pathSetting?]
  by_cases hmembers : w = "members"
  · cases s <;> simp [hmembers, Setting.word]
  · by_cases hcrate : w = "crate_path" <;> cases s <;> simp [hmembers, hcrate, Setting.word]

theorem value?_eq_some {s : Setting} {e : Entry} {path : List Token} :
    e.value? s = some path ↔ e.setting? = some s ∧ e.path = path := by
  simp [value?]

/-- The name of the default value sets it, to nothing. -/
theorem value?_default {e : Entry} {path : List Token} :
    e.value? .default = some path ↔ e = word "default" ∧ path = [] := by
  rw [value?_eq_some]
  cases e with
  | word w => by_cases hw : w = "default" <;> simp [setting?, Entry.path, Setting.word, hw, eq_comm]
  | setting w p => simp [setting?, pathSetting?_eq_some]
  | other | tag => simp [setting?]

theorem path_of_default {e : Entry} (h : e.setting? = some .default) : e.path = [] :=
  (value?_default.1 (value?_eq_some.2 ⟨h, rfl⟩)).2

theorem mem_filterMap_tag? {es : List Entry} {t : List Token} :
    t ∈ es.filterMap tag? ↔ .tag t ∈ es := by
  rw [List.mem_filterMap]
  constructor
  · rintro ⟨e, he, ht⟩
    cases e with
    | tag e =>
      cases ht
      exact he
    | word | setting | other => cases ht
  · exact fun h => ⟨_, h, rfl⟩

end Entry

/-- The input is entries separated by commas, and a comma may follow the last one. -/
inductive Lists (R : ParseRelation) (p : Parsers) : Input → List Entry → Input → Prop
  | nil {i : Input} (hi : i.tokens = []) : Lists R p i [] i
  | last {e : Entry} {i j : Input} (h : e.Spelled R p i j) (hj : j.tokens = []) : Lists R p i [e] j
  | cons {e : Entry} {i j k : Input} {cs : List Char} {ts : List Token} {es : List Entry}
      (h : e.Spelled R p i j) (hj : Token.exposed j.tokens = .mark ',' cs :: ts)
      (hs : Lists R p ⟨ts, j.leftover⟩ es k) : Lists R p i (e :: es) k

/-- The entries that attributes hold, one attribute after the other.  No brackets in them hold more
than what is read there. -/
inductive Hold (R : ParseRelation) (p : Parsers) : List Attribute → List Entry → Prop
  | nil : Hold R p [] []
  | foreign {a : Attribute} {as : List Attribute} {es : List Entry} (ha : a.isReflect = false)
      (h : Hold R p as es) : Hold R p (a :: as) es
  | reflect {a : Attribute} {as : List Attribute} {ts : List Token} {es fs : List Entry} {i : Input}
      (ha : a.isReflect = true) (hts : a.arguments = .list ts) (hes : Lists R p ⟨ts, none⟩ es i)
      (hi : i.leftover = none) (h : Hold R p as fs) : Hold R p (a :: as) (es ++ fs)

namespace Parser

/-- What a parser reads where it stands. -/
def Gives (q : Parser (List Token)) (value : List Token) (i j : Input) : Prop :=
  q.run i = .ok (value, j)

/-- What a parser reads as a whole from some tokens by themselves, where these stand in front of
others: there are none, or a comma is the first one. -/
inductive Whole (q : Parser (List Token)) (value : List Token) : Input → Input → Prop
  | last {ts : List Token} (h : q.run ⟨ts, none⟩ = .ok (value, ⟨[], none⟩)) :
      Whole q value ⟨ts, none⟩ ⟨[], none⟩
  | comma {ts us : List Token} {cs : List Char} (hts : Token.Coherent (ts ++ .mark ',' cs :: us))
      (h : q.run ⟨Token.cut ts, none⟩ = .ok (value, ⟨[], none⟩)) :
      Whole q value ⟨ts ++ .mark ',' cs :: us, none⟩ ⟨.mark ',' cs :: us, none⟩

/-- What is well formed by itself is read where it stands. -/
theorem Whole.gives {q : Parser (List Token)} (hq : q.StopsAtCommas) {value : List Token}
    {i j : Input} (h : q.Whole value i j) : q.Gives value i j := by
  cases h with
  | last h => exact h
  | comma hts h => exact hq hts h

end Parser

/-! ## Entries by themselves -/

section Mono

variable {R S : ParseRelation} {p : Parsers}
  (hpath : ∀ {value i j}, R p.path value i j → S p.path value i j)
  (hexpression : ∀ {value i j}, R p.expression value i j → S p.expression value i j)

include hpath hexpression

theorem Entry.Spelled.mono {e : Entry} {i j : Input} (h : e.Spelled R p i j) :
    e.Spelled S p i j := by
  cases h with
  | word hi hw => exact .word hi hw
  | setting hi hw hts h => exact .setting hi hw hts (hpath h)
  | other hi hw hne hcomma hequals => exact .other hi hw hne hcomma hequals
  | tag hi h => exact .tag hi (hexpression h)

theorem Lists.mono {es : List Entry} {i j : Input} (h : Lists R p i es j) : Lists S p i es j := by
  induction h with
  | nil hi => exact .nil hi
  | last h hj => exact .last (h.mono hpath hexpression) hj
  | cons h hj _ ih => exact .cons (h.mono hpath hexpression) hj ih

theorem Hold.mono {as : List Attribute} {es : List Entry} (h : Hold R p as es) :
    Hold S p as es := by
  induction h with
  | nil => exact .nil
  | foreign ha _ ih => exact .foreign ha ih
  | reflect ha hts hes hi _ ih => exact .reflect ha hts (hes.mono hpath hexpression) hi ih

end Mono

section Settings

variable {R : ParseRelation} {p : Parsers}
  {es : List Entry} {w : String} {path : List Token}

end Settings

/-! ## Reading entries -/

/-- What may stand behind an entry. -/
def Input.Ends (j : Input) : Prop :=
  j.tokens = [] ∨ ∃ cs ts, Token.exposed j.tokens = .mark ',' cs :: ts

theorem Input.Ends.not_mark {j : Input} (h : j.Ends) {c : Char} (hc : c ≠ ',') (cs : List Char)
    (ts : List Token) : Token.exposed j.tokens ≠ .mark c cs :: ts := by
  obtain h | ⟨ds, us, h⟩ := h
  · rw [h]
    exact List.cons_ne_nil _ _ |>.symm
  · rw [h]
    intro heq
    cases heq
    exact hc rfl

theorem tokens_ne_nil {ts us : List Token} {t : Token} (h : Token.exposed ts = t :: us) :
    ts ≠ [] := by
  rintro rfl
  cases h

theorem foldlM_cons_ok {ω : Type} {enter : ω → Entry → Except Fault ω} {e : Entry}
    {es : List Entry} {o o' : ω} :
    (e :: es).foldlM enter o = .ok o' ↔
      ∃ o₁, enter o e = .ok o₁ ∧ es.foldlM enter o₁ = .ok o' := by
  rw [List.foldlM_cons]
  cases enter o e <;> simp [bind, Except.bind]

section Fold

variable {ω : Type} {p : Parsers} {entry : ω → Parser ω} {enter : ω → Entry → Except Fault ω}
  {as : List Attribute} {es : List Entry} {i j : Input} {o o' : ω}

/-- Entries are read one by one as they are entered, and nothing else is accepted. -/
structure Enters (p : Parsers) (entry : ω → Parser ω) (enter : ω → Entry → Except Fault ω) :
    Prop where
  spelled : ∀ {e i j}, e.Spelled Parser.Gives p i j → j.Ends → ∀ o,
    Parser.entries entry o i = (enter o e).bind fun o => Parser.behindEntry entry o j
  accepted : ∀ {o i o' j}, (entry o).run i = .ok (o', j) →
    ∃ e, e.Spelled Parser.Gives p i j ∧ enter o e = .ok o'

namespace Enters

variable (henters : Enters p entry enter)

include henters

/-- Entries are read as the fold of them. -/
theorem entries_eq (h : Lists Parser.Gives p i es j) (o : ω) :
    Parser.entries entry o i = (es.foldlM enter o).map fun o => (o, j) := by
  induction h generalizing o with
  | nil hi => exact Parser.entries_of_isEmpty hi
  | @last e i j h hj =>
    have hend : ∀ o, Parser.behindEntry entry o j = .ok (o, j) :=
      fun o => Parser.behindEntry_of_isEmpty hj
    rw [henters.spelled h (.inl hj), List.foldlM_cons]
    simp only [hend]
    cases enter o e <;> rfl
  | @cons e i j k cs ts es h hj hs ih =>
    have hbehind : ∀ o, Parser.behindEntry entry o j = Parser.entries entry o ⟨ts, j.leftover⟩ :=
      fun o => Parser.behindEntry_of_comma hj
    rw [henters.spelled h (.inr ⟨cs, ts, hj⟩), List.foldlM_cons]
    simp only [hbehind, ih]
    cases enter o e <;> rfl

/-- Attributes are read as the fold of their entries. -/
theorem readAttributes_eq (h : Hold Parser.Gives p as es) (o : ω) :
    readAttributes entry o as = es.foldlM enter o := by
  induction h generalizing o with
  | nil => rfl
  | foreign ha _ ih => simp only [readAttributes, ha, Bool.false_eq_true, if_false, ih]
  | @reflect a as ts es fs i ha hts hes hi _ ih =>
    have hentries : a.entries = .ok ts := by rw [Attribute.entries, hts]
    have harguments : Parser.arguments entry o ts = es.foldlM enter o := by
      rw [Parser.arguments, henters.entries_eq hes]
      cases es.foldlM enter o with
      | error f => rfl
      | ok o => simp only [Except.map, hi]
    calc readAttributes entry o (a :: as)
      _ = (Parser.arguments entry o ts).bind fun o => readAttributes entry o as := by
          simp only [readAttributes, ha, if_true, hentries]
          rfl
      _ = (es.foldlM enter o).bind fun o => fs.foldlM enter o := by
          rw [harguments, funext ih]
      _ = (es ++ fs).foldlM enter o := by
          rw [List.foldlM_append]
          rfl

end Enters

end Fold

/-! ## Options of an item -/

namespace ItemOptions

variable {p : Parsers} {o : ItemOptions} {e : Entry} {i j : Input} {es : List Entry}

/-- What a name gives that is set to nothing. -/
def named (o : ItemOptions) (w : String) : Except Fault ItemOptions :=
  if w = Setting.default.word then
    if o.given .default then .error (.duplicate .default) else .ok (o.put .default [])
  else if Entry.pathSetting? w ≠ none then .error (.missing '=')
  else .error (if w = "skip" then .skipOnItem else .itemEntry)

/-- The options with a further entry. -/
def enter (o : ItemOptions) : Entry → Except Fault ItemOptions
  | .tag _ => .error .tagOnItem
  | .word w => o.named w
  | .setting w path =>
    match Entry.pathSetting? w with
    | some s => if o.given s then .error (.duplicate s) else .ok (o.put s path)
    | none => (o.named w).bind fun _ => .error (.missing ',')
  | .other w _ => (o.named w).bind fun _ => .error (.missing ',')

/-- Behind the name of a setting a path is read, which must not be missing; any other name gives
what it gives by itself. -/
theorem rest_cases (p : Parsers) (o : ItemOptions) (w : String) :
    (∃ s, Entry.pathSetting? w = some s ∧ o.rest p w = o.set p s ∧
        o.named w = .error (.missing '=')) ∨
      Entry.pathSetting? w = none ∧
        ∀ i, (o.rest p w).run i = (o.named w).map fun o => (o, i) := by
  unfold rest named Entry.pathSetting?
  by_cases hdefault : w = Setting.default.word
  · cases hgiven : o.given .default <;> simp [hdefault, Setting.word, Except.map]
  · by_cases hmembers : w = Setting.members.word
    · simp [hmembers, Setting.word]
    · by_cases hcrate : w = Setting.cratePath.word
      · simp [hcrate, Setting.word]
      · simp only [hdefault, hmembers, hcrate, if_false]
        split <;> simp [Except.map]

section Run

variable {w : String} {cs : List Char} {ts : List Token} {s : Setting}

theorem run_entry_word (hi : Token.exposed i.tokens = .word w :: ts)
    (hw : Token.isKeyword w = false) :
    (entry p o).run i = (o.rest p w).run ⟨ts, i.leftover⟩ := by
  rw [entry, Parser.run_bind, Parser.bind_of_ok (Parser.run_shows_of_word hi)]
  simp only [Bool.false_eq_true, if_false]
  rw [Parser.run_bind, Parser.bind_of_ok (Parser.run_name hi hw)]

theorem run_entry_tag (hi : Token.exposed i.tokens = .mark '@' cs :: ts) :
    (entry p o).run i = .error .tagOnItem := by
  rw [entry, Parser.run_bind, Parser.bind_of_ok (Parser.run_shows hi)]
  rfl

theorem run_set (hi : Token.exposed i.tokens = .mark '=' cs :: ts) :
    (o.set p s).run i = if o.given s then .error (.duplicate s)
      else (p.path.run ⟨ts, i.leftover⟩).map fun x => (o.put s x.1, x.2) := by
  rw [set, Parser.run_bind, Parser.bind_of_ok (Parser.run_mark hi)]
  split
  · rfl
  · rw [Parser.run_bind]
    cases p.path.run ⟨ts, i.leftover⟩ <;> rfl

theorem run_set_of_ne (hi : ∀ cs ts, Token.exposed i.tokens ≠ .mark '=' cs :: ts) :
    (o.set p s).run i = .error (.missing '=') := by
  rw [set, Parser.run_bind, Parser.bind_of_error (Parser.run_mark_of_ne hi)]

/-- A setting is set to a path that is read behind its `=`. -/
theorem run_set_ok {o' : ItemOptions} (h : (o.set p s).run i = .ok (o', j)) :
    ∃ cs ts path, Token.exposed i.tokens = .mark '=' cs :: ts ∧ o.given s = false ∧
      p.path.run ⟨ts, i.leftover⟩ = .ok (path, j) ∧ o.put s path = o' := by
  by_cases hi : ∃ cs ts, Token.exposed i.tokens = .mark '=' cs :: ts
  · obtain ⟨cs, ts, hi⟩ := hi
    rw [run_set hi] at h
    split at h
    · cases h
    · next hgiven =>
      cases hpath : p.path.run ⟨ts, i.leftover⟩ with
      | error f => rw [hpath] at h; cases h
      | ok x =>
        rw [hpath] at h
        cases h
        exact ⟨cs, ts, x.1, hi, by simpa using hgiven, hpath, rfl⟩
  · rw [run_set_of_ne fun cs ts hcs => hi ⟨cs, ts, hcs⟩] at h
    cases h

end Run

/-- An entry is read as it is entered.  A name in front of something else than a comma is read by
itself, and the comma is found missing. -/
theorem entries_spelled (h : e.Spelled Parser.Gives p i j) (hj : j.Ends) (o : ItemOptions) :
    Parser.entries (entry p) o i = (o.enter e).bind fun o => Parser.behindEntry (entry p) o j := by
  cases h with
  | @word w i ts hi hw =>
    rw [Parser.entries_eq (tokens_ne_nil hi), run_entry_word hi hw, enter]
    obtain ⟨s, -, hs, hnamed⟩ | ⟨-, hrest⟩ := o.rest_cases p w
    · rw [hs, hnamed, run_set_of_ne (hj.not_mark (by decide))]
      rfl
    · rw [hrest]
      cases o.named w <;> rfl
  | @setting w path cs i j ts us hi hw hts hpath =>
    rw [Parser.entries_eq (tokens_ne_nil hi), run_entry_word hi hw, enter]
    obtain ⟨s, hsetting, hs, -⟩ | ⟨hsetting, hrest⟩ := o.rest_cases p w
    · rw [hs, hsetting, run_set hts]
      dsimp only
      split
      · rfl
      · rw [show p.path.run _ = _ from hpath]
        rfl
    · have hmissing (o : ItemOptions) :
          Parser.behindEntry (entry p) o ⟨ts, i.leftover⟩ = .error (.missing ',') :=
        Parser.behindEntry_of_ne (tokens_ne_nil hts) fun ds vs heq => by
          rw [hts] at heq
          cases heq
      rw [hrest, hsetting]
      cases o.named w with
      | error f => rfl
      | ok o => exact hmissing o
  | @other w i ts us hi hw hne hcomma hequals =>
    rw [Parser.entries_eq (tokens_ne_nil hi), run_entry_word hi hw, enter]
    obtain ⟨s, hsetting, hs, hnamed⟩ | ⟨-, hrest⟩ := o.rest_cases p w
    · rw [hs, hnamed, run_set_of_ne (hequals (by simp [hsetting]))]
      rfl
    · have hmissing (o : ItemOptions) :
          Parser.behindEntry (entry p) o ⟨ts ++ us, i.leftover⟩ = .error (.missing ',') :=
        Parser.behindEntry_of_ne (by simp [hne]) hcomma
      rw [hrest]
      cases o.named w with
      | error f => rfl
      | ok o => exact hmissing o
  | tag hi =>
    rw [Parser.entries_eq (tokens_ne_nil hi), run_entry_tag hi]
    rfl

/-- What is accepted is a name, or one that is set to a path. -/
theorem exists_spelled {o' : ItemOptions} (h : (entry p o).run i = .ok (o', j)) :
    ∃ e, e.Spelled Parser.Gives p i j ∧ o.enter e = .ok o' := by
  rw [entry, Parser.run_bind] at h
  obtain ⟨hshows, -⟩ | hshows := Parser.run_shows_ok '@' i
  · rw [Parser.bind_of_ok hshows] at h
    cases h
  · rw [Parser.bind_of_ok hshows] at h
    simp only [Bool.false_eq_true, if_false, Parser.run_bind] at h
    obtain ⟨⟨w, ts, l⟩, hname, h⟩ := Parser.bind_ok h
    obtain ⟨hi, hw, rfl⟩ := Parser.run_name_ok hname
    obtain ⟨s, hsetting, hs, -⟩ | ⟨-, hrest⟩ := o.rest_cases p w
    · rw [hs] at h
      obtain ⟨cs, us, path, hts, hgiven, hpath, rfl⟩ := run_set_ok h
      refine ⟨.setting w path, .setting hi hw hts hpath, ?_⟩
      simp only [enter, hsetting, hgiven, Bool.false_eq_true, if_false]
    · rw [hrest] at h
      cases hnamed : o.named w with
      | error f => rw [hnamed] at h; cases h
      | ok o₁ =>
        rw [hnamed] at h
        cases h
        exact ⟨.word w, .word hi hw, hnamed⟩

theorem enters (p : Parsers) : Enters p (entry p) enter :=
  ⟨entries_spelled, exists_spelled⟩

/-! What the fold gives. -/

/-- What a setting is set to. -/
def get (o : ItemOptions) : Setting → Option (List Token)
  | .default => if o.default then some [] else none
  | .members => o.members
  | .cratePath => o.cratePath

theorem given_eq (o : ItemOptions) (s : Setting) : o.given s = (o.get s).isSome := by
  cases s with
  | default => cases h : o.default <;> simp [given, get, h]
  | members | cratePath => rfl

/-- An entry is accepted if it is that of a setting which is not given yet. -/
theorem enter_ok_iff {o' : ItemOptions} :
    o.enter e = .ok o' ↔
      ∃ s, e.setting? = some s ∧ o.given s = false ∧ o.put s e.path = o' := by
  cases e with
  | tag e => simp [enter, Entry.setting?]
  | word w =>
    rw [enter, named, Entry.setting?, Entry.path]
    split
    · cases hgiven : o.given .default <;> simp [hgiven]
    · split <;> simp
  | setting w path =>
    rw [enter, Entry.setting?, Entry.path]
    cases hsetting : Entry.pathSetting? w with
    | some s => cases hgiven : o.given s <;> simp [hgiven]
    | none => cases o.named w <;> simp [Except.bind]
  | other w ts =>
    rw [enter, Entry.setting?]
    cases o.named w <;> simp [Except.bind]

theorem given_put (o : ItemOptions) (s s' : Setting) (p : List Token) :
    (o.put s p).given s' = (decide (s' = s) || o.given s') := by
  cases s <;> cases s' <;> rfl

theorem get_put {s : Setting} {p : List Token} (h : s = .default → p = []) (s' : Setting) :
    (o.put s p).get s' = if s' = s then some p else o.get s' := by
  cases s with
  | default =>
    rw [h rfl]
    cases s' <;> rfl
  | members | cratePath => cases s' <;> rfl

/-- Entries are accepted if each is that of a setting, and no setting is given twice. -/
theorem foldlM_enter_ok_iff :
    (∃ o', es.foldlM enter o = .ok o') ↔
      (∀ e ∈ es, ∃ s, e.setting? = some s ∧ o.given s = false) ∧
        (es.filterMap Entry.setting?).Nodup := by
  induction es generalizing o with
  | nil => simp [pure, Except.pure]
  | cons e es ih =>
    constructor
    · rintro ⟨o', h⟩
      obtain ⟨o₁, he, h⟩ := foldlM_cons_ok.1 h
      obtain ⟨s, hs, hgiven, rfl⟩ := enter_ok_iff.1 he
      obtain ⟨hes, hnodup⟩ := ih.1 ⟨o', h⟩
      simp only [given_put, Bool.or_eq_false_iff, decide_eq_false_iff_not] at hes
      refine ⟨List.forall_mem_cons.2 ⟨⟨s, hs, hgiven⟩, fun e' he' => ?_⟩, ?_⟩
      · obtain ⟨s', hs', -, hgiven'⟩ := hes e' he'
        exact ⟨s', hs', hgiven'⟩
      · rw [List.filterMap_cons_some hs, List.nodup_cons]
        refine ⟨fun hmem => ?_, hnodup⟩
        obtain ⟨e', he', hs'⟩ := List.mem_filterMap.1 hmem
        obtain ⟨s'', hs'', hne, -⟩ := hes e' he'
        rw [hs'] at hs''
        exact hne (Option.some.inj hs'').symm
    · rintro ⟨hes, hnodup⟩
      obtain ⟨⟨s, hs, hgiven⟩, hes⟩ := List.forall_mem_cons.1 hes
      rw [List.filterMap_cons_some hs, List.nodup_cons] at hnodup
      have hrest : ∀ e' ∈ es, ∃ s', e'.setting? = some s' ∧ (o.put s e.path).given s' = false := by
        intro e' he'
        obtain ⟨s', hs', hgiven'⟩ := hes e' he'
        have hne : s' ≠ s := fun h => hnodup.1 (List.mem_filterMap.2 ⟨e', he', h ▸ hs'⟩)
        exact ⟨s', hs', by simp [given_put, hne, hgiven']⟩
      obtain ⟨o', ho'⟩ := ih.2 ⟨hrest, hnodup.2⟩
      exact ⟨o', foldlM_cons_ok.2 ⟨_, enter_ok_iff.2 ⟨s, hs, hgiven, rfl⟩, ho'⟩⟩

/-- A setting is what it was, or else what the entries set it to. -/
theorem get_of_foldlM_enter {o' : ItemOptions} (h : es.foldlM enter o = .ok o') (s : Setting) :
    o'.get s = (o.get s).or (es.findSome? (Entry.value? s)) := by
  induction es generalizing o with
  | nil =>
    cases h
    simp
  | cons e es ih =>
    obtain ⟨o₁, he, h⟩ := foldlM_cons_ok.1 h
    obtain ⟨s', hs', hgiven, rfl⟩ := enter_ok_iff.1 he
    rw [given_eq, Option.isSome_eq_false_iff, Option.isNone_iff_eq_none] at hgiven
    rw [ih h, get_put fun hdefault => Entry.path_of_default (hdefault ▸ hs'), List.findSome?_cons]
    by_cases hss : s = s'
    · subst hss
      simp [Entry.value?, hs', hgiven]
    · have hne : ¬s' = s := fun h => hss h.symm
      simp [Entry.value?, hs', hss, hne]

/-- What entries give that are accepted. -/
def ofEntries (es : List Entry) : ItemOptions :=
  ⟨(es.findSome? (Entry.value? .default)).isSome, es.findSome? (Entry.value? .members),
    es.findSome? (Entry.value? .cratePath)⟩

theorem eq_ofEntries {o' : ItemOptions} (h : es.foldlM enter empty = .ok o') :
    o' = ofEntries es := by
  have hget := get_of_foldlM_enter h
  obtain ⟨d, m, c⟩ := o'
  have hd : d = (es.findSome? (Entry.value? .default)).isSome := by
    have hgiven := congrArg Option.isSome (hget .default)
    rwa [← given_eq] at hgiven
  have hm : m = es.findSome? (Entry.value? .members) := hget .members
  have hc : c = es.findSome? (Entry.value? .cratePath) := hget .cratePath
  rw [hd, hm, hc]
  rfl

end ItemOptions

/-! ## Options of a field -/

namespace FieldOptions

variable {p : Parsers} {o : FieldOptions} {e : Entry} {i j : Input} {es : List Entry}

/-- The options with a further entry. -/
def enter (o : FieldOptions) : Entry → Except Fault FieldOptions
  | .tag e => .ok (o.addTag e)
  | .word w => if w = "skip" then .ok { o with skip := true } else .error .fieldEntry
  | .setting w _ | .other w _ => .error (if w = "skip" then .missing ',' else .fieldEntry)

section Run

variable {w : String} {cs : List Char} {ts : List Token}

theorem run_entry_word (hi : Token.exposed i.tokens = .word w :: ts)
    (hw : Token.isKeyword w = false) :
    (entry p o).run i =
      if w = "skip" then .ok ({ o with skip := true }, ⟨ts, i.leftover⟩)
      else .error .fieldEntry := by
  rw [entry, Parser.run_bind, Parser.bind_of_ok (Parser.run_shows_of_word hi)]
  simp only [Bool.false_eq_true, if_false]
  rw [Parser.run_bind, Parser.bind_of_ok (Parser.run_name hi hw)]
  split <;> rfl

theorem run_entry_tag (hi : Token.exposed i.tokens = .mark '@' cs :: ts) :
    (entry p o).run i =
      (p.expression.run ⟨ts, i.leftover⟩).map fun x => (o.addTag x.1, x.2) := by
  rw [entry, Parser.run_bind, Parser.bind_of_ok (Parser.run_shows hi)]
  simp only [if_true]
  rw [Parser.run_bind, Parser.bind_of_ok (Parser.run_mark hi), Parser.run_bind]
  cases p.expression.run ⟨ts, i.leftover⟩ <;> rfl

end Run

/-- A name in front of something else than a comma is no entry: the comma is missing behind `skip`,
and any other name is at fault. -/
theorem entries_word_of_ne {w : String} {ts : List Token}
    (hi : Token.exposed i.tokens = .word w :: ts) (hw : Token.isKeyword w = false) (hts : ts ≠ [])
    (hcomma : ∀ cs us, Token.exposed ts ≠ .mark ',' cs :: us) :
    Parser.entries (entry p) o i = .error (if w = "skip" then .missing ',' else .fieldEntry) := by
  rw [Parser.entries_eq (tokens_ne_nil hi), run_entry_word hi hw]
  split
  · exact Parser.behindEntry_of_ne hts hcomma
  · rfl

/-- An entry is read as it is entered. -/
theorem entries_spelled (h : e.Spelled Parser.Gives p i j) (_ : j.Ends) (o : FieldOptions) :
    Parser.entries (entry p) o i = (o.enter e).bind fun o => Parser.behindEntry (entry p) o j := by
  cases h with
  | @word w i ts hi hw =>
    rw [Parser.entries_eq (tokens_ne_nil hi), run_entry_word hi hw, enter]
    split <;> rfl
  | @setting w path cs i j ts us hi hw hts =>
    refine entries_word_of_ne hi hw (tokens_ne_nil hts) fun ds vs heq => ?_
    rw [hts] at heq
    cases heq
  | other hi hw hne hcomma => exact entries_word_of_ne hi hw (by simp [hne]) hcomma
  | tag hi hexpression =>
    rw [Parser.entries_eq (tokens_ne_nil hi), run_entry_tag hi,
      show p.expression.run _ = _ from hexpression]
    rfl

/-- What is accepted is `skip` or a tag. -/
theorem exists_spelled {o' : FieldOptions} (h : (entry p o).run i = .ok (o', j)) :
    ∃ e, e.Spelled Parser.Gives p i j ∧ o.enter e = .ok o' := by
  obtain ⟨-, cs, ts, hi⟩ | hshows := Parser.run_shows_ok '@' i
  · rw [run_entry_tag hi] at h
    cases hexpression : p.expression.run ⟨ts, i.leftover⟩ with
    | error f => rw [hexpression] at h; cases h
    | ok x =>
      rw [hexpression] at h
      cases h
      exact ⟨.tag x.1, .tag hi hexpression, rfl⟩
  · rw [entry, Parser.run_bind, Parser.bind_of_ok hshows] at h
    simp only [Bool.false_eq_true, if_false, Parser.run_bind] at h
    obtain ⟨⟨w, ts, l⟩, hname, h⟩ := Parser.bind_ok h
    obtain ⟨hi, hw, rfl⟩ := Parser.run_name_ok hname
    dsimp only at h
    split at h
    · next hskip =>
      cases h
      exact ⟨.word w, .word hi hw, if_pos hskip⟩
    · cases h

theorem enters (p : Parsers) : Enters p (entry p) enter :=
  ⟨entries_spelled, exists_spelled⟩

/-- An entry of a field that leaves it out or adds a tag. -/
def Admits (e : Entry) : Prop := e = .skip ∨ ∃ tag, e = .tag tag

/-- What the entries add. -/
theorem foldlM_enter (h : ∀ e ∈ es, Admits e) :
    es.foldlM enter o = .ok ⟨o.skip || decide (.skip ∈ es), o.tags ++ es.filterMap Entry.tag?⟩ := by
  induction es generalizing o with
  | nil => simp [pure, Except.pure]
  | cons e es ih =>
    obtain ⟨he, hes⟩ := List.forall_mem_cons.1 h
    refine foldlM_cons_ok.2 ?_
    obtain rfl | ⟨tag, rfl⟩ := he
    · have hnone : Entry.skip.tag? = none := rfl
      exact ⟨{ o with skip := true }, rfl, by simp [ih hes, List.filterMap_cons_none hnone]⟩
    · have hne : Entry.skip ≠ .tag tag := by simp [Entry.skip]
      have hsome : (Entry.tag tag).tag? = some tag := rfl
      exact ⟨o.addTag tag, rfl, by simp [ih hes, addTag, List.filterMap_cons_some hsome, hne]⟩

theorem admits_of_enter {o' : FieldOptions} (h : o.enter e = .ok o') : Admits e := by
  cases e with
  | word w =>
    by_cases hskip : w = "skip"
    · exact .inl (by rw [hskip, Entry.skip])
    · simp [enter, hskip] at h
  | setting | other => cases h
  | tag tag => exact .inr ⟨tag, rfl⟩

theorem admits_of_foldlM_enter {o' : FieldOptions} (h : es.foldlM enter o = .ok o') :
    ∀ e ∈ es, Admits e := by
  induction es generalizing o with
  | nil => simp
  | cons e es ih =>
    obtain ⟨o₁, he, h⟩ := foldlM_cons_ok.1 h
    exact List.forall_mem_cons.2 ⟨admits_of_enter he, ih h⟩

end FieldOptions

end ObjectPath.Derive
