import ObjectPath.Proofs.Beginnings

/-!
# Offsets of syntax errors

Characters are viable if they can be extended to an expression.  The scan keeps to them: it gets
over some characters if and only if they are viable (`viable_iff`), since in every state that is
reached there is a way to the end of an expression (`State.Sound.completes`).  So a step fails behind
the longest viable beginning, and the error points there, but for empty brackets, which are reported
where they open (`ReportedBehind`).  An expression that merely breaks off is reported where
its tree is left open (`reach_unfinished`).
-/

namespace ObjectPath.Expression

variable {o b : Nat} {c q : Char} {cs ds p text : List Char} {as : List Atom} {s t : State}
  {done : Option Atom} {e : SyntaxError} {source : String}

/-! ## The state behind some characters -/

/-- The state of a scan behind some characters. -/
def reach (offset : Nat) (s : State) : List Char → Except SyntaxError State
  | [] => .ok s
  | c :: cs =>
    match step offset c s with
    | .error e => .error e
    | .ok (t, _) => reach (offset + c.utf8Size) t cs

theorem reach_cons (h : step o c s = .ok (t, done)) (cs : List Char) :
    reach o s (c :: cs) = reach (o + c.utf8Size) t cs := by
  rw [reach, h]

theorem reach_cons_eq_ok_iff : reach o s (c :: cs) = .ok t ↔
    ∃ s' done, step o c s = .ok (s', done) ∧ reach (o + c.utf8Size) s' cs = .ok t := by
  constructor
  · intro h
    cases hstep : step o c s with
    | error e => simp [reach, hstep] at h
    | ok r => exact ⟨r.1, r.2, rfl, by rwa [reach_cons hstep] at h⟩
  · rintro ⟨s', done, hstep, h⟩
    rwa [reach_cons hstep]

theorem reach_append (o : Nat) (s : State) (cs ds : List Char) : reach o s (cs ++ ds) =
    (reach o s cs).bind fun t => reach (o + byteLength cs) t ds := by
  induction cs generalizing o s with
  | nil => rfl
  | cons c cs ih =>
    rw [List.cons_append, reach, reach, byteLength_cons, ← Nat.add_assoc]
    cases step o c s with
    | error e => rfl
    | ok r => exact ih _ _

theorem reach_append_of_ok (h : reach o s cs = .ok t) (ds : List Char) :
    reach o s (cs ++ ds) = reach (o + byteLength cs) t ds := by
  rw [reach_append, h]
  rfl

theorem exists_reach_of_append (h : reach o s (cs ++ ds) = .ok t) :
    ∃ s', reach o s cs = .ok s' ∧ reach (o + byteLength cs) s' ds = .ok t := by
  rw [reach_append] at h
  cases hcs : reach o s cs with
  | error e => rw [hcs] at h; cases h
  | ok s' => exact ⟨s', rfl, by rwa [hcs] at h⟩

/-- Where the scan of some characters fails, it fails at one of them. -/
theorem exists_step_of_reach_error (h : reach o s cs = .error e) :
    ∃ p c rest t, cs = p ++ c :: rest ∧ reach o s p = .ok t ∧
      step (o + byteLength p) c t = .error e := by
  induction cs generalizing o s with
  | nil => cases h
  | cons c cs ih =>
    cases hstep : step o c s with
    | error e' =>
      rw [reach, hstep] at h
      cases h
      exact ⟨[], c, cs, s, rfl, rfl, hstep⟩
    | ok r =>
      rw [reach_cons hstep] at h
      obtain ⟨p, d, rest, t, rfl, hp, hd⟩ := ih h
      refine ⟨c :: p, d, rest, t, rfl, by rw [reach_cons hstep, hp], ?_⟩
      rwa [byteLength_cons, ← Nat.add_assoc]

/-- Behind a whole segment: an expression may end here. -/
def State.Ended : State → Prop
  | .name _ _ | .closed => True
  | _ => False

theorem finish_ok_iff : (∃ as, finish o s = .ok as) ↔ s.Ended := by
  cases s <;> simp [finish, State.Ended]

/-- A scan succeeds if it gets over the characters and ends behind a segment. -/
theorem scan_ok_iff : (∃ as, scan o s cs = .ok as) ↔ ∃ t, reach o s cs = .ok t ∧ t.Ended := by
  induction cs generalizing o s with
  | nil => simp [scan, reach, finish_ok_iff]
  | cons c cs ih =>
    rw [scan, reach]
    cases step o c s with
    | error e => simp
    | ok r =>
      simp only [← ih]
      cases scan (o + c.utf8Size) r.1 cs <;> simp

/-- A scan fails on the way or at the end. -/
theorem scan_eq_error_iff : scan o s cs = .error e ↔
    reach o s cs = .error e ∨
      ∃ t, reach o s cs = .ok t ∧ finish (o + byteLength cs) t = .error e := by
  induction cs generalizing o s with
  | nil => simp [scan, reach]
  | cons c cs ih =>
    rw [scan, reach, byteLength_cons, ← Nat.add_assoc]
    cases step o c s with
    | error e' => simp
    | ok r =>
      simp only [← ih]
      cases scan (o + c.utf8Size) r.1 cs <;> simp

/-! ## Viable beginnings -/

/-- Some characters can be extended to an expression. -/
def Viable (cs : List Char) : Prop := ∃ more as, atoms (String.ofList (cs ++ more)) = .ok as

/-- The quote of a literal is no backslash. -/
def State.Sound : State → Prop
  | .quoted _ q _ _ | .escaped _ q _ _ _ => q ≠ '\\'
  | _ => True

theorem State.Sound.step (hs : s.Sound) (h : step o c s = .ok (t, done)) : t.Sound := by
  cases s <;> grind [Expression.step, State.Sound, quote_ne_backslash]

/-- What completes an expression in a state. -/
def State.completion : State → List Char
  | .start | .segment => ['a']
  | .name _ _ | .closed => []
  | .opened _ => ['a', ']']
  | .plain _ _ | .filled _ _ => [']']
  | .quoted _ q _ _ => [q, ']']
  | .escaped _ q _ _ _ => ['a', q, ']']

theorem State.Sound.completes (hs : s.Sound) (o : Nat) : ∃ as, scan o s s.completion = .ok as := by
  cases s with
  | start | segment | name | opened | plain | filled | closed => exact ⟨_, rfl⟩
  | quoted b q offset text =>
    simp [completion, scan, Expression.step, show q ≠ '\\' from hs, finish]
  | escaped b q offset text slash =>
    simp [completion, scan, Expression.step, show q ≠ '\\' from hs, finish]

theorem State.Sound.reach (hs : s.Sound) (h : reach o s cs = .ok t) : t.Sound := by
  induction cs generalizing o s with
  | nil => cases h; exact hs
  | cons c cs ih =>
    obtain ⟨s', done, hstep, h⟩ := reach_cons_eq_ok_iff.1 h
    exact ih (hs.step hstep) h

/-- The scan gets over some characters if and only if they are viable. -/
theorem viable_iff : Viable cs ↔ ∃ t, reach 0 .start cs = .ok t := by
  constructor
  · rintro ⟨more, as, h⟩
    rw [atoms, String.toList_ofList] at h
    obtain ⟨t, ht, -⟩ := scan_ok_iff.1 ⟨as, h⟩
    obtain ⟨s, hs, -⟩ := exists_reach_of_append ht
    exact ⟨s, hs⟩
  · rintro ⟨t, ht⟩
    have hsound : t.Sound := State.Sound.reach (s := .start) trivial ht
    obtain ⟨u, hu, hended⟩ := scan_ok_iff.1 (hsound.completes (0 + byteLength cs))
    rw [← reach_append_of_ok ht] at hu
    obtain ⟨as, has⟩ := scan_ok_iff.2 ⟨u, hu, hended⟩
    exact ⟨t.completion, as, by rw [atoms, String.toList_ofList, has]⟩

/-- The longest viable beginning of some characters. -/
structure Longest (p cs : List Char) : Prop where
  begins : p <+: cs
  viable : Viable p
  le : ∀ q, q <+: cs → Viable q → q.length ≤ p.length

theorem Longest.unique {q : List Char} (hp : Longest p cs) (hq : Longest q cs) : p = q := by
  have hle : p.length ≤ q.length := hq.le p hp.begins hp.viable
  have hge : q.length ≤ p.length := hp.le q hq.begins hq.viable
  exact (List.prefix_of_prefix_length_le hp.begins hq.begins hle).eq_of_length
    (Nat.le_antisymm hle hge)

theorem longest_self (h : Viable cs) : Longest cs cs :=
  ⟨List.prefix_rfl, h, fun _ hq _ => hq.length_le⟩

/-- The characters before the one at which the scan fails are the longest viable beginning. -/
theorem longest_of_step_error (hp : reach 0 .start p = .ok s)
    (hc : step (0 + byteLength p) c s = .error e) : Longest p (p ++ c :: cs) where
  begins := List.prefix_append p _
  viable := viable_iff.2 ⟨s, hp⟩
  le q hq hviable := by
    refine Nat.le_of_not_lt fun hlt => ?_
    have hnext : p ++ [c] <+: q := by
      refine List.prefix_of_prefix_length_le ⟨cs, ?_⟩ hq ?_
      · rw [List.append_assoc, List.singleton_append]
      · rw [List.length_append, List.length_singleton]
        omega
    obtain ⟨ds, rfl⟩ := hnext
    obtain ⟨t, ht⟩ := viable_iff.1 hviable
    rw [List.append_assoc, reach_append_of_ok hp, List.singleton_append, reach, hc] at ht
    cases ht

/-! ## Errors on the way -/

theorem reach_snoc (h : reach o s (cs ++ [c]) = .ok t) :
    ∃ s' done, reach o s cs = .ok s' ∧ step (o + byteLength cs) c s' = .ok (t, done) := by
  obtain ⟨s', hs', hlast⟩ := exists_reach_of_append h
  obtain ⟨t', done, hstep, ht⟩ := reach_cons_eq_ok_iff.1 hlast
  cases ht
  exact ⟨s', done, hs', hstep⟩

/-- A state behind an open bracket is one behind a bracket that was read last. -/
theorem eq_append_of_reach_opened (h : reach 0 .start p = .ok (.opened b)) :
    ∃ q, p = q ++ ['['] ∧ b = byteLength q := by
  rcases List.eq_nil_or_concat p with rfl | ⟨q, c, rfl⟩
  · cases h
  · rw [List.concat_eq_append] at h
    obtain ⟨s, done, -, hstep⟩ := reach_snoc h
    have hopen : c = '[' ∧ b = 0 + byteLength q := by
      cases s <;> grind [step]
    obtain ⟨rfl, rfl⟩ := hopen
    exact ⟨q, List.concat_eq_append, Nat.zero_add _⟩

/-- No step on a closing bracket fails behind an opening one, unless that is a bracket. -/
theorem opened_of_step_error {q : List Char} (hp : reach 0 .start (q ++ ['[']) = .ok s)
    (hc : step o ']' s = .error e) : ∃ b, s = .opened b := by
  obtain ⟨s', done, -, hstep⟩ := reach_snoc hp
  have hcases : (∃ b, s = .opened b) ∨ ∃ b q first text, s = .quoted b q first text := by
    cases s' <;> grind [step]
  rcases hcases with hopened | ⟨b, q, first, text, rfl⟩
  · exact hopened
  · grind [step]

/-- A step fails at its character, but for a bracket that closes behind an open one. -/
theorem step_error (h : step o c s = .error e) :
    e.offset = o ∧ (∀ b, s = .opened b → c ≠ ']') ∨ c = ']' ∧ s = .opened e.offset := by
  cases s <;> grind [step]

/-- An error is reported at a character that stands behind some others.  If the character closes
empty brackets, it is reported where they open. -/
def ReportedBehind (p : List Char) (c : Char) (e : SyntaxError) : Prop :=
  if c = ']' ∧ p.getLast? = some '[' then e.offset + 1 = byteLength p else e.offset = byteLength p

theorem reportedBehind_of_step_error (hp : reach 0 .start p = .ok s)
    (hc : step (0 + byteLength p) c s = .error e) : ReportedBehind p c e := by
  rcases step_error hc with ⟨hoffset, hopened⟩ | ⟨rfl, rfl⟩
  · rw [ReportedBehind, if_neg, hoffset, Nat.zero_add]
    rintro ⟨rfl, hlast⟩
    obtain ⟨q, rfl⟩ := List.getLast?_eq_some_iff.1 hlast
    obtain ⟨b, hb⟩ := opened_of_step_error hp hc
    exact hopened b hb rfl
  · obtain ⟨q, rfl, hb⟩ := eq_append_of_reach_opened hp
    rw [ReportedBehind, if_pos ⟨rfl, List.getLast?_concat⟩, byteLength_append, hb]
    rfl

/-! ## Errors at the end -/

theorem reach_plain (h : ∀ c ∈ cs, isPlain c = true) (o b : Nat) (text : List Char) :
    ∃ text', reach o (.plain b text) cs = .ok (.plain b text') := by
  induction cs generalizing o text with
  | nil => exact ⟨text, rfl⟩
  | cons c cs ih =>
    rw [reach_cons (step_plain.2 (.inl ⟨h c (.head _), rfl⟩))]
    exact ih (fun d hd => h d (.tail _ hd)) _ _

theorem reach_items {items : List Item} (h : ∀ x ∈ items, x.Fits q)
    (o b first : Nat) (text : List Char) : ∃ text',
      reach o (.quoted b q first text) (Item.spellAll items) = .ok (.quoted b q first text') := by
  induction items generalizing o text with
  | nil => exact ⟨text, rfl⟩
  | cons x items ih =>
    have htail := ih fun y hy => h y (.tail _ hy)
    have hx := h x (.head _)
    rw [Item.spellAll_cons]
    cases x with
    | bare c =>
      rw [Item.spell, List.singleton_append, reach_cons (step_quoted.2 (.inr (.inr ⟨hx, rfl⟩)))]
      exact htail _ _
    | escaped c =>
      rw [Item.spell, List.cons_append, List.singleton_append,
        reach_cons (step_quoted.2 (.inl ⟨rfl, rfl⟩)),
        reach_cons (step_escaped.2 ⟨trivial, rfl⟩)]
      exact htail _ _

theorem reach_literal (l : Literal) (o b : Nat) : ∃ text,
    reach o (.opened b) (l.quote :: Item.spellAll l.items) = .ok (.quoted b l.quote o text) := by
  rw [reach_cons (step_opened.2 (.inr ⟨l.isQuote, rfl⟩))]
  exact reach_items l.fits _ _ _ _

/-- Behind a part of the content of a bracket an expression is unfinished, and what is left open
last is the bracket, the quote or the backslash. -/
theorem reach_inside (i : Inside) (b : Nat) : ∃ s, reach (b + 1) (.opened b) i.spell = .ok s ∧
    ∀ o, ∃ fault, finish o s = .error ⟨b + byteLength i.settled, fault⟩ := by
  cases i with
  | empty => exact ⟨.opened b, rfl, fun o => ⟨_, rfl⟩⟩
  | full k =>
    cases k with
    | plain p =>
      obtain ⟨chars, hne, hplain⟩ := p
      obtain ⟨c, cs, rfl⟩ := List.exists_cons_of_ne_nil hne
      obtain ⟨text, htext⟩ := reach_plain (fun d hd => hplain d (.tail _ hd)) (b + 1 + c.utf8Size) b
        [c]
      refine ⟨.plain b text, ?_, fun o => ⟨_, rfl⟩⟩
      exact (reach_cons (step_opened.2 (.inl ⟨hplain c (.head _), rfl⟩)) cs).trans htext
    | literal l =>
      obtain ⟨text, htext⟩ := reach_literal l (b + 1) b
      have hclose : ∀ o, step o l.quote (.quoted b l.quote (b + 1) text) =
          .ok (.filled b text, none) := fun o =>
        step_quoted.2 (.inr (.inl ⟨⟨quote_ne_backslash l.isQuote, rfl⟩, rfl⟩))
      exact ⟨.filled b text, (reach_append_of_ok htext [l.quote]).trans (reach_cons (hclose _) []),
        fun o => ⟨_, rfl⟩⟩
  | literal l =>
    obtain ⟨text, htext⟩ := reach_literal l (b + 1) b
    exact ⟨_, htext, fun o => ⟨_, rfl⟩⟩
  | escape l =>
    obtain ⟨text, htext⟩ := reach_literal l (b + 1) b
    refine ⟨_, (reach_append_of_ok htext ['\\']).trans
      (reach_cons (step_quoted.2 (.inl ⟨rfl, rfl⟩)) []), fun o => ⟨.danglingEscape, ?_⟩⟩
    rw [finish, Inside.settled, byteLength_cons '[', ← Nat.add_assoc]
    rfl

theorem reach_path (p : Path) : ∃ s, reach 0 .start p.spell = .ok s ∧ s.Ended :=
  scan_ok_iff.1 ⟨p.atoms, scan_eq_ok_iff.2 (admits_start.2 ⟨p, rfl, rfl⟩)⟩

theorem State.Ended.step_point (hs : s.Ended) (o : Nat) :
    ∃ done, step o '.' s = .ok (.segment, done) := by
  cases s with
  | name | closed => exact ⟨_, rfl⟩
  | start | segment | opened | plain | quoted | escaped | filled => cases hs

theorem State.Ended.step_bracket (hs : s.Ended) (o : Nat) :
    ∃ done, step o '[' s = .ok (.opened o, done) := by
  cases s with
  | name | closed => exact ⟨_, rfl⟩
  | start | segment | opened | plain | quoted | escaped | filled => cases hs

theorem reach_bracket (before : Option Path) : ∃ s, reach 0 .start (Path.spell? before) = .ok s ∧
    ∀ o, ∃ done, step o '[' s = .ok (.opened o, done) := by
  cases before with
  | none => exact ⟨.start, rfl, fun o => ⟨none, rfl⟩⟩
  | some p =>
    obtain ⟨s, hs, hended⟩ := reach_path p
    exact ⟨s, hs, hended.step_bracket⟩

/-- An unfinished expression is scanned to its end, and fails there for what it leaves open. -/
theorem reach_unfinished (u : Unfinished) : ∃ t fault, reach 0 .start u.spell = .ok t ∧
    finish (0 + byteLength u.spell) t = .error ⟨byteLength u.settled, fault⟩ := by
  cases u with
  | nothing => exact ⟨.start, _, rfl, rfl⟩
  | point p =>
    obtain ⟨s, hs, hended⟩ := reach_path p
    obtain ⟨done, hstep⟩ := hended.step_point (0 + byteLength p.spell)
    refine ⟨.segment, .trailingPoint, ?_, ?_⟩
    · rw [Unfinished.spell, reach_append_of_ok hs, reach_cons hstep]
      rfl
    · rw [Nat.zero_add]
      rfl
  | bracket before inside =>
    obtain ⟨s, hs, hbracket⟩ := reach_bracket before
    obtain ⟨done, hstep⟩ := hbracket (0 + byteLength (Path.spell? before))
    obtain ⟨t, ht, hfinish⟩ := reach_inside inside (0 + byteLength (Path.spell? before))
    obtain ⟨fault, hfault⟩ :=
      hfinish (0 + byteLength (Unfinished.bracket before inside).spell)
    refine ⟨t, fault, ?_, ?_⟩
    · rw [Unfinished.spell, reach_append_of_ok hs, reach_cons hstep]
      exact ht
    · rw [hfault, Unfinished.settled, byteLength_append, Nat.zero_add]

theorem viable_spell (u : Unfinished) : Viable u.spell := by
  obtain ⟨t, fault, ht, -⟩ := reach_unfinished u
  exact viable_iff.2 ⟨t, ht⟩

/-- Viable characters are an expression or an unfinished one. -/
theorem Viable.begins (h : Viable cs) : Begins cs := by
  obtain ⟨more, as, has⟩ := h
  obtain ⟨p, hp, -⟩ := atoms_eq_ok_iff.1 has
  exact p.begins_of_cut (hp.trans String.toList_ofList)

/-! ## Where errors point -/

theorem exists_unfinished (h : atoms source = .error e) (hviable : Viable source.toList) :
    ∃ u : Unfinished, u.spell = source.toList := by
  rcases hviable.begins with ⟨p, hp⟩ | hu
  · rw [atoms_eq_ok_iff.2 ⟨p, hp, rfl⟩] at h
    cases h
  · exact hu

/-- An expression is rejected at a character, or it breaks off. -/
theorem rejected_cases (h : atoms source = .error e) :
    (∃ p c rest, source.toList = p ++ c :: rest ∧ Longest p source.toList ∧
      ReportedBehind p c e) ∨ Viable source.toList := by
  rcases scan_eq_error_iff.1 h with hreach | ⟨t, hreach, -⟩
  · obtain ⟨p, c, rest, s, hsource, hp, hc⟩ := exists_step_of_reach_error hreach
    rw [hsource]
    exact .inl ⟨p, c, rest, rfl, longest_of_step_error hp hc,
      reportedBehind_of_step_error hp hc⟩
  · exact .inr (viable_iff.2 ⟨t, hreach⟩)

theorem exists_longest (h : atoms source = .error e) : ∃ p, Longest p source.toList := by
  rcases rejected_cases h with ⟨p, c, rest, -, hp, -⟩ | hviable
  · exact ⟨p, hp⟩
  · exact ⟨source.toList, longest_self hviable⟩

theorem reportedBehind {rest : List Char} (h : atoms source = .error e)
    (hp : Longest p source.toList) (hsource : source.toList = p ++ c :: rest) :
    ReportedBehind p c e := by
  rcases rejected_cases h with ⟨q, d, rest', hsource', hq, hreported⟩ | hviable
  · obtain rfl := hp.unique hq
    obtain ⟨rfl, -⟩ := List.cons.inj (List.append_cancel_left (hsource.symm.trans hsource'))
    exact hreported
  · have hlength := congrArg List.length (hp.unique (longest_self hviable))
    rw [hsource, List.length_append, List.length_cons] at hlength
    omega

theorem offset_of_unfinished (h : atoms source = .error e) {u : Unfinished}
    (hu : u.spell = source.toList) : e.offset = byteLength u.settled := by
  obtain ⟨t, fault, ht, hfault⟩ := reach_unfinished u
  have herror := scan_eq_error_iff.2 (.inr ⟨t, ht, hfault⟩)
  rw [hu] at herror
  cases h.symm.trans herror
  rfl

theorem exists_offset_eq_byteLength (h : atoms source = .error e) :
    ∃ q, q <+: source.toList ∧ e.offset = byteLength q := by
  rcases rejected_cases h with ⟨p, c, rest, -, hp, hreported⟩ | hviable
  · unfold ReportedBehind at hreported
    split at hreported
    · next hempty =>
      obtain ⟨q, rfl⟩ := List.getLast?_eq_some_iff.1 hempty.2
      rw [byteLength_append] at hreported
      exact ⟨q, (List.prefix_append q _).trans hp.begins, Nat.succ.inj hreported⟩
    · exact ⟨p, hp.begins, hreported⟩
  · obtain ⟨u, hu⟩ := exists_unfinished h hviable
    exact ⟨u.settled, hu ▸ u.settled_le, offset_of_unfinished h hu⟩

/-- Where a syntax error of an expression points. -/
structure PointsAtFault (source : String) (e : SyntaxError) : Prop where
  /-- There is one longest viable beginning. -/
  longest : ∃ p, Longest p source.toList ∧ ∀ q, Longest q source.toList → q = p
  /-- The character behind it is reported. -/
  behind : ∀ p c rest, Longest p source.toList → source.toList = p ++ c :: rest →
    ReportedBehind p c e
  /-- All of the expression is viable if and only if it is an unfinished one. -/
  breaksOff : Viable source.toList ↔ ∃ u : Unfinished, u.spell = source.toList
  /-- An unfinished expression is reported where it is left open. -/
  unfinished : ∀ u : Unfinished, u.spell = source.toList → e.offset = byteLength u.settled
  /-- The error points between two characters, or at an end of the expression. -/
  boundary : ∃ q, q <+: source.toList ∧ e.offset = byteLength q
  le_size : e.offset ≤ source.utf8ByteSize

/-- The error of a rejected expression points behind its longest viable beginning, or at what is
left open if that is all of it.  Empty brackets are reported where they open. -/
theorem pointsAtFault (h : atoms source = .error e) : PointsAtFault source e where
  longest := by
    obtain ⟨p, hp⟩ := exists_longest h
    exact ⟨p, hp, fun q hq => hq.unique hp⟩
  behind p c rest hp hsource := reportedBehind h hp hsource
  breaksOff := by
    refine ⟨exists_unfinished h, ?_⟩
    rintro ⟨u, hu⟩
    exact hu ▸ viable_spell u
  unfinished u hu := offset_of_unfinished h hu
  boundary := exists_offset_eq_byteLength h
  le_size := by
    obtain ⟨q, ⟨rest, hrest⟩, hoffset⟩ := exists_offset_eq_byteLength h
    have hsize : source.utf8ByteSize = byteLength q + byteLength rest := by
      rw [← byteLength_append, hrest, byteLength, String.ofList_toList]
    omega

-- A point in a literal that is open is a character of it.
example : atoms "a['b\\'." = .error ⟨2, .unterminatedQuote⟩ := rfl

theorem pointsAtFault_brackets :
    atoms "a[]" = .error ⟨1, .emptyBrackets⟩ ∧ PointsAtFault "a[]" ⟨1, .emptyBrackets⟩ :=
  ⟨rfl, pointsAtFault rfl⟩

end ObjectPath.Expression
