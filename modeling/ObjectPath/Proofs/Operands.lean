import Mathlib.Data.List.Find
import ObjectPath.Proofs.Outside

/-!
# Operands outside brackets

The productions of expressions read the same in front of a comma as alone.
-/

namespace ObjectPath.Derive.Grammar

open Reading (Agrees)

variable {s t : Sight} {cs : List Char} {us : List Token} {b : Bool}

/-! ## Operators -/

namespace Operator

theorem ne_nil_of_mem_table : ∀ e ∈ table, e.1 ≠ [] := by decide

theorem contains_comma_of_mem_table : ∀ e ∈ table, e.1.contains ',' = false := by decide

theorem ofSight?_eq (h : s.Ahead t) : ofSight? t = ofSight? s := by
  have hfind : table.find? (fun e => t.shows e.1) = table.find? (fun e => s.shows e.1) := by
    refine List.find?_congr fun ⟨ms, op⟩ he => ?_
    have hcomma := contains_comma_of_mem_table _ he
    cases ms with
    | nil => exact absurd rfl (ne_nil_of_mem_table _ he)
    | cons m ms => exact h.toBefore.shows hcomma
  rw [ofSight?, ofSight?, h.isWord, h.shows rfl, hfind]

theorem has_of_ofSight? (h : s.Ahead t) {op : Operator} {n : Nat} (hs : ofSight? s = some (op, n)) :
    ∃ k, n = k + 1 ∧ s.Has (k + 1) := by
  rw [ofSight?] at hs
  split at hs
  · cases hs
    exact ⟨0, rfl, h.nonempty⟩
  split at hs
  · cases hs
  obtain ⟨⟨ms, op⟩, hfind, he⟩ := Option.map_eq_some_iff.1 hs
  cases he
  have hms : ms ≠ [] := ne_nil_of_mem_table _ (List.mem_of_find?_eq_some hfind)
  have hshows : s.shows ms = true := by simpa only using List.find?_some hfind
  cases ms with
  | nil => exact absurd rfl hms
  | cons m ms => exact ⟨ms.length, rfl, h.has_of_shows hshows⟩

end Operator

namespace ExpressionPart

theorem agrees_readOperator (h : s.Ahead t) (records : Bool) (c : Chain) (op : Operator) {n : Nat}
    (hn : s.Has (n + 1)) :
    Agrees s (readOperator records c op (n + 1) s) (readOperator records c op (n + 1) t) := by
  cases op with
  | assignment => exact .ite_iff .rfl (fun _ => .takeAll hn rfl) fun _ => .pass
  | range closed =>
    exact .ite_iff .rfl (fun _ => .ite (h.shows rfl) (fun _ => .fail _ _) (.takeAll hn rfl))
      fun _ => .pass
  | logical => exact .ite_iff .rfl (fun _ => .pass) fun _ => .takeAll hn rfl
  | comparison => exact .ite rfl (fun _ => .fail _ _) (.takeAll hn rfl)
  | other => exact .takeAll hn rfl
  | cast => exact .take h rfl

theorem agrees_readOperators (h : s.Ahead t) (records : Bool) (c : Chain) :
    Agrees s (readOperators records c s) (readOperators records c t) := by
  rw [readOperators, readOperators, Operator.ofSight?_eq h]
  cases hs : Operator.ofSight? s with
  | none => exact .pass
  | some e =>
    obtain ⟨op, n⟩ := e
    obtain ⟨k, rfl, hk⟩ := Operator.has_of_ofSight? h hs
    exact .ite_iff .rfl (fun _ => agrees_readOperator h records c op hk) fun _ =>
      .ite_iff .rfl (fun _ => .pass) fun _ => agrees_readOperator h records _ op hk

theorem endsRange_eq (h : s.Ahead t) (records : Bool) :
    endsRange records t = endsRange records s := by
  simp (disch := decide) only [endsRange, List.any_cons, List.any_nil, h.isEnd, h.isPoint, h.isWord,
    h.isGroup, h.shows]

theorem agrees_readRange (h : s.Ahead t) (records : Bool) {ps : List Part}
    (hps : ps.all Part.outside = true) :
    Agrees s (readRange records ps s) (readRange records ps t) :=
  .ite (h.shows rfl) (fun _ => .fail _ _) <|
    .ite (h.shows rfl) (fun hs => .takeAll (h.has_of_shows hs) hps) <|
    .ite (h.shows rfl) (fun hs => .takeAll (h.has_of_shows hs) hps) .pass

theorem agrees_readTrailers (h : s.Ahead t) : Agrees s (readTrailers s) (readTrailers t) :=
  .ite (h.isGroup .paren) (fun _ => .enter _ h.nonempty rfl) <|
    .ite (h.isGroup .bracket) (fun _ => .enter _ h.nonempty rfl) <|
    .ite (h.shows rfl) (fun _ => .take h rfl) <|
    .ite h.isPoint (fun _ => .take h rfl) .pass

theorem agrees_readPositions (h : s.Ahead t) (l : String) :
    Agrees s (readPositions l) (readPositions l) := by
  rw [readPositions]
  split
  next positions point _ =>
  cases positions.findSome? Position.fault? with
  | some f => exact .fail f _
  | none => cases point <;> exact .take h rfl

theorem agrees_readMember (h : s.Ahead t) (several : Bool) :
    Agrees s (readMember several s) (readMember several t) := by
  have hname : Agrees s (.field [.expression .method] [] s) (.field [.expression .method] [] t) :=
    Reading.agrees_field h rfl rfl
  have hawait : Agrees s (.take [.expression .trailers]) _ := .take h rfl
  have hother : Agrees s _ _ := .ite (h.isWord "await") (fun _ => hawait) hname
  obtain ⟨u, v, ts, us, hs, ht, huv⟩ := h.tokens_cases
  rw [readMember, readMember, hs, ht]
  cases huv with
  | literal l =>
    exact .ite_iff (by rw [h.isNumber]) (fun _ => agrees_readPositions h l)
      fun _ => Reading.agrees_field h rfl rfl
  | word | mark | group => exact hother

theorem agrees_readMethod (h : s.Ahead t) : Agrees s (readMethod s) (readMethod t) :=
  .ite h.isPathMark (fun hs => .takeAll (h.has_of_shows hs) rfl) (agrees_readTrailers h)

theorem agrees_readCastEnd (h : s.Ahead t) : Agrees s (readCastEnd s) (readCastEnd t) :=
  .ite h.isPoint (fun _ => .fail _ _) <|
    .ite (h.shows rfl) (fun _ => .fail _ _) <|
    .ite (h.isGroup .bracket) (fun _ => .fail _ _) <|
    .ite (h.isGroup .paren) (fun _ => .fail _ _) .pass

theorem agrees_readPath (h : s.Ahead t) (records : Bool) (p : PathSite) :
    Agrees s (readPath records p s) (readPath records p t) := by
  have hr := Path.agrees_read? h (.operand records) p
  rw [readPath, readPath]
  generalize Path.read? _ p s = r, Path.read? _ p t = r' at hr
  cases hr with
  | some hr => exact hr
  | none =>
    exact
      .ite_iff (by rw [h.isBang]) (fun _ => .take h rfl) fun _ =>
      .ite_iff (by rw [h.isGroup]) (fun _ => .enter _ h.nonempty rfl) fun _ => .pass

/-! ### Closures -/

theorem agrees_readClosureWords (h : s.Ahead t) (rest : List String) (records : Bool) :
    Agrees s (readClosureWords rest records s) (readClosureWords rest records t) := by
  have hwords : (fun w => !t.isWord w) = fun w => !s.isWord w := by
    funext w
    rw [h.isWord]
  rw [readClosureWords, readClosureWords, hwords]
  cases rest.dropWhile fun w => !s.isWord w with
  | nil => exact Reading.agrees_marks h rfl rfl
  | cons w rest => exact .take h rfl

theorem agrees_readParameter (h : s.Ahead t) (records : Bool) :
    Agrees s (readParameter records s) (readParameter records t) :=
  .ite (h.shows rfl) (fun _ => .take h rfl) ((PatternPart.agrees_readSingle h false).andThen rfl)

theorem agrees_readParameters (h : s.Ahead t) (records : Bool) :
    Agrees s (readParameters records s) (readParameters records t) :=
  .ite (h.shows rfl) (fun _ => .take h rfl) (agrees_readParameter h records)

theorem agrees_readParameterEnd (h : s.Ahead t) (records : Bool) :
    Agrees s (readParameterEnd records s) (readParameterEnd records t) :=
  .ite (h.shows rfl) (fun _ => .take h rfl) (Reading.agrees_marks h rfl rfl)

/-! ### Blocks -/

theorem agrees_readLabelled (h : s.Ahead t) : Agrees s (readLabelled s) (readLabelled t) :=
  .ite (h.isWord "while") (fun _ => .take h rfl) <|
    .ite (h.isWord "for") (fun _ => .take h rfl) <|
    .ite (h.isWord "loop") (fun _ => .take h rfl) <|
    .ite (h.isGroup .brace) (fun _ => Reading.agrees_group h _ _ rfl) (.fail _ _)

theorem agrees_readAlternativeBlock (h : s.Ahead t) :
    Agrees s (readAlternativeBlock s) (readAlternativeBlock t) :=
  .ite (h.isWord "if") (fun _ => .take h rfl) <|
    .ite (h.isGroup .brace) (fun _ => Reading.agrees_group h _ _ rfl) (.fail _ _)

/-! ### Operands -/

theorem agrees_readAsync (h : s.Ahead t) (records : Bool) :
    Agrees s (readAsync records s) (readAsync records t) := by
  have hbraces : (t.skip 1).isWord "move" ∧ (t.skip 2).isGroup .brace ↔
      (s.skip 1).isWord "move" ∧ (s.skip 2).isGroup .brace := by
    rw [h.next.isWord]
    refine and_congr_right fun hs => ?_
    rw [(h.skip (.of_skip (Sight.has_of_isWord hs))).isGroup]
  exact
    .ite (h.next.isGroup .brace) (fun _ => .take h rfl) <|
    .ite_iff hbraces (fun hs => .takeAll (.of_skip (Sight.has_of_isWord hs.1)) rfl) fun _ =>
    .ite_iff (by rw [h.next.isWord, h.next.shows rfl]) (fun _ => .take h rfl) fun _ => .fail _ _

theorem agrees_readBreak (h : s.Ahead t) (records : Bool) :
    Agrees s (readBreak records s) (readBreak records t) := by
  refine .ite_iff (by rw [h.next.isLifetime]) (fun _ => .take h rfl) fun hs => ?_
  have hthree : s.Has 3 := .of_skip (h.next.has_of_isLifetime (not_not.1 hs))
  have hlabel : (s.skip 3).Before (t.skip 3) := h.skip hthree
  exact .ite (hlabel.shows rfl) (fun hs => .takeAll (.of_skip (hlabel.has_of_shows hs)) rfl)
    (.takeAll hthree rfl)

/-- Whether parameters in angle brackets come next is told the same way, unless the tokens end where
the first parameter could end. -/
theorem opensParameters_cases (h : s.Before t) :
    t.opensParameters = s.opensParameters ∨
      s.opensParameters = false ∧ ∃ cs w, (s.tokens = [.mark '<' cs, .word w] ∧
        Token.isKeyword w = false) ∨ ∃ ds, s.tokens = [.mark '<' cs, .mark '\x27' ds, .word w] := by
  obtain ⟨ts, b⟩ := s
  by_cases hangle : Sight.shows ⟨ts, b⟩ ['<']
  swap
  · rw [Sight.opensParameters, Sight.opensParameters, h.shows rfl]
    simp [hangle]
  have hnext : (Sight.skip ⟨ts, b⟩ 1).Before (t.skip 1) := h.skip (h.has_of_shows hangle)
  obtain ⟨cs, us, rfl⟩ := Sight.tokens_of_shows hangle
  by_cases hlifetime : (Sight.skip ⟨.mark '<' cs :: us, b⟩ 1).isLifetime
  · have hbehind := hnext.skip (hnext.has_of_isLifetime hlifetime)
    obtain ⟨ds, w, vs, rfl⟩ := hnext.tokens_of_isLifetime hlifetime
    obtain rfl | hahead := hbehind.eq_nil_or_ahead
    · exact .inr ⟨rfl, cs, w, .inr ⟨ds, rfl⟩⟩
    · refine .inl ?_
      simp (disch := decide) only [Sight.opensParameters, hnext.isLifetime, hlifetime, if_true,
        h.shows, hnext.shows, hnext.isWord, hnext.isName, hahead.shows, hahead.isColon]
  by_cases hname : (Sight.skip ⟨.mark '<' cs :: us, b⟩ 1).isName
  · obtain ⟨w, vs, rfl, hw⟩ := Sight.tokens_of_isName hname
    have hbehind := hnext.skip (n := 1) (Nat.le_add_left 1 vs.length)
    obtain rfl | hahead := hbehind.eq_nil_or_ahead
    · have hconst : w ≠ "const" := by
        rintro rfl
        cases hw
      refine .inr ⟨?_, cs, w, .inl ⟨rfl, hw⟩⟩
      simp [Sight.opensParameters, Sight.skip, Sight.shows, Sight.isWord, Sight.isLifetime, hconst,
        Sight.isColon]
    · refine .inl ?_
      simp (disch := decide) only [Sight.opensParameters, hnext.isLifetime, hlifetime, if_false,
        Bool.false_eq_true,
        h.shows, hnext.shows, hnext.isWord, hnext.isName, hahead.shows, hahead.isColon]
  · refine .inl ?_
    simp (disch := decide) only [Sight.opensParameters, hnext.isLifetime, hlifetime, hname,
      Bool.false_and, Bool.or_false, h.shows, hnext.shows, hnext.isWord, hnext.isName]

theorem startsQuantified_cases (h : s.Ahead t) (hs : s.isWord "for" = true) :
    startsQuantified t = startsQuantified s ∨ startsQuantified s = false ∧ s.LooseFor := by
  rw [startsQuantified, startsQuantified, h.isWord, hs, Bool.true_and, Bool.true_and]
  refine (opensParameters_cases h.next).imp_right fun ⟨hopens, cs, w, hts⟩ => ⟨hopens, cs, w, ?_⟩
  obtain ⟨us, hus⟩ := Sight.tokens_of_isWord hs
  rw [Sight.skip, hus] at hts
  rw [hus]
  simpa using hts

theorem agrees_readWord (h : s.Ahead t) (records : Bool) (w : String) (hw : s.isWord w = true) :
    Agrees s (readWord records w s) (readWord records w t) := by
  unfold readWord
  -- What is behind a word matters to `async`, `try`, `const`, `for`, `break`, `continue` and names.
  split
  case h_4 => exact agrees_readAsync h records
  case h_5 =>
    exact .ite (h.next.isGroup .brace) (fun _ => .take h rfl) <|
      .ite_iff (by rw [h.next.shows rfl, h.next.isPathMark])
        (fun _ => TypePart.agrees_readRelative h _) fun _ => .fail _ _
  case h_8 =>
    dsimp only
    rw [h.next.isGroup]
    refine .take h ?_
    split <;> rfl
  case h_9 =>
    obtain hquantified | ⟨hquantified, hloose⟩ := startsQuantified_cases h hw
    · rw [hquantified]
      refine .take h ?_
      split <;> rfl
    · rw [hquantified]
      exact .loose [] _ hloose
  case h_16 => exact agrees_readBreak h records
  case h_17 =>
    dsimp only
    rw [h.next.isLifetime]
    split
    · next hs => exact .takeAll (.of_skip (h.next.has_of_isLifetime hs)) rfl
    · exact .take h rfl
  case h_21 =>
    exact .ite (TypePart.isBuiltin_eq h) (fun hs => TypePart.agrees_readBuiltin h hs) <|
      .ite h.isSegment (fun _ => TypePart.agrees_readRelative h _) (.fail _ _)
  all_goals exact .take h rfl

theorem agrees_readAtom (h : s.Ahead t) (records : Bool) :
    Agrees s (readAtom records s) (readAtom records t) := by
  obtain ⟨u, v, ts, us, hs, ht, huv⟩ := h.tokens_cases
  rw [readAtom, readAtom, hs, ht]
  cases huv with
  | literal l => exact .take h rfl
  | word w =>
    have hw : s.isWord w = true := by
      rw [Sight.isWord, hs]
      exact decide_eq_true rfl
    exact agrees_readWord h records w hw
  | group d body =>
    cases d with
    | paren | bracket | none => exact .enter _ h.nonempty rfl
    | brace => exact Reading.agrees_group h _ _ rfl
  | mark =>
    exact
      .ite (h.shows rfl) (fun _ => .take h rfl) <|
      .ite h.isPathMark (fun hs => .takeAll (h.has_of_shows hs) rfl) <|
      .ite (h.shows rfl) (fun _ => .take h rfl) <|
      .ite h.isLifetime (fun hs => .takeAll (h.has_of_isLifetime hs) rfl) (.fail _ _)

theorem agrees_readOperand (h : s.Ahead t) (records : Bool) :
    Agrees s (readOperand records s) (readOperand records t) := by
  have hraw : (t.skip 1).isWord "raw" ∧ ((t.skip 2).isWord "mut" ∨ (t.skip 2).isWord "const") ↔
      (s.skip 1).isWord "raw" ∧ ((s.skip 2).isWord "mut" ∨ (s.skip 2).isWord "const") := by
    rw [h.next.isWord]
    refine and_congr_right fun hs => ?_
    have hbehind : (s.skip 2).Before (t.skip 2) := h.skip (.of_skip (Sight.has_of_isWord hs))
    rw [hbehind.isWord, hbehind.isWord]
  have hoperand : [Part.expression (.operand records)].all Part.outside = true := rfl
  refine .ite (h.shows rfl) (fun _ => .take h rfl) <|
    .ite (h.shows rfl) (fun _ => .ite_iff hraw
      (fun hs => .takeAll (.of_skip (hs.2.elim Sight.has_of_isWord Sight.has_of_isWord)) hoperand)
      fun _ => ?_) <|
    .ite_iff (by rw [h.shows rfl, h.shows rfl, h.shows rfl]) (fun _ => .take h hoperand) fun _ =>
    (agrees_readRange h records rfl).orElse ((agrees_readAtom h records).andThen rfl)
  rw [h.next.isWord]
  split
  · next hs => exact .takeAll (.of_skip (Sight.has_of_isWord hs)) hoperand
  · exact .take h hoperand

theorem agrees_readAttributed (h : s.Ahead t) (records : Bool) :
    Agrees s (readAttributed records s) (readAttributed records t) :=
  (agrees_readRange h records rfl).orElse (agrees_readOperand h records)

theorem agrees_readChain (h : s.Ahead t) (records : Bool) (c : Chain) :
    Agrees s (readChain records c s) (readChain records c t) :=
  (agrees_readRange h records rfl).orElse ((agrees_readOperand h records).andThen rfl)

theorem agrees_readRangeEnd (h : s.Ahead t) (records closed : Bool) :
    Agrees s (readRangeEnd records closed s) (readRangeEnd records closed t) :=
  .ite_iff (by rw [endsRange_eq h]) (fun _ => .pass) fun _ => agrees_readChain h records _

theorem startsExpression_eq (h : s.Ahead t) : startsExpression t = startsExpression s := by
  simp (disch := decide) only [startsExpression, h.isAnyWord, h.isWord, h.isAnyGroup, h.isLiteral,
    h.isBang, h.shows, h.isPathMark, h.isLifetime]

theorem agrees_readOptional (h : s.Ahead t) : Agrees s (readOptional s) (readOptional t) :=
  .ite (startsExpression_eq h) (fun _ => agrees_readChain h true _) .pass

theorem agrees_read (h : s.Ahead t) {p : ExpressionPart} (hp : p.outside = true) :
    Agrees s (p.read s) (p.read t) := by
  cases p with
  | chain records c => exact agrees_readChain h records c
  | operators records c => exact agrees_readOperators h records c
  | operand records => exact agrees_readOperand h records
  | attributed records => exact agrees_readAttributed h records
  | rangeEnd records closed => exact agrees_readRangeEnd h records closed
  | trailers => exact agrees_readTrailers h
  | member several => exact agrees_readMember h several
  | method => exact agrees_readMethod h
  | call => exact Reading.agrees_group h _ _ rfl
  | castEnd => exact agrees_readCastEnd h
  | closureWords rest records => exact agrees_readClosureWords h rest records
  | parameters records => exact agrees_readParameters h records
  | parameter records => exact agrees_readParameter h records
  | parameterType => exact .ite (h.shows rfl) (fun _ => .take h rfl) .pass
  | parameterEnd records => exact agrees_readParameterEnd h records
  | closureBody records =>
    exact .ite (h.shows rfl) (fun hs => .takeAll (h.has_of_shows hs) rfl)
      (agrees_readChain h records _)
  | optional => exact agrees_readOptional h
  | exit records =>
    exact .ite_iff (by rw [h.isGroup]) (fun _ => .pass) fun _ => agrees_readOptional h
  | labelled => exact agrees_readLabelled h
  | alternative => exact .ite (h.isWord "else") (fun _ => .take h rfl) .pass
  | alternativeBlock => exact agrees_readAlternativeBlock h
  | array | elementEnd | fieldValue | base => cases hp

theorem agrees_end {p : ExpressionPart} (hp : p.outside = true) :
    Agrees ⟨[], b⟩ (p.read ⟨[], b⟩) (p.read ⟨.mark ',' cs :: us, b⟩) := by
  cases p with
  | operators | trailers | method | castEnd | parameterType | alternative | optional => exact .pass
  | rangeEnd records closed =>
    cases closed with
    | false => exact .pass
    | true => exact .fail _ _
  | exit records => cases records <;> exact .pass
  | closureWords rest records =>
    have hrest : rest.dropWhile (fun w => !Sight.isWord ⟨[], b⟩ w) = [] := by
      clear hp
      induction rest with
      | nil => rfl
      | cons w rest ih => exact ih
    rw [read, readClosureWords, hrest]
    exact .fail _ _
  | array | elementEnd | fieldValue | base => cases hp
  | _ => exact .fail _ _

end ExpressionPart

end ObjectPath.Derive.Grammar
