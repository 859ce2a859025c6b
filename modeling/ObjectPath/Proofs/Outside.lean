import ObjectPath.Proofs.Lookahead

/-!
# Parts outside brackets

What brackets hold is read apart from what is around them, so only some of the parts are left outside
brackets while an expression or a path is read (`Part.outside`).  These take no comma but between
angle brackets and between the parameters of a closure.

`Reading.Agrees` relates what is read of tokens alone to what is read of them in front of a comma.
Both are the same, and leave only such parts, unless the tokens alone are at fault.  There is one
exception: behind `for`, a name in angle brackets that a comma follows is a parameter.  The lemmas
follow the productions of the grammar, one for each.
-/

namespace ObjectPath.Derive.Grammar

/-! ## Parts -/

/-- Whether bounds may stand outside brackets. -/
def BoundOwner.outside : BoundOwner → Bool
  | object _ | existential _ | constraint | parameter | path | parentheses => true
  | predicate | trait | declaration | synonym => false

/-- Whether a part of bounds may stand outside brackets. -/
def BoundPart.outside : BoundPart → Bool
  | bound o _ | behind o _ | .optional o _ => o.outside
  | trait _ | quantified _ | constant _ | relaxed _ | call | captures | captureEnd => true

/-- Whether a part of types may stand outside brackets. -/
def TypePart.outside : TypePart → Bool
  | parameter _ _ | parameterEnd | tupleEnd | elementEnd => false
  | start _ _ | quantified _ | qualifier _ | arguments | argumentEnd | value | functionHead _
  | result _ | pointee | reference | dynamic _ => true

/-- Whether a part of generic parameters may stand outside brackets. -/
def GenericPart.outside : GenericPart → Bool
  | list _ | parameter _ | parameterEnd _ | typeDefault | lifetimeBounds | constantDefault
  | constant => true
  | bounds o => o.outside
  | lifetimeBound inClause | lifetimeBoundEnd inClause => !inClause
  | .optional | clause | clauseStart | predicates | predicateEnd => false

/-- Whether a part of patterns may stand outside brackets. -/
def PatternPart.outside : PatternPart → Bool
  | fieldWords _ | fieldName => false
  | single _ | choice _ | alternatives | reference | binding | subpattern | pointer | rangeEnd _
  | limit _ _ _ | openRange => true

/-- Whether a part of expressions may stand outside brackets. -/
def ExpressionPart.outside : ExpressionPart → Bool
  | array | elementEnd | fieldValue | base => false
  | chain _ _ | operators _ _ | operand _ | attributed _ | rangeEnd _ _ | trailers | member _
  | method | call | castEnd | closureWords _ _ | parameters _ | parameter _ | parameterType
  | parameterEnd _ | closureBody _ | .optional | exit _ | labelled | alternative
  | alternativeBlock => true

/-- Whether a part may stand outside brackets, tokens apart that were seen behind others. -/
def Part.outside : Part → Bool
  | marks [] => false
  | marks (_ :: ms) => !ms.contains ','
  | keyword _ | name | anything _ | macroArguments | group _ | reject _ | path _ _ => true
  | .attribute p => p = .brackets
  | bound p => p.outside
  | type p => p.outside
  | generic p => p.outside
  | pattern p => p.outside
  | expression p => p.outside
  | further | optionalWord _ | nameOr _ | optionalComma | elements _ | element _ | comma _
  | attributes _ | barePath _ | statement _ | item _ => false

/-! ## Readings -/

/-- What is left of `for<a` or `for<'a`, which is only the start of a parameter if a comma
follows. -/
def Sight.LooseFor (s : Sight) : Prop :=
  ∃ (cs : List Char) (w : String),
    (s.tokens = [.word "for", .mark '<' cs, .word w] ∧ Token.isKeyword w = false) ∨
      ∃ ds, s.tokens = [.word "for", .mark '<' cs, .mark '\x27' ds, .word w]

namespace Reading

/-- What is read of tokens alone, and in front of a comma. -/
inductive Agrees (s : Sight) : Reading → Reading → Prop
  | some (k : Nat) {ps : List Part} (hk : s.Has (k + 1)) (hps : ps.all Part.outside = true) :
      Agrees s (.take (List.replicate k .further ++ ps)) (.take (List.replicate k .further ++ ps))
  | enter (inside : List Part) {ps : List Part} (hs : s.Has 1) (hps : ps.all Part.outside = true) :
      Agrees s (.enter inside ps) (.enter inside ps)
  | pass : Agrees s .pass .pass
  | fail (f : Fault) (r : Reading) : Agrees s (.fail f) r
  | loose (ps : List Part) (r : Reading) (hs : s.LooseFor) :
      Agrees s (.take (ExpressionPart.loopParts ++ ps)) r

variable {s t : Sight} {r r' q q' : Reading} {ps : List Part}

namespace Agrees

theorem take (h : s.Ahead t) (hps : ps.all Part.outside = true) :
    Agrees s (.take ps) (.take ps) :=
  .some 0 h.nonempty hps

theorem takeAll {n : Nat} (hs : s.Has (n + 1)) (hps : ps.all Part.outside = true) :
    Agrees s (.takeAll (n + 1) ps) (.takeAll (n + 1) ps) :=
  .some n hs hps

theorem andThen (h : Agrees s r r') (hps : ps.all Part.outside = true) :
    Agrees s (r.andThen ps) (r'.andThen ps) := by
  cases h with
  | some k hk hqs =>
    simp only [Reading.andThen, List.append_assoc]
    exact .some k hk (by simp only [List.all_append, hqs, hps, Bool.and_self])
  | enter inside hs hqs =>
    exact .enter inside hs (by simp only [List.all_append, hqs, hps, Bool.and_self])
  | pass => exact .pass
  | fail f r => exact .fail f _
  | loose qs r hs =>
    simp only [Reading.andThen, List.append_assoc]
    exact .loose _ _ hs

theorem orElse (h : Agrees s r r') (hq : Agrees s q q') : Agrees s (r.orElse q) (r'.orElse q') := by
  cases h with
  | some k hk hps => exact .some k hk hps
  | enter inside hs hps => exact .enter inside hs hps
  | pass => exact hq
  | fail f r => exact .fail f _
  | loose ps r hs => exact .loose ps _ hs

theorem ite_iff {p p' : Prop} [Decidable p] [Decidable p'] (hp : p' ↔ p) (hq : p → Agrees s q q')
    (hr : ¬p → Agrees s r r') : Agrees s (if p then q else r) (if p' then q' else r') := by
  by_cases h : p
  · rw [if_pos h, if_pos (hp.2 h)]
    exact hq h
  · rw [if_neg h, if_neg (mt hp.1 h)]
    exact hr h

theorem ite {b b' : Bool} (hb : b' = b) (hq : b = true → Agrees s q q')
    (hr : Agrees s r r') : Agrees s (if b then q else r) (if b' then q' else r') :=
  ite_iff (by rw [hb]) hq fun _ => hr

/-- One reading, or another one if there is none. -/
theorem getD {o o' : Option Reading} (h : Option.Rel (Agrees s) o o') (hq : Agrees s q q') :
    Agrees s (o.getD q) (o'.getD q') := by
  cases h with
  | some hr => exact hr
  | none => exact hq

end Agrees

theorem agrees_marks (h : s.Ahead t) {m : Char} {ms : List Char} (hms : ms.contains ',' = false)
    (hps : ps.all Part.outside = true) :
    Agrees s (marks (m :: ms) ps s) (marks (m :: ms) ps t) :=
  .ite (h.shows hms) (fun hs => .takeAll (h.has_of_shows hs) hps) (.fail _ _)

theorem agrees_keyword (h : s.Ahead t) (w : String) (hps : ps.all Part.outside = true) :
    Agrees s (keyword w ps s) (keyword w ps t) :=
  .ite (h.isWord w) (fun _ => .take h hps) (.fail _ _)

theorem agrees_name (h : s.Ahead t) (hps : ps.all Part.outside = true) :
    Agrees s (name ps s) (name ps t) := by
  obtain ⟨u, v, ts, us, hs, ht, huv⟩ := h.tokens_cases
  rw [name, name, hs, ht]
  cases huv with
  | word w => exact .ite rfl (fun _ => .fail _ _) (.take h hps)
  | mark | literal | group => exact .fail _ _

theorem agrees_lifetime (h : s.Ahead t) (hps : ps.all Part.outside = true) :
    Agrees s (lifetime ps s) (lifetime ps t) :=
  .ite h.isLifetime (fun hs => .takeAll (h.has_of_isLifetime hs) hps) (.fail _ _)

theorem agrees_literal (h : s.Ahead t) (hps : ps.all Part.outside = true) :
    Agrees s (literal ps s) (literal ps t) := by
  rw [literal, literal, h.isNegative]
  split
  · next hs => exact .takeAll (Sight.has_of_isNegative hs) hps
  · exact .take h hps

theorem agrees_field (h : s.Ahead t) {qs : List Part} (hps : ps.all Part.outside = true)
    (hqs : qs.all Part.outside = true) : Agrees s (field ps qs s) (field ps qs t) := by
  obtain ⟨u, v, ts, us, hs, ht, huv⟩ := h.tokens_cases
  rw [field, field, hs, ht]
  cases huv with
  | word w => exact .ite rfl (fun _ => .fail _ _) (.take h hps)
  | literal l =>
    refine .ite_iff (by rw [h.isNumber]) (fun _ => ?_) fun _ => .fail _ _
    cases Position.fault? l.toList with
    | some f => exact .fail f _
    | none => exact .take h hqs
  | mark | group => exact .fail _ _

theorem agrees_group (h : s.Ahead t) (d : Delimiter) (inside : List Part)
    (hps : ps.all Part.outside = true) :
    Agrees s (group d inside ps s) (group d inside ps t) :=
  .ite (h.isGroup d) (fun _ => .enter inside h.nonempty hps) (.fail _ _)

theorem agrees_macroArguments (h : s.Ahead t) (hps : ps.all Part.outside = true) :
    Agrees s (macroArguments ps s) (macroArguments ps t) :=
  .ite h.isAnyGroup (fun _ => .take h hps) (.fail _ _)

end Reading

open Reading (Agrees)

variable {s t : Sight} {cs : List Char} {us : List Token} {b : Bool}

/-! ## Paths -/

namespace Path

theorem agrees_readSegment (h : s.Ahead t) (u : PathUse) (x : PathShape) :
    Agrees s (readSegment u x s) (readSegment u x t) := by
  obtain ⟨v, w, ts, us, hs, ht, hvw⟩ := h.tokens_cases
  rw [readSegment, readSegment, hs, ht]
  cases hvw with
  | word w => exact .ite_iff .rfl (fun _ => .fail _ _) fun _ => .take h rfl
  | mark | literal | group => exact .fail _ _

theorem startsArguments_eq (h : s.Ahead t) : startsArguments t = startsArguments s := by
  simp (disch := decide) only [startsArguments, h.shows]

/-- Both paths end, or both go on the same way. -/
theorem agrees_read? (h : s.Ahead t) (u : PathUse) (p : PathSite) :
    Option.Rel (Agrees s) (read? u p s) (read? u p t) := by
  cases p with
  | start =>
    rw [read?, read?, h.isPathMark]
    split
    · next hs => exact .some (.takeAll (h.has_of_shows hs) rfl)
    · exact .some (agrees_readSegment h u .relative)
  | segment x => exact .some (agrees_readSegment h u x)
  | behind x e =>
    rw [read?, read?, h.isPathMark, startsArguments_eq h]
    by_cases hmark : s.isPathMark
    · have hbehind : (s.skip 2).Before (t.skip 2) := h.skip (h.has_of_shows hmark)
      rw [hbehind.shows rfl, hbehind.isGroup]
      split
      · next hs => exact .some (.takeAll (.of_skip (hbehind.has_of_shows hs.2.2)) rfl)
      split
      · exact .some (.takeAll (h.has_of_shows hmark) rfl)
      split
      · exact .some (.take h rfl)
      · exact .none
    · simp only [hmark, Bool.false_eq_true, false_and, if_false]
      split
      · exact .some (.take h rfl)
      · exact .none

theorem agrees_readAlone (h : s.Ahead t) (u : PathUse) (p : PathSite) :
    Agrees s (readAlone u p s) (readAlone u p t) :=
  .getD (agrees_read? h u p) .pass

theorem agrees_readTrait (h : s.Ahead t) (p : PathSite) :
    Agrees s (readTrait p s) (readTrait p t) := by
  have hinputs : Agrees s (.enter Content.types.parts [.type (.result false)]) _ :=
    .enter _ h.nonempty rfl
  have hmark (hs : s.Has 2) : Agrees s (.takeAll 2 [.bound .call, .type (.result false)]) _ :=
    .takeAll hs rfl
  have hcall : Agrees s _ _ :=
    .ite (h.isGroup .paren) (fun _ => hinputs) <|
    .ite h.isPathMark (fun hs => hmark (h.has_of_shows hs)) .pass
  have hr := agrees_read? h .trait p
  simp only [readTrait.eq_def]
  generalize read? .trait p s = r, read? .trait p t = r' at hr
  cases hr with
  | some hr => exact hr
  | none =>
    cases p with
    | start | segment => exact hcall
    | behind x e =>
      cases e with
      | arguments => exact .pass
      | module | name => exact hcall

end Path

/-! ## Bounds -/

namespace BoundOwner

theorem ends_eq (h : s.Ahead t) (o : BoundOwner) : o.ends t = o.ends s := by
  cases o <;>
    simp (disch := decide) only [ends, h.shows, h.isEnd, h.isGroup, h.isColon, h.isWord,
      h.isAnyWord, h.isPathMark, h.isLifetime]

end BoundOwner

namespace BoundPart

theorem agrees_readRelaxed (h : s.Ahead t) (q : Bool) :
    Agrees s (readRelaxed q s) (readRelaxed q t) := by
  refine .ite_iff (by rw [h.isWord]) (fun _ => .take h rfl) fun _ => ?_
  refine (Path.agrees_readTrait h .start).andThen ?_
  cases q <;> rfl

theorem agrees_readConstant (h : s.Ahead t) (q : Bool) :
    Agrees s (readConstant q s) (readConstant q t) :=
  .ite (h.shows rfl) (fun _ => .take h rfl) (Path.agrees_readTrait h .start)

theorem agrees_readQuantified (h : s.Ahead t) (const q : Bool) :
    Agrees s (readQuantified const q s) (readQuantified const q t) := by
  refine .ite (h.isGroup .bracket) (fun _ => .enter _ h.nonempty ?_) <|
    .ite (h.isWord "const") (fun _ => .take h ?_) (agrees_readConstant h q)
  · cases const <;> rfl
  · cases const <;> rfl

theorem agrees_readTrait (h : s.Ahead t) (const : Bool) :
    Agrees s (readTrait const s) (readTrait const t) :=
  .ite (h.isWord "for") (fun _ => .take h rfl) (agrees_readQuantified h const false)

variable {o : BoundOwner} {seen : Bool}

theorem agrees_readBound (h : s.Ahead t) (ho : o.outside = true) :
    Agrees s (readBound o seen s) (readBound o seen t) := by
  have hbehind : ∀ seen, [Part.bound (.behind o seen)].all Part.outside = true := by
    simp [Part.outside, outside, ho]
  refine .ite h.isLifetime (fun hs => .takeAll (h.has_of_isLifetime hs) (hbehind _)) <|
    .ite (h.isWord "use") (fun _ => .take h ?_) <|
    .ite (h.isGroup .paren) (fun _ => .enter _ h.nonempty (hbehind true))
      ((agrees_readTrait h o.allowsConst).andThen (hbehind true))
  rw [List.all_append, hbehind, Bool.and_true]
  split <;> rfl

theorem agrees_finish (o : BoundOwner) (seen : Bool) :
    Agrees s (finish o seen) (finish o seen) := by
  rw [finish.eq_def]
  repeat' split
  all_goals first | exact .pass | exact .fail _ _

theorem agrees_readBehind (h : s.Ahead t) (ho : o.outside = true) :
    Agrees s (readBehind o seen s) (readBehind o seen t) := by
  have hfurther : [Part.bound (.optional o seen)].all Part.outside = true := by
    simp [Part.outside, outside, ho]
  cases o with
  | object plus | existential plus =>
    exact .ite_iff (by rw [h.shows rfl]) (fun _ => .take h hfurther) fun _ => agrees_finish _ seen
  | constraint | parameter | path => exact .ite (h.shows rfl) (fun _ => .take h hfurther) .pass
  | parentheses => exact .ite (h.shows rfl) (fun _ => .take h rfl) .pass
  | predicate | trait | declaration | synonym => cases ho

theorem agrees_readOptional (h : s.Ahead t) (ho : o.outside = true) :
    Agrees s (readOptional o seen s) (readOptional o seen t) :=
  .ite (o.ends_eq h) (fun _ => agrees_finish o seen) (agrees_readBound h ho)

theorem agrees_readCaptures (h : s.Ahead t) : Agrees s (readCaptures s) (readCaptures t) :=
  .ite h.isLifetime (fun hs => .takeAll (h.has_of_isLifetime hs) rfl) <|
    .ite_iff (by rw [h.isName, h.isWord]) (fun _ => .take h rfl) fun _ =>
    .ite (h.shows rfl) (fun _ => .take h rfl) (.fail _ _)

theorem agrees_readCaptureEnd (h : s.Ahead t) : Agrees s (readCaptureEnd s) (readCaptureEnd t) :=
  .ite (h.shows rfl) (fun _ => .take h rfl) <|
    .ite (h.shows rfl) (fun _ => .take h rfl) (.fail _ _)

theorem agrees_read (h : s.Ahead t) {p : BoundPart} (hp : p.outside = true) :
    Agrees s (p.read s) (p.read t) := by
  cases p with
  | bound o seen => exact agrees_readBound h hp
  | behind o seen => exact agrees_readBehind h hp
  | optional o seen => exact agrees_readOptional h hp
  | trait const => exact agrees_readTrait h const
  | quantified const => exact agrees_readQuantified h const true
  | constant q => exact agrees_readConstant h q
  | relaxed q => exact agrees_readRelaxed h q
  | call => exact Reading.agrees_group h _ _ rfl
  | captures => exact agrees_readCaptures h
  | captureEnd => exact agrees_readCaptureEnd h

theorem agrees_end {p : BoundPart} (hp : p.outside = true) :
    Agrees ⟨[], b⟩ (p.read ⟨[], b⟩) (p.read ⟨.mark ',' cs :: us, b⟩) := by
  cases p with
  | bound o seen => exact .fail _ _
  | behind o seen =>
    cases o with
    | object plus => cases plus <;> exact agrees_finish (.object true) seen
    | existential plus => cases plus <;> exact agrees_finish (.existential true) seen
    | constraint | parameter | path | parentheses => exact .pass
    | predicate | trait | declaration | synonym => cases hp
  | optional o seen =>
    cases o with
    | object => exact agrees_finish (.object true) seen
    | existential => exact agrees_finish (.existential true) seen
    | parameter | path => exact .pass
    | constraint | parentheses => exact .fail _ _
    | predicate | trait | declaration | synonym => cases hp
  | relaxed q => cases q <;> exact .fail _ _
  | trait | quantified | constant | call | captures | captureEnd => exact .fail _ _

end BoundPart

/-! ## Types -/

namespace TypePart

theorem agrees_readLinkage (h : s.Ahead t) {ps : List Part} (hps : ps.all Part.outside = true) :
    Agrees s (readLinkage ps s) (readLinkage ps t) := by
  rw [readLinkage, readLinkage, h.next.isText]
  split
  · next hs => exact .takeAll (.of_skip (Sight.has_of_isText hs)) hps
  · exact .take h hps

theorem agrees_readFunctionHead (h : s.Ahead t) (linkage : Bool) :
    Agrees s (readFunctionHead linkage s) (readFunctionHead linkage t) :=
  .ite_iff (by rw [h.isWord]) (fun _ => agrees_readLinkage h rfl)
    fun _ => Reading.agrees_keyword h "fn" rfl

theorem agrees_readFunction (h : s.Ahead t) : Agrees s (readFunction s) (readFunction t) :=
  .ite (h.isWord "unsafe") (fun _ => .take h rfl) <|
    .ite_iff (by rw [h.isWord, h.isWord]) (fun _ => agrees_readFunctionHead h true) fun _ => .pass

theorem agrees_readResult (h : s.Ahead t) (plus : Bool) :
    Agrees s (readResult plus s) (readResult plus t) :=
  .ite (h.shows rfl) (fun hs => .takeAll (h.has_of_shows hs) rfl) .pass

theorem agrees_readParentheses (h : s.Ahead t) (plus : Bool) (body : List Token) :
    Agrees s (readParentheses plus body) (readParentheses plus body) := by
  refine .ite rfl (fun _ => .take h rfl) <| .ite rfl (fun _ => .enter _ h.nonempty rfl) <|
    .ite rfl (fun _ => .enter _ h.nonempty rfl) (.enter _ h.nonempty ?_)
  split <;> rfl

theorem agrees_readRelative (h : s.Ahead t) (u : PathUse) :
    Agrees s (readRelative u s) (readRelative u t) := by
  obtain ⟨v, w, ts, us, hs, ht, hvw⟩ := h.tokens_cases
  rw [readRelative, readRelative, hs, ht]
  cases hvw with
  | word w => exact .take h rfl
  | mark | literal | group => exact .pass

theorem agrees_readQuantified (h : s.Ahead t) (plus : Bool) :
    Agrees s (readQuantified plus s) (readQuantified plus t) :=
  .ite h.isSegment (fun _ => agrees_readRelative h _) ((agrees_readFunction h).orElse (.fail _ _))

theorem isBuiltin_eq (h : s.Ahead t) : isBuiltin t = isBuiltin s := by
  rw [isBuiltin, isBuiltin, h.isWord, h.next.shows rfl]

theorem agrees_readBuiltin (h : s.Ahead t) (hs : isBuiltin s = true) :
    Agrees s (readBuiltin []) (readBuiltin []) := by
  rw [isBuiltin, Bool.and_eq_true] at hs
  exact .takeAll (.of_skip (h.next.has_of_shows hs.2)) rfl

theorem agrees_readPlain (h : s.Ahead t) (plus : Bool) :
    Agrees s (readPlain plus s) (readPlain plus t) := by
  have hreference : Agrees s
      (.takeAll (if (s.skip 1).isLifetime then 3 else 1) [.type .reference])
      (.takeAll (if (t.skip 1).isLifetime then 3 else 1) [.type .reference]) := by
    rw [h.next.isLifetime]
    split
    · next hs => exact .takeAll (.of_skip (h.next.has_of_isLifetime hs)) rfl
    · exact .take h rfl
  exact
    .ite (h.isWord "for") (fun _ => .take h rfl) <|
    .ite (h.isWord "dyn") (fun _ => .take h rfl) <|
    .ite (h.isWord "impl") (fun _ => .take h rfl) <|
    .ite_iff (by rw [h.isWord, h.shows rfl]) (fun _ => .take h rfl) fun _ =>
    .ite (h.shows rfl) (fun _ => .take h rfl) <|
    .ite (h.shows rfl) (fun _ => hreference) <|
    .ite h.isLifetime (fun _ => BoundPart.agrees_readBound h rfl) <|
    (agrees_readFunction h).orElse (.fail _ _)

theorem agrees_readStart (h : s.Ahead t) (plus binding : Bool) :
    Agrees s (readStart plus binding s) (readStart plus binding t) := by
  have habsolute (hs : s.Has 2) :
      Agrees s (.takeAll 2 [.path (.type plus binding) (.segment .absolute)]) _ :=
    .takeAll hs rfl
  have hqualified :
      Agrees s (.take [.type (.start true false), .type (.qualifier (.type plus false))]) _ :=
    .take h rfl
  have hangle : t.shows ['<'] = s.shows ['<'] := h.shows rfl
  have hpath : Agrees s _ _ :=
    .ite (isBuiltin_eq h) (fun hs => agrees_readBuiltin h hs) <|
    .ite h.isSegment (fun _ => agrees_readRelative h (.type plus binding)) <|
    .ite h.isPathMark (fun hs => habsolute (h.has_of_shows hs)) <|
    .ite hangle (fun _ => hqualified) (agrees_readPlain h plus)
  obtain ⟨u, v, ts, us, hs, ht, huv⟩ := h.tokens_cases
  rw [readStart, readStart, hs, ht]
  cases huv with
  | word | mark | literal => exact hpath
  | group d body =>
    cases d with
    | paren => exact agrees_readParentheses h plus body
    | bracket => exact .enter _ h.nonempty rfl
    | brace | none => exact hpath

theorem agrees_readQualifier (h : s.Ahead t) (u : PathUse) :
    Agrees s (readQualifier u s) (readQualifier u t) :=
  .ite (h.isWord "as") (fun _ => .take h rfl) (Reading.agrees_marks h rfl rfl)

theorem agrees_readPath (h : s.Ahead t) (plus binding : Bool) (p : PathSite) :
    Agrees s (readPath plus binding p s) (readPath plus binding p t) := by
  have hr := Path.agrees_read? h (.type plus binding) p
  rw [readPath, readPath]
  generalize Path.read? _ p s = r, Path.read? _ p t = r' at hr
  cases hr with
  | some hr => exact hr
  | none =>
    exact
      .ite rfl (fun _ => .pass) <|
      .ite_iff (by rw [h.isBang]) (fun _ => .take h rfl) fun _ =>
      .ite_iff (by rw [h.shows rfl]) (fun _ => .take h rfl) fun _ =>
      .ite_iff (by rw [h.shows rfl]) (fun _ => .take h rfl) fun _ =>
      .ite_iff (by rw [h.shows rfl]) (fun _ => .take h rfl) fun _ => .pass

theorem agrees_readValue (h : s.Ahead t) : Agrees s (readValue s) (readValue t) :=
  .ite h.isLiteral (fun _ => Reading.agrees_literal h rfl) <|
    .ite (h.isGroup .brace) (fun _ => Reading.agrees_group h _ _ rfl)
      (agrees_readStart h true false)

theorem agrees_readArgument (h : s.Ahead t) : Agrees s (readArgument s) (readArgument t) := by
  refine .ite_iff ?_ (fun hs => .takeAll (h.has_of_isLifetime hs.1) rfl) fun _ =>
    .ite h.isLiteral (fun _ => Reading.agrees_literal h rfl) <|
    .ite (h.isGroup .brace) (fun _ => Reading.agrees_group h _ _ rfl) (agrees_readStart h true true)
  rw [h.isLifetime]
  refine and_congr_right fun hs => ?_
  rw [(h.skip (h.has_of_isLifetime hs)).shows rfl]

theorem agrees_readArguments (h : s.Ahead t) : Agrees s (readArguments s) (readArguments t) :=
  .ite (h.shows rfl) (fun _ => .take h rfl) ((agrees_readArgument h).andThen rfl)

theorem agrees_readArgumentEnd (h : s.Ahead t) :
    Agrees s (readArgumentEnd s) (readArgumentEnd t) :=
  .ite (h.shows rfl) (fun _ => .take h rfl) (Reading.agrees_marks h rfl rfl)

theorem agrees_read (h : s.Ahead t) {p : TypePart} (hp : p.outside = true) :
    Agrees s (p.read s) (p.read t) := by
  cases p with
  | start plus binding => exact agrees_readStart h plus binding
  | quantified plus => exact agrees_readQuantified h plus
  | qualifier u => exact agrees_readQualifier h u
  | arguments => exact agrees_readArguments h
  | argumentEnd => exact agrees_readArgumentEnd h
  | value => exact agrees_readValue h
  | functionHead linkage => exact agrees_readFunctionHead h linkage
  | result plus => exact agrees_readResult h plus
  | pointee =>
    exact .ite_iff (by rw [h.isWord, h.isWord]) (fun _ => .take h rfl) fun _ => .fail _ _
  | reference => exact .ite (h.isWord "mut") (fun _ => .take h rfl) (agrees_readStart h false false)
  | dynamic plus =>
    exact .ite (h.shows rfl) (fun _ => .take h rfl) (BoundPart.agrees_readBound h rfl)
  | parameter | parameterEnd | tupleEnd | elementEnd => cases hp

theorem agrees_end {p : TypePart} (hp : p.outside = true) :
    Agrees ⟨[], b⟩ (p.read ⟨[], b⟩) (p.read ⟨.mark ',' cs :: us, b⟩) := by
  cases p with
  | result => exact .pass
  | functionHead linkage => cases linkage <;> exact .fail _ _
  | parameter | parameterEnd | tupleEnd | elementEnd => cases hp
  | _ => exact .fail _ _

end TypePart

/-! ## Generic parameters -/

namespace GenericPart

theorem agrees_readLifetimeBound (h : s.Ahead t) :
    Agrees s (readLifetimeBound false s) (readLifetimeBound false t) := by
  refine .ite ?_ (fun _ => .pass) (Reading.agrees_lifetime h rfl)
  simp (disch := decide) only [endsLifetimeBounds, Bool.false_eq_true, if_false, h.shows]

theorem agrees_readParameter (h : s.Ahead t) (binder : Bool) :
    Agrees s (readParameter binder s) (readParameter binder t) :=
  .ite (h.shows rfl) (fun _ => .take h rfl) <|
    .ite h.isLifetime (fun hs => .takeAll (h.has_of_isLifetime hs) rfl) <|
    .ite h.isName (fun _ => .take h rfl) <|
    .ite (h.isWord "const") (fun _ => .take h rfl) <|
    .ite_iff (by rw [h.isWord]) (fun _ => .take h rfl) fun _ => .fail _ _

theorem agrees_readList (h : s.Ahead t) (binder : Bool) :
    Agrees s (readList binder s) (readList binder t) :=
  .ite (h.shows rfl) (fun _ => .take h rfl) (agrees_readParameter h binder)

theorem agrees_readParameterEnd (h : s.Ahead t) (binder : Bool) :
    Agrees s (readParameterEnd binder s) (readParameterEnd binder t) :=
  .ite (h.shows rfl) (fun _ => .take h rfl) (Reading.agrees_marks h rfl rfl)

theorem agrees_readConstant (h : s.Ahead t) : Agrees s (readConstant s) (readConstant t) :=
  .ite h.isLiteral (fun _ => Reading.agrees_literal h rfl) <|
    .ite h.isName (fun _ => .take h rfl) <|
    .ite (h.isGroup .brace) (fun _ => Reading.agrees_group h _ _ rfl) (.fail _ _)

theorem agrees_read (h : s.Ahead t) {p : GenericPart} (hp : p.outside = true) :
    Agrees s (p.read s) (p.read t) := by
  cases p with
  | list binder => exact agrees_readList h binder
  | parameter binder => exact agrees_readParameter h binder
  | parameterEnd binder => exact agrees_readParameterEnd h binder
  | bounds o =>
    have ho : [Part.bound (.optional o true)].all Part.outside = true := by
      rw [List.all_cons, List.all_nil, Bool.and_true]
      exact hp
    exact .ite (h.shows rfl) (fun _ => .take h ho) .pass
  | typeDefault | lifetimeBounds | constantDefault =>
    exact .ite (h.shows rfl) (fun _ => .take h rfl) .pass
  | lifetimeBound inClause =>
    cases inClause with
    | false => exact agrees_readLifetimeBound h
    | true => cases hp
  | lifetimeBoundEnd inClause =>
    cases inClause with
    | false => exact .ite (h.shows rfl) (fun _ => .take h rfl) .pass
    | true => cases hp
  | constant => exact agrees_readConstant h
  | optional | clause | clauseStart | predicates | predicateEnd => cases hp

theorem agrees_end {p : GenericPart} (hp : p.outside = true) :
    Agrees ⟨[], b⟩ (p.read ⟨[], b⟩) (p.read ⟨.mark ',' cs :: us, b⟩) := by
  cases p with
  | bounds | typeDefault | lifetimeBounds | constantDefault | lifetimeBoundEnd => exact .pass
  | lifetimeBound inClause =>
    cases inClause with
    | false => exact .fail _ _
    | true => cases hp
  | list binder | parameter binder => cases binder <;> exact .fail _ _
  | parameterEnd | constant => exact .fail _ _
  | optional | clause | clauseStart | predicates | predicateEnd => cases hp

end GenericPart

/-! ## Patterns -/

namespace PatternPart

theorem endsRange_eq (h : s.Ahead t) : endsRange t = endsRange s := by
  simp (disch := decide) only [endsRange, h.isEnd, h.shows, h.isColon, h.isWord]

theorem agrees_readOpenRange (h : s.Ahead t) : Agrees s (readOpenRange s) (readOpenRange t) :=
  .ite h.isAlternative (fun _ => .pass) (.fail _ _)

theorem agrees_readBound (h : s.Ahead t) {ps : List Part} (hps : ps.all Part.outside = true) :
    Agrees s (readBound ps s) (readBound ps t) := by
  have hbehind : ∀ p : Part, p.outside = true → (p :: ps).all Part.outside = true := by
    intro p hp
    rw [List.all_cons, hp, hps, Bool.and_self]
  exact
    .ite h.isLiteral (fun _ => Reading.agrees_literal h hps) <|
    .ite h.isSegment (fun _ => (TypePart.agrees_readRelative h .limit).andThen hps) <|
    .ite h.isPathMark (fun hs => .takeAll (h.has_of_shows hs) (hbehind _ rfl)) <|
    .ite (h.shows rfl) (fun _ => .take h (by rw [List.all_append, hps]; rfl)) <|
    .ite (h.isWord "const") (fun _ => .take h (hbehind _ rfl)) (.fail _ _)

theorem agrees_readRange (h : s.Ahead t) (inSlice : Bool) :
    Agrees s (readRange inSlice s) (readRange inSlice t) :=
  .ite_iff (by rw [h.shows rfl, h.shows rfl])
    (fun hs => .takeAll (hs.elim h.has_of_shows h.has_of_shows) rfl) fun _ =>
    .ite (h.shows rfl) (fun hs => .takeAll (h.has_of_shows hs) rfl) .pass

theorem agrees_readLimit (h : s.Ahead t) (closed start inSlice : Bool) :
    Agrees s (readLimit closed start inSlice s) (readLimit closed start inSlice t) := by
  refine .ite (endsRange_eq h) (fun _ => .ite rfl (fun _ => .fail _ _) <|
    .ite_iff .rfl (fun _ => agrees_readOpenRange h) fun _ => .pass) (agrees_readBound h ?_)
  split <;> rfl

theorem agrees_readPath (h : s.Ahead t) (inSlice : Bool) (p : PathSite) :
    Agrees s (readPath inSlice p s) (readPath inSlice p t) := by
  have hr := Path.agrees_read? h (.pattern inSlice) p
  rw [readPath, readPath]
  generalize Path.read? _ p s = r, Path.read? _ p t = r' at hr
  cases hr with
  | some hr => exact hr
  | none =>
    exact
      .ite_iff (by rw [h.isBang]) (fun _ => .take h rfl) fun _ =>
      .ite (h.isGroup .brace) (fun _ => .enter _ h.nonempty rfl) <|
      .ite (h.isGroup .paren) (fun _ => .enter _ h.nonempty rfl) (agrees_readRange h inSlice)

theorem agrees_readName (h : s.Ahead t) (inSlice : Bool) :
    Agrees s (readName inSlice s) (readName inSlice t) :=
  .ite_iff (by rw [h.isName, h.isWord, h.next.shows rfl])
    (fun hs => .takeAll (.of_skip (h.next.has_of_shows hs.2)) rfl) fun _ =>
    .ite_iff (by rw [h.isWord, h.next.isPathMark]) (fun _ => .take h rfl) fun _ =>
    TypePart.agrees_readRelative h _

theorem agrees_readBinding (h : s.Ahead t) : Agrees s (readBinding s) (readBinding t) :=
  .ite (h.isWord "self") (fun _ => .take h rfl) (Reading.agrees_name h rfl)

theorem agrees_readSingle (h : s.Ahead t) (inSlice : Bool) :
    Agrees s (readSingle inSlice s) (readSingle inSlice t) :=
  .ite h.isSegment (fun _ => agrees_readName h inSlice) <|
    .ite h.isPathMark (fun hs => .takeAll (h.has_of_shows hs) rfl) <|
    .ite (h.shows rfl) (fun _ => .take h rfl) <|
    .ite (h.isWord "_") (fun _ => .take h rfl) <|
    .ite (h.isWord "box") (fun _ => .take h rfl) <|
    .ite_iff (by rw [h.isLiteral, h.shows rfl, h.isWord]) (fun _ => agrees_readBound h rfl) fun _ =>
    .ite (h.isWord "ref") (fun _ => .take h rfl) <|
    .ite (h.isWord "mut") (fun _ => .take h rfl) <|
    .ite (h.shows rfl) (fun _ => .take h rfl) <|
    .ite (h.isGroup .paren) (fun _ => .enter _ h.nonempty rfl) <|
    .ite (h.isGroup .bracket) (fun _ => .enter _ h.nonempty rfl) <|
    .ite (h.shows rfl) (fun hs => .takeAll (h.has_of_shows hs) rfl) <|
    .ite_iff (by rw [h.shows rfl, h.shows rfl])
      (fun hs => .takeAll (h.has_of_shows hs.1) rfl) fun _ => .fail _ _

theorem agrees_readChoice (h : s.Ahead t) (inSlice : Bool) :
    Agrees s (readChoice inSlice s) (readChoice inSlice t) :=
  .ite (h.shows rfl) (fun _ => .take h rfl) ((agrees_readSingle h inSlice).andThen rfl)

theorem agrees_read (h : s.Ahead t) {p : PatternPart} (hp : p.outside = true) :
    Agrees s (p.read s) (p.read t) := by
  cases p with
  | single inSlice => exact agrees_readSingle h inSlice
  | choice inSlice => exact agrees_readChoice h inSlice
  | alternatives => exact .ite h.isAlternative (fun _ => .take h rfl) .pass
  | reference => exact .ite (h.isWord "mut") (fun _ => .take h rfl) (agrees_readBinding h)
  | binding => exact agrees_readBinding h
  | subpattern => exact .ite (h.shows rfl) (fun _ => .take h rfl) .pass
  | pointer => exact .ite (h.isWord "mut") (fun _ => .take h rfl) (agrees_readSingle h false)
  | rangeEnd inSlice => exact agrees_readRange h inSlice
  | limit closed start inSlice => exact agrees_readLimit h closed start inSlice
  | openRange => exact agrees_readOpenRange h
  | fieldWords | fieldName => cases hp

theorem agrees_end {p : PatternPart} (hp : p.outside = true) :
    Agrees ⟨[], b⟩ (p.read ⟨[], b⟩) (p.read ⟨.mark ',' cs :: us, b⟩) := by
  cases p with
  | alternatives | subpattern | rangeEnd => exact .pass
  | limit closed start inSlice =>
    cases closed <;> cases start <;> cases inSlice <;> first | exact .pass | exact .fail _ _
  | fieldWords | fieldName => cases hp
  | _ => exact .fail _ _

end PatternPart

end ObjectPath.Derive.Grammar
