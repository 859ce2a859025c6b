import ObjectPath.Derive.Grammar.Parsers
import ObjectPath.Proofs.Operands

/-!
# The grammar keeps to what is assumed of parsers

What a reader takes by itself as a whole, it takes in front of a comma, too, and ends at the comma
(`Reader.reads_comma`).  So what the grammar gives are parsers that stop at commas
(`parser_stopsAtCommas`), and its paths do not start with a name and a point (`parser_givesPaths`).
-/

namespace ObjectPath.Derive.Grammar

open Reading (Agrees)

variable {s t : Sight}

namespace Part

theorem agrees_read (h : s.Ahead t) {p : Part} (hp : p.outside = true) :
    Agrees s (p.read s) (p.read t) := by
  cases p with
  | marks ms =>
    cases ms with
    | nil => cases hp
    | cons m ms => exact Reading.agrees_marks h (by simpa [outside] using hp) rfl
  | keyword w => exact Reading.agrees_keyword h w rfl
  | name => exact Reading.agrees_name h rfl
  | anything d => exact .ite (h.isGroup d) (fun _ => .take h rfl) (.fail _ _)
  | macroArguments => exact Reading.agrees_macroArguments h rfl
  | group c => exact Reading.agrees_group h _ _ rfl
  | reject f => exact .fail f _
  | path u p =>
    cases u with
    | plain | limit => exact Path.agrees_readAlone h _ p
    | trait => exact Path.agrees_readTrait h p
    | type plus binding => exact TypePart.agrees_readPath h plus binding p
    | pattern inSlice => exact PatternPart.agrees_readPath h inSlice p
    | operand records => exact ExpressionPart.agrees_readPath h records p
  | «attribute» p =>
    obtain rfl : p = .brackets := by simpa [outside] using hp
    exact Reading.agrees_group h _ _ rfl
  | bound p => exact BoundPart.agrees_read h hp
  | type p => exact TypePart.agrees_read h hp
  | generic p => exact GenericPart.agrees_read h hp
  | pattern p => exact PatternPart.agrees_read h hp
  | expression p => exact ExpressionPart.agrees_read h hp
  | further | optionalWord | nameOr | optionalComma | elements | element | comma | attributes
  | barePath | statement | item => cases hp

/-- Where the tokens end, a part is empty or at fault; in the former case it is empty at a comma. -/
theorem agrees_end {p : Part} {cs : List Char} {us : List Token} {b : Bool}
    (hp : p.outside = true) :
    Agrees ⟨[], b⟩ (p.read ⟨[], b⟩) (p.read ⟨.mark ',' cs :: us, b⟩) := by
  cases p with
  | marks ms =>
    cases ms with
    | nil => cases hp
    | cons => exact .fail _ _
  | path u p =>
    cases p with
    | start | segment => cases u <;> exact .fail _ _
    | behind x e =>
      have hread : ∀ t : Sight, t = ⟨[], b⟩ ∨ t = ⟨.mark ',' cs :: us, b⟩ →
          (Part.path u (.behind x e)).read t = .pass := by
        rintro t (rfl | rfl) <;> cases u <;> cases e <;>
          simp [read, Path.readAlone, Path.readTrait, TypePart.readPath, PatternPart.readPath,
            ExpressionPart.readPath, Path.read?, Path.startsArguments, PatternPart.readRange,
            Sight.isPathMark, Sight.shows, Sight.isBang, Sight.isGroup]
      rw [hread _ (.inl rfl), hread _ (.inr rfl)]
      exact .pass
  | «attribute» p =>
    obtain rfl : p = .brackets := by simpa [outside] using hp
    exact .fail _ _
  | bound p => exact BoundPart.agrees_end hp
  | type p => exact TypePart.agrees_end hp
  | generic p => exact GenericPart.agrees_end hp
  | pattern p => exact PatternPart.agrees_end hp
  | expression p => exact ExpressionPart.agrees_end hp
  | keyword | name | anything | macroArguments | group | reject => exact .fail _ _
  | further | optionalWord | nameOr | optionalComma | elements | element | comma | attributes
  | barePath | statement | item => cases hp

theorem agrees (h : s.Before t) (hb : t.behindBraces = s.behindBraces) {p : Part}
    (hp : p.outside = true) : Agrees s (p.read s) (p.read t) := by
  obtain hnil | h := h.eq_nil_or_ahead
  · obtain ⟨ts, b⟩ := s
    obtain ⟨us, b'⟩ := t
    obtain rfl : ts = [] := hnil
    obtain rfl : b' = b := hb
    cases h.tokens with
    | comma cs us => exact agrees_end hp
  · exact agrees_read h hp

end Part

/-! ## Lists of parts -/

theorem readParts_cons (p : Part) (ps : List Part) (t : Sight) :
    readParts (p :: ps) t = ((p.read t).andThen ps).orElse (readParts ps t) := by
  rw [readParts]
  cases p.read t <;> rfl

theorem agrees_readParts (h : s.Before t) (hb : t.behindBraces = s.behindBraces) {ps : List Part}
    (hps : ps.all Part.outside = true) : Agrees s (readParts ps s) (readParts ps t) := by
  induction ps with
  | nil => exact .pass
  | cons p ps ih =>
    rw [List.all_cons, Bool.and_eq_true] at hps
    rw [readParts_cons, readParts_cons]
    exact ((Part.agrees h hb hps.1).andThen hps.2).orElse (ih hps.2)

/-- Parts that may stand outside brackets, behind some tokens that were seen already. -/
def Outside (ps : List Part) (n : Nat) : Prop :=
  ∃ k qs, ps = List.replicate k .further ++ qs ∧ qs.all Part.outside = true ∧ k ≤ n

theorem Outside.agrees_readParts {ps : List Part} (hps : Outside ps s.tokens.length)
    (h : s.Before t) (hb : t.behindBraces = s.behindBraces) :
    Agrees s (readParts ps s) (readParts ps t) := by
  obtain ⟨k, qs, rfl, hqs, hk⟩ := hps
  cases k with
  | zero => exact Grammar.agrees_readParts h hb hqs
  | succ k =>
    obtain ⟨ts, b⟩ := s
    obtain ⟨us, b'⟩ := t
    cases h.tokens with
    | comma => cases hk
    | cons => exact .some k hk hqs

/-! ## Readers -/

namespace Reader

/-- Whether a reader ends in front of some tokens. -/
def endsAt (r : Reader) : List Token → Bool
  | [] => r.finish.isNone
  | t :: ts =>
    match r.step t ts with
    | .stop => true
    | .next _ | .fail _ => false

/-- Whether a reader takes some tokens that others stand behind, and ends in front of these with
nothing left over. -/
def reads (behind : List Token) (r : Reader) : List Token → Bool
  | [] => r.leftover.isNone && r.endsAt behind
  | t :: ts =>
    match r.step t (ts ++ behind) with
    | .next r => r.reads behind ts
    | .stop | .fail _ => false

variable {r : Reader} {behind ts us : List Token} {t : Token} {cs : List Char}

theorem reads_cons (h : r.reads behind (t :: ts) = true) :
    ∃ r', r.step t (ts ++ behind) = .next r' ∧ r'.reads behind ts = true := by
  simp only [reads] at h
  cases hstep : r.step t (ts ++ behind) with
  | next r' =>
    rw [hstep] at h
    exact ⟨r', rfl, h⟩
  | stop | fail f =>
    rw [hstep] at h
    cases h

theorem reads_end (h : r.reads [] [] = true) : r.leftover = none ∧ r.finish = none := by
  simpa [reads, endsAt] using h

theorem reads_stop (h : r.reads (t :: us) [] = true) : r.leftover = none ∧ r.step t us = .stop := by
  simp only [reads, endsAt, Bool.and_eq_true, Option.isNone_iff_eq_none] at h
  refine ⟨h.1, ?_⟩
  cases hstep : r.step t us with
  | stop => rfl
  | next r' | fail f =>
    rw [hstep] at h
    cases h.2

/-- Behind a `for` that may not start a parameter, the tokens cannot be read. -/
theorem not_reads_loose {r : Reader} {ps : List Part} {t : Token} {ts : List Token} {b : Bool}
    (hs : Sight.LooseFor ⟨t :: ts, b⟩) (hparts : r.parts = ExpressionPart.loopParts ++ ps) :
    r.reads [] ts = false := by
  obtain ⟨qs, l, b'⟩ := r
  obtain rfl : qs = _ := hparts
  obtain ⟨cs, w, ⟨hts, hw⟩ | ⟨ds, hts⟩⟩ := hs
  · cases hts
    let qs : List Part := .type (.qualifier (.pattern false)) :: .pattern .alternatives ::
      .keyword "in" :: ExpressionPart.head :: ExpressionPart.body :: ps
    have hangle : step ⟨ExpressionPart.loopParts ++ ps, l, b'⟩ (.mark '<' cs) [.word w] =
        .next ⟨.type (.start true false) :: qs, l, false⟩ := rfl
    have hword : step ⟨.type (.start true false) :: qs, l, false⟩ (.word w) [] =
        .next ⟨.path (.type true false) (.behind .relative (Path.wordEnd w)) :: qs, l, false⟩ := by
      simp [step, move, readParts, Part.read, TypePart.read, TypePart.readStart, TypePart.isBuiltin,
        Sight.isSegment, hw, Sight.skip, Sight.shows, TypePart.readRelative, Reading.andThen]
    have hend : endsAt
        ⟨.path (.type true false) (.behind .relative (Path.wordEnd w)) :: qs, l, false⟩ [] =
          false := by
      simp [qs, endsAt, finish, readParts, Part.read, TypePart.readPath, Path.read?,
        Path.startsArguments, TypePart.read, TypePart.readQualifier, Sight.isPathMark, Sight.shows,
        Sight.isWord, Sight.isBang, Reading.marks, Reading.andThen]
    simp only [reads, List.append_nil, hangle, hword, hend, Bool.and_false]
  · cases hts
    cases l <;> rfl

/-- A token that is read is read the same way in front of a comma. -/
theorem step_comma {r r' : Reader} {t u : Token} {ts us : List Token}
    (h : Sight.Before ⟨t :: ts, r.behindBraces⟩ ⟨u :: us, r.behindBraces⟩)
    (hmeets : Token.Meets t u) (hparts : Outside r.parts (ts.length + 1))
    (hstep : r.step t ts = .next r') (hreads : r'.reads [] ts = true) :
    r.step u us = .next r' ∧ Outside r'.parts ts.length := by
  have hread := hparts.agrees_readParts h rfl
  have hloose (ps : List Part) (hs : Sight.LooseFor ⟨t :: ts, r.behindBraces⟩) :
      r'.parts ≠ ExpressionPart.loopParts ++ ps := by
    intro hps
    rw [not_reads_loose hs hps] at hreads
    cases hreads
  cases hmeets with
  | word | mark | literal =>
    simp only [step, move] at hstep ⊢
    generalize readParts r.parts ⟨_ :: ts, _⟩ = R, readParts r.parts ⟨_ :: us, _⟩ = R'
      at hread hstep ⊢
    cases hread with
    | some k hk hps =>
      cases hstep
      exact ⟨rfl, k, _, rfl, hps, Nat.le_of_succ_le_succ hk⟩
    | loose ps R' hs =>
      cases hstep
      exact absurd rfl (hloose ps hs)
    | enter | pass | fail => cases hstep
  | group d body =>
    simp only [step] at hstep ⊢
    generalize readParts r.parts ⟨_ :: ts, _⟩ = R, readParts r.parts ⟨_ :: us, _⟩ = R'
      at hread hstep ⊢
    cases hread with
    | some k hk hps =>
      cases hstep
      exact ⟨rfl, k, _, rfl, hps, Nat.le_of_succ_le_succ hk⟩
    | enter inside hs hps =>
      refine ⟨hstep, 0, _, ?_, hps, Nat.zero_le _⟩
      dsimp only at hstep
      split at hstep
      · cases hstep
        rfl
      · cases hstep
    | loose ps R' hs =>
      cases hstep
      exact absurd rfl (hloose ps hs)
    | pass | fail => cases hstep

/-- Tokens that are read by themselves are read in front of a comma. -/
theorem reads_comma {r : Reader} {ts us : List Token} (hmeets : List.Forall₂ Token.Meets ts us)
    (hcoherent : Token.Coherent ts) (hparts : Outside r.parts ts.length) (h : r.reads [] ts = true)
    (cs : List Char) (vs : List Token) : r.reads (.mark ',' cs :: vs) us = true := by
  induction hmeets generalizing r with
  | nil =>
    obtain ⟨hleftover, hfinish⟩ := reads_end h
    have hbefore : Sight.Before ⟨[], r.behindBraces⟩ ⟨.mark ',' cs :: vs, r.behindBraces⟩ :=
      ⟨.comma cs vs, hcoherent⟩
    have hread := hparts.agrees_readParts hbefore rfl
    simp only [reads, endsAt, step, move, finish, hleftover] at hfinish ⊢
    generalize readParts _ (⟨[], _⟩ : Sight) = R, readParts _ (⟨.mark ',' cs :: vs, _⟩ : Sight) = R'
      at hread hfinish ⊢
    cases hread with
    | pass => rfl
    | some k hk => cases hk
    | enter inside hk => cases hk
    | fail f => cases hfinish
    | loose ps R' hs => obtain ⟨cs, w, ⟨hts, -⟩ | ⟨ds, hts⟩⟩ := hs <;> cases hts
  | @cons t u ts us hmeet hmeets ih =>
    obtain ⟨r', hstep, hreads⟩ := reads_cons h
    rw [List.append_nil] at hstep
    have hbefore : Sight.Before ⟨t :: ts, r.behindBraces⟩
        ⟨u :: (us ++ .mark ',' cs :: vs), r.behindBraces⟩ :=
      ⟨.of_meets (.cons hmeet hmeets) cs vs, hcoherent⟩
    obtain ⟨hstep, hparts⟩ := step_comma hbefore hmeet hparts hstep hreads
    rw [reads, hstep]
    exact ih hcoherent.tail hparts hreads

end Reader

/-! ## Parsers -/

namespace Reader

variable {r : Reader} {taken behind ts us : List Token}

/-- What is read is taken. -/
theorem takeFrom_of_reads (h : r.reads behind ts = true) (taken : List Token) :
    r.takeFrom taken (ts ++ behind) = .ok (taken.reverse ++ ts, behind, none) := by
  induction ts generalizing r taken with
  | nil =>
    cases behind with
    | nil =>
      obtain ⟨hleftover, hfinish⟩ := reads_end h
      simp [takeFrom, hfinish, hleftover]
    | cons t behind =>
      obtain ⟨hleftover, hstep⟩ := reads_stop h
      simp [takeFrom, hstep, hleftover]
  | cons t ts ih =>
    obtain ⟨r', hstep, h⟩ := reads_cons h
    simp [takeFrom, hstep, ih h]

/-- What is taken as a whole is read. -/
theorem reads_of_takeFrom (h : r.takeFrom taken ts = .ok (us, [], none)) :
    us = taken.reverse ++ ts ∧ r.reads [] ts = true := by
  induction ts generalizing r taken with
  | nil =>
    rw [takeFrom] at h
    cases hfinish : r.finish with
    | some f => rw [hfinish] at h; cases h
    | none =>
      rw [hfinish] at h
      obtain ⟨rfl, hleftover⟩ : taken.reverse = us ∧ r.leftover = none := by simpa using h
      exact ⟨(List.append_nil _).symm, by simp [reads, endsAt, hfinish, hleftover]⟩
  | cons t ts ih =>
    rw [takeFrom] at h
    cases hstep : r.step t ts with
    | next r' =>
      rw [hstep] at h
      obtain ⟨rfl, hreads⟩ := ih h
      refine ⟨by simp, ?_⟩
      rw [reads, List.append_nil, hstep]
      exact hreads
    | stop | fail f => rw [hstep] at h; cases h

end Reader

/-- What the grammar reads as a whole it reads in front of a comma. -/
theorem parser_stopsAtCommas {ps : List Part} (hps : ps.all Part.outside = true) :
    (parser ps).StopsAtCommas := by
  intro ts us value cs hts h
  simp only [parser] at h ⊢
  cases htake : (Reader.start ps none).takeFrom [] (Token.cut ts) with
  | error f => rw [htake] at h; cases h
  | ok x =>
    obtain ⟨taken, rest, leftover⟩ := x
    rw [htake] at h
    obtain ⟨⟨rfl⟩, rfl, rfl⟩ : Token.cut taken = value ∧ rest = [] ∧ leftover = none := by
      simpa using h
    obtain ⟨rfl, hreads⟩ := Reader.reads_of_takeFrom htake
    have hcomma := Reader.reads_comma hts.meets_cut hts.cut ⟨0, ps, rfl, hps, Nat.zero_le _⟩
      hreads cs us
    rw [Reader.takeFrom_of_reads hcomma]
    simp

/-! ## Paths -/

/-- A reader has read tokens from the start of a path: behind the first word it expects no point. -/
structure Reader.Begun (r : Reader) (ts : List Token) : Prop where
  like : ∀ w cs us, ts ≠ .word w :: .mark '.' cs :: us
  start : ts = [] → r.parts = path
  word : ∀ w, ts = [.word w] → r.parts = [.path .plain (.behind .relative (Path.wordEnd w))]

namespace Reader

variable {r r' : Reader} {t : Token} {taken ts us rest : List Token} {l : Option Delimiter}

/-- A path goes on behind its first word with another mark than a point. -/
theorem step_point {e : PathEnd} (h : r.parts = [.path .plain (.behind .relative e)])
    (cs : List Char) (us : List Token) : r.step (.mark '.' cs) us = .stop := by
  have hread : readParts r.parts ⟨.mark '.' cs :: us, r.behindBraces⟩ = .pass := by
    rw [h]
    cases e <;> rfl
  rw [step, move, hread]

theorem parts_of_step_word {w : String} (hr : r.parts = path)
    (h : r.step (.word w) us = .next r') :
    r'.parts = [.path .plain (.behind .relative (Path.wordEnd w))] := by
  have hread : (Part.path .plain .start).read ⟨.word w :: us, r.behindBraces⟩ =
      if Token.isKeyword w ∧ w ≠ "Self" ∧ ¬Path.moduleWords.contains w then .fail (.keyword w)
      else .take [.path .plain (.behind .relative (Path.wordEnd w))] := rfl
  rw [step, move, hr, path, readParts, hread] at h
  by_cases hw : Token.isKeyword w ∧ w ≠ "Self" ∧ ¬Path.moduleWords.contains w
  · rw [if_pos hw] at h
    cases h
  · rw [if_neg hw] at h
    cases h
    rfl

theorem Begun.step (h : r.Begun ts) (hstep : r.step t us = .next r') : r'.Begun (ts ++ [t]) := by
  obtain _ | ⟨t₀, _ | ⟨t₁, ts⟩⟩ := ts
  · refine ⟨by simp, by simp, fun w hw => ?_⟩
    cases hw
    exact parts_of_step_word (h.start rfl) hstep
  · refine ⟨fun w cs vs hts => ?_, by simp, by simp⟩
    cases hts
    rw [step_point (h.word w rfl)] at hstep
    cases hstep
  · refine ⟨fun w cs vs hts => ?_, by simp, by simp⟩
    obtain ⟨ht₀, hts⟩ := List.cons.inj hts
    obtain ⟨ht₁, -⟩ := List.cons.inj hts
    exact h.like w cs ts (by rw [ht₀, ht₁])

theorem Begun.takeFrom (h : r.Begun taken.reverse)
    (htake : r.takeFrom taken ts = .ok (us, rest, l)) :
    ∀ w cs vs, us ≠ .word w :: .mark '.' cs :: vs := by
  induction ts generalizing r taken with
  | nil =>
    rw [Reader.takeFrom] at htake
    split at htake <;> cases htake
    exact h.like
  | cons t ts ih =>
    rw [Reader.takeFrom] at htake
    split at htake
    · next hstep =>
      refine ih ?_ htake
      rw [List.reverse_cons]
      exact h.step hstep
    · cases htake
      exact h.like
    · cases htake

end Reader

end ObjectPath.Derive.Grammar
