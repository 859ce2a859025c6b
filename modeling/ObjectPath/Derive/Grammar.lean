import ObjectPath.Derive.Grammar.Attributes

/-!
# Reading by the grammar

A `Reader` reads tokens with a list of parts: the first part that is not empty takes the next token,
in view of those behind it.  What brackets hold is read the same way, with the parts that belong
inside them.  If they hold more than that, the tokens left over are a fault, but one that counts
only if there is no other.
-/

namespace ObjectPath.Derive

namespace Grammar

/-- What a part does with the tokens that come next. -/
def Part.read (p : Part) (t : Sight) : Reading :=
  match p with
  | further => if t.isEnd then .pass else .take []
  | marks ms => .marks ms [] t
  | keyword w => .keyword w [] t
  | optionalWord w => if t.isWord w then .take [] else .pass
  | name => .name [] t
  | nameOr w => if t.isWord w then .take [] else .name [] t
  | optionalComma => if t.shows [','] then .take [] else .pass
  | anything d => if t.isGroup d then .take [] else .expected (.group d) t
  | macroArguments => .macroArguments [] t
  | group c => c.read [] t
  | reject f => .fail f
  | elements e => e.readAll t
  | element e => e.read t
  | comma e => e.readComma t
  | attributes b => b.read t
  | path u s =>
    match u with
    | .plain | .limit => Path.readAlone u s t
    | .trait => Path.readTrait s t
    | .type plus binding => TypePart.readPath plus binding s t
    | .pattern inSlice => PatternPart.readPath inSlice s t
    | .operand records => ExpressionPart.readPath records s t
  | barePath s => Path.readBare s t
  | .attribute p => p.read t
  | bound p => p.read t
  | type p => p.read t
  | generic p => p.read t
  | pattern p => p.read t
  | expression p => p.read t
  | statement p => p.read t
  | item p => p.read t

/-- What a list of parts does with the tokens that come next; the parts that are left are those of
the whole list. -/
def readParts : List Part → Sight → Reading
  | [], _ => .pass
  | p :: ps, t =>
    match p.read t with
    | .pass => readParts ps t
    | r => r.andThen ps

/-- How far the tokens of an attribute are read. -/
structure Reader where
  /-- What is still to come. -/
  parts : List Part
  /-- The first brackets that hold more than what belongs into them. -/
  leftover : Option Delimiter
  /-- Whether the last token was taken as braces. -/
  behindBraces : Bool
deriving DecidableEq, Repr

/-- What a reader does with a token. -/
inductive Move
  /-- It takes the token. -/
  | next (r : Reader)
  /-- It ends in front of the token. -/
  | stop
  | fail (f : Fault)
deriving DecidableEq, Repr

namespace Reader

/-- A reader of some parts. -/
def start (ps : List Part) (leftover : Option Delimiter) : Reader := ⟨ps, leftover, false⟩

/-- What is missing if there are no more tokens. -/
def finish (r : Reader) : Option Fault :=
  match readParts r.parts ⟨[], r.behindBraces⟩ with
  | .fail f => some f
  | .take _ | .enter _ _ | .pass => none

/-- The step on a token that is no group; `ts` are the tokens behind it. -/
def move (r : Reader) (t : Token) (ts : List Token) : Move :=
  match readParts r.parts ⟨t :: ts, r.behindBraces⟩ with
  | .take ps => .next ⟨ps, r.leftover, false⟩
  | .enter _ _ | .pass => .stop
  | .fail f => .fail f

mutual

/-- The step on a token; `ts` are the tokens behind it. -/
def step (r : Reader) : Token → List Token → Move
  | .group d body, ts =>
    match readParts r.parts ⟨.group d body :: ts, r.behindBraces⟩ with
    | .take ps => .next ⟨ps, r.leftover, d = .brace⟩
    | .enter inside ps =>
      match readBody d (start inside r.leftover) body with
      | .ok leftover => .next ⟨ps, leftover, d = .brace⟩
      | .error f => .fail f
    | .pass => .stop
    | .fail f => .fail f
  | .word w, ts => move r (.word w) ts
  | .mark c behind, ts => move r (.mark c behind) ts
  | .literal l, ts => move r (.literal l) ts

/-- Reads what brackets hold, and gives the first brackets with tokens left over. -/
def readBody (d : Delimiter) (r : Reader) : List Token → Except Fault (Option Delimiter)
  | [] =>
    match r.finish with
    | some f => .error f
    | none => .ok r.leftover
  | t :: ts =>
    match step r t ts with
    | .next r => readBody d r ts
    | .stop => .ok (r.leftover.or (some d))
    | .fail f => .error f

end

end Reader

/-- The parts of an expression. -/
def expression : List Part := [.expression (.chain true (.fresh .all))]

/-- The parts of a path that is not part of an expression. -/
def path : List Part := [.path .plain .start]

end Grammar

end ObjectPath.Derive
