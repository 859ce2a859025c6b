import ObjectPath.Derive.Grammar.Reading

/-!
# Paths

A path is a list of segments separated by `::`, with another `::` or a type in angle brackets in
front if it does not start at a name.  A segment is a name, the keyword of a module, or `Self`.  It
may have arguments in angle brackets, directly behind it or behind a further `::`; in expressions
and patterns the direct form is not a path, as `<` compares there.  A path ends in front of `::` and
parentheses.

What follows a path depends on what it is read for, so `read?` only tells whether it goes on.
-/

namespace ObjectPath.Derive.Grammar

namespace PathShape

/-- The shape of a path that starts with a segment. -/
def relative : PathShape := ⟨false, true, true⟩

/-- The shape of a path that starts with `::`. -/
def absolute : PathShape := ⟨false, false, true⟩

/-- The shape of a path that starts with a type in angle brackets. -/
def ofType : PathShape := ⟨true, false, true⟩

end PathShape

/-- Whether arguments in angle brackets may follow a segment directly. -/
def PathUse.direct : PathUse → Bool
  | plain | type _ _ | trait => true
  | pattern _ | limit | operand _ => false

/-- What is known of a path at a place. -/
def PathSite.shape : PathSite → PathShape
  | start => .relative
  | segment s | behind s _ => s

namespace Path

/-- The keywords that stand for a module and have no arguments. -/
def moduleWords : List String := ["super", "self", "crate", "try"]

/-- What a path ends with behind the word of a segment. -/
def wordEnd (w : String) : PathEnd := if moduleWords.contains w then .module else .name

/-- Reads a segment. -/
def readSegment (u : PathUse) (s : PathShape) (t : Sight) : Reading :=
  match t.tokens with
  | .word w :: _ =>
    if Token.isKeyword w ∧ w ≠ "Self" ∧ ¬moduleWords.contains w then .fail (.keyword w)
    else .take [.path u (.behind s (wordEnd w))]
  | _ => .expected .name t

/-- Whether arguments in angle brackets start at a token, and not an operator. -/
def startsArguments (t : Sight) : Bool :=
  t.shows ['<'] && !t.shows ['<', '='] && !t.shows ['<', '<', '=']

/-- The parts of arguments in angle brackets behind the first bracket, and of the rest of the
path. -/
def argumentParts (u : PathUse) (s : PathShape) : List Part :=
  [.type .arguments, .path u (.behind { s with bare := false } .arguments)]

/-- Reads on in a path.  `none` tells that it ends in front of the token. -/
def read? (u : PathUse) (p : PathSite) (t : Sight) : Option Reading :=
  match p with
  | .start =>
    if t.isPathMark then some (.takeAll 2 [.path u (.segment .absolute)])
    else some (readSegment u .relative t)
  | .segment s => some (readSegment u s t)
  | .behind s e =>
    let behind := t.skip 2
    if t.isPathMark ∧ e = .name ∧ behind.shows ['<'] then some (.takeAll 3 (argumentParts u s))
    else if t.isPathMark ∧ (s.qualified ∨ ¬behind.isGroup .paren) then
      some (.takeAll 2 [.path u (.segment { s with single := false })])
    else if u.direct ∧ e = .name ∧ startsArguments t then some (.take (argumentParts u s))
    else none

/-- Reads on in a path that nothing may follow. -/
def readAlone (u : PathUse) (p : PathSite) (t : Sight) : Reading := (read? u p t).getD .pass

/-- Reads on in the path of a trait.  If its last segment has no arguments yet, types in parentheses
and a result may follow. -/
def readTrait (p : PathSite) (t : Sight) : Reading :=
  match p, read? .trait p t with
  | _, some r => r
  | .behind _ .arguments, none => .pass
  | _, none =>
    if t.isGroup .paren then .enter Content.types.parts [.type (.result false)]
    else if t.isPathMark then .takeAll 2 [.bound .call, .type (.result false)]
    else .pass

/-! ## Paths without arguments -/

/-- Reads on in a path without any arguments. -/
def readBare (p : BarePathSite) (t : Sight) : Reading :=
  let segment (r : Reading) : Reading := if t.isSegment then .take [.barePath .behind] else r
  match p with
  | .start => if t.isPathMark then .takeAll 2 [.barePath .first] else segment (.name [] t)
  | .first => segment (.name [] t)
  | .behind => if t.isPathMark then .takeAll 2 [.barePath .segment] else .pass
  | .segment => segment (.expected .segment t)

/-- What follows a path without any arguments that starts with a segment, which may be one of some
keywords. -/
def dropSegments (words : List String) : List Token → Option (List Token)
  | .word w :: .mark ':' (':' :: _) :: .mark ':' _ :: ts =>
    if Token.isKeyword w ∧ ¬words.contains w then none else dropSegments words ts
  | .word w :: ts => if Token.isKeyword w ∧ ¬words.contains w then none else some ts
  | _ => none

/-- The number of tokens of the path without any arguments that comes next, if there is one. -/
def bareLength? (words : List String) (t : Sight) : Option Nat :=
  let start := t.skip (if t.isPathMark then 2 else 0)
  (dropSegments words start.tokens).map fun rest => t.tokens.length - rest.length

end Path

end ObjectPath.Derive.Grammar
