import ObjectPath.Derive.Grammar.Part
import ObjectPath.Derive.Token.Position

/-!
# Readings

What a part does with the tokens that come next, and how tokens are told apart.
-/

namespace ObjectPath.Derive.Grammar

/-! ## Tokens -/

/-- The tokens that come next, up to the end of the brackets around them. -/
structure Sight where
  tokens : List Token
  /-- Whether braces stand directly in front of them. -/
  behindBraces : Bool
deriving DecidableEq, Repr

namespace Sight

/-- What comes behind some tokens. -/
def skip (t : Sight) (n : Nat) : Sight := ⟨t.tokens.drop n, false⟩

/-- Whether nothing comes. -/
def isEnd (t : Sight) : Bool := t.tokens.isEmpty

/-- Whether some marks come next. -/
def shows (t : Sight) (ms : List Char) : Bool :=
  match t.tokens with
  | .mark c behind :: _ => ms.isPrefixOf (c :: behind)
  | _ => false

/-- Whether a word comes next. -/
def isWord (t : Sight) (w : String) : Bool :=
  match t.tokens with
  | .word v :: _ => v = w
  | _ => false

/-- Whether any word comes next. -/
def isAnyWord (t : Sight) : Bool :=
  match t.tokens with
  | .word _ :: _ => true
  | _ => false

/-- Whether a name comes next. -/
def isName (t : Sight) : Bool :=
  match t.tokens with
  | .word w :: _ => !Token.isKeyword w
  | _ => false

/-- The keywords that may stand for a segment of a path. -/
def segmentWords : List String := ["super", "self", "Self", "crate"]

/-- Whether a name or the keyword of a module or of the own type comes next. -/
def isSegment (t : Sight) : Bool :=
  match t.tokens with
  | .word w :: _ => !Token.isKeyword w || segmentWords.contains w
  | _ => false

/-- Whether a number comes next. -/
def isNumber (t : Sight) : Bool :=
  match t.tokens with
  | .literal l :: _ => l.toList.head?.any Char.isDigit
  | _ => false

/-- Whether the literal of a string comes next. -/
def isText (t : Sight) : Bool :=
  match t.tokens with
  | .literal l :: _ => l.toList.head? = some '"' ∨ l.toList.head? = some 'r'
  | _ => false

/-- Whether a minus in front of a number comes next. -/
def isNegative (t : Sight) : Bool := t.shows ['-'] && (t.skip 1).isNumber

/-- Whether a literal comes next, with a minus in front of it or not. -/
def isLiteral (t : Sight) : Bool :=
  match t.tokens with
  | .literal _ :: _ => true
  | .word w :: _ => w = "true" ∨ w = "false"
  | _ => t.isNegative

/-- Whether brackets come next. -/
def isGroup (t : Sight) (d : Delimiter) : Bool :=
  match t.tokens with
  | .group e _ :: _ => e = d
  | _ => false

/-- Whether brackets of any kind come next. -/
def isAnyGroup (t : Sight) : Bool :=
  match t.tokens with
  | .group _ _ :: _ => true
  | _ => false

/-- Whether a lifetime or a label comes next: a quote and a word. -/
def isLifetime (t : Sight) : Bool := t.shows ['\x27']

/-- Whether `::` comes next. -/
def isPathMark (t : Sight) : Bool := t.shows [':', ':']

/-- Whether a point comes next that is not the first one of a range. -/
def isPoint (t : Sight) : Bool := t.shows ['.'] && !t.shows ['.', '.']

/-- Whether a colon comes next that is not the first one of `::`. -/
def isColon (t : Sight) : Bool := t.shows [':'] && !t.isPathMark

/-- Whether a `!` comes next that is not the first mark of `!=`. -/
def isBang (t : Sight) : Bool := t.shows ['!'] && !t.shows ['!', '=']

/-- Whether a `|` comes next that separates alternatives of a pattern. -/
def isAlternative (t : Sight) : Bool :=
  t.shows ['|'] && !t.shows ['|', '|'] && !t.shows ['|', '=']

/-- Whether parameters in angle brackets come next, and not a type in them that starts a path. -/
def opensParameters (t : Sight) : Bool :=
  let s := t.skip 1
  let afterName := s.skip (if s.isLifetime then 2 else 1)
  t.shows ['<'] &&
    (s.shows ['>'] || s.shows ['#'] || s.isWord "const" ||
      ((s.isLifetime || s.isName) &&
        (afterName.shows ['>'] || afterName.shows [','] || afterName.isColon ||
          afterName.shows ['='])))

end Sight

/-! ## Readings -/

/-- What a part does with the tokens that come next. -/
inductive Reading
  /-- It takes the first one and leaves other parts in its place. -/
  | take (ps : List Part)
  /-- It takes brackets that hold some parts, and leaves other parts in its place. -/
  | enter (inside ps : List Part)
  /-- It is empty. -/
  | pass
  | fail (f : Fault)
deriving DecidableEq, Repr

namespace Reading

/-- A reading of a part with other parts behind it. -/
def andThen : Reading → List Part → Reading
  | take ps, qs => take (ps ++ qs)
  | enter inside ps, qs => enter inside (ps ++ qs)
  | pass, _ => pass
  | fail f, _ => fail f

/-- A reading of a part, or one of what is behind it if it is empty. -/
def orElse : Reading → Reading → Reading
  | pass, r => r
  | r, _ => r

/-- Takes some tokens that were seen, `n` in all. -/
def takeAll (n : Nat) (ps : List Part) : Reading :=
  take (List.replicate (n - 1) .further ++ ps)

/-- Something else is expected. -/
def expected (w : Wanted) (t : Sight) : Reading := fail (.expected w t.isEnd)

/-- One of some other tokens is expected. -/
def expectedOneOf (ts : List Term) (t : Sight) : Reading := expected (.oneOf ts) t

/-- Takes marks that must come. -/
def marks (ms : List Char) (ps : List Part) (t : Sight) : Reading :=
  if t.shows ms then takeAll ms.length ps else fail (.missing ms)

/-- Takes a keyword that must come. -/
def keyword (w : String) (ps : List Part) (t : Sight) : Reading :=
  if t.isWord w then take ps else expected (.keyword w) t

/-- Takes a name that must come. -/
def name (ps : List Part) (t : Sight) : Reading :=
  match t.tokens with
  | .word w :: _ => if Token.isKeyword w then fail (.keyword w) else take ps
  | _ => expected .name t

/-- Takes a lifetime that must come. -/
def lifetime (ps : List Part) (t : Sight) : Reading :=
  if t.isLifetime then takeAll 2 ps else expected .lifetime t

/-- Takes a literal that comes, with a minus in front of it or not. -/
def literal (ps : List Part) (t : Sight) : Reading :=
  takeAll (if t.isNegative then 2 else 1) ps

/-- Takes the name or the position of a field.  `named` are the parts behind a name, `positioned`
those behind a position. -/
def field (named positioned : List Part) (t : Sight) : Reading :=
  match t.tokens with
  | .word w :: _ => if Token.isKeyword w then expected .member t else take named
  | .literal l :: _ =>
    if t.isNumber ∧ (Position.integer? l.toList).isSome then
      match Position.fault? l.toList with
      | some f => fail f
      | none => take positioned
    else expected .member t
  | _ => expected .member t

/-- Takes brackets that must come and hold some parts. -/
def group (d : Delimiter) (inside ps : List Part) (t : Sight) : Reading :=
  if t.isGroup d then enter inside ps else expected (.group d) t

/-- Takes the arguments of a macro, which may be any tokens. -/
def macroArguments (ps : List Part) (t : Sight) : Reading :=
  if t.isAnyGroup then take ps else expected .arguments t

end Reading

/-! ## Brackets -/

namespace Content

/-- The brackets around some content. -/
def delimiter : Content → Delimiter
  | parameters | inputs | types => .paren
  | block | body _ | namedFields | variants => .brace

/-- The parts of some content. -/
def parts : Content → List Part
  | block => [.statement .statements]
  | body b => [.attributes b]
  | parameters => [.type (.parameter true false)]
  | inputs => [.item (.input .none false)]
  | types => [.elements .type]
  | namedFields => [.elements .namedField]
  | variants => [.elements .variant]

/-- Takes brackets that must come. -/
def read (c : Content) (ps : List Part) (t : Sight) : Reading :=
  .group c.delimiter c.parts ps t

end Content

end ObjectPath.Derive.Grammar
