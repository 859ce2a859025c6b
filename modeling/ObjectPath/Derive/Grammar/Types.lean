import ObjectPath.Derive.Grammar.Bounds

/-!
# Types

Readings of the parts of types.  Where a type is followed by an operator, as in a cast, no `+` and
further bounds belong to it.
-/

namespace ObjectPath.Derive.Grammar

namespace TypePart

/-! ## Functions -/

/-- Reads `extern`, with its literal if it has one, in front of a function. -/
def readLinkage (ps : List Part) (t : Sight) : Reading :=
  .takeAll (if (t.skip 1).isText then 2 else 1) ps

/-- Reads a function behind `unsafe`, and behind `extern` unless `linkage`. -/
def readFunctionHead (linkage : Bool) (t : Sight) : Reading :=
  if linkage ∧ t.isWord "extern" then readLinkage [.type (.functionHead false)] t
  else .keyword "fn" [.group .parameters, .type (.result false)] t

/-- Reads a function, if one starts at a token. -/
def readFunction (t : Sight) : Reading :=
  if t.isWord "unsafe" then .take [.type (.functionHead true)]
  else if t.isWord "fn" ∨ t.isWord "extern" then readFunctionHead true t
  else .pass

/-- Reads the result of a function, if it has one. -/
def readResult (plus : Bool) (t : Sight) : Reading :=
  if t.shows ['-', '>'] then .takeAll 2 [.type (.start plus false)] else .pass

/-! ## Parentheses -/

/-- What comes behind parameters in angle brackets, `depth` of them being open. -/
def dropParameters (depth : Nat) : List Token → List Token
  | [] => []
  | .mark '-' ('>' :: _) :: .mark '>' _ :: ts => dropParameters depth ts
  | .mark '<' _ :: ts => dropParameters (depth + 1) ts
  | .mark '>' _ :: ts => if depth ≤ 1 then ts else dropParameters (depth - 1) ts
  | _ :: ts => dropParameters depth ts

/-- Whether a type is neither a macro nor the first one of several bounds or of a tuple; `depth`
tells how many angle brackets are open. -/
def isSole (depth : Nat) : List Token → Bool
  | [] => true
  | .mark '-' ('>' :: _) :: .mark '>' _ :: ts => isSole depth ts
  | .mark c _ :: ts =>
    if c = '<' then isSole (depth + 1) ts
    else if c = '>' then isSole (depth - 1) ts
    else if depth = 0 ∧ [',', '+', '!', '#'].contains c then false
    else isSole depth ts
  | _ :: ts => isSole depth ts

/-- Whether what parentheses hold is a path, with a `for` in front of it or not, that may be the
first one of several bounds. -/
def isTraitLike (body : List Token) : Bool :=
  let path :=
    match body with
    | .word "for" :: ts => dropParameters 0 ts
    | ts => ts
  let start : Sight := ⟨path, false⟩
  (start.isSegment || start.isPathMark) && isSole 0 path

/-- Reads parentheses as a type. -/
def readParentheses (plus : Bool) (body : List Token) : Reading :=
  let inside : Sight := ⟨body, false⟩
  let bounds : List Part := [.bound (.behind .parentheses true)]
  if inside.isEnd then .take []
  else if inside.isLifetime then .enter [.bound (.bound (.object true) false)] []
  else if inside.shows ['?'] then .enter [.bound (.trait false)] bounds
  else
    .enter [.type (.start true false), .type .tupleEnd]
      (if plus ∧ isTraitLike body then bounds else [])

/-! ## Types -/

/-- Reads the start of a type that is a path of segments. -/
def readRelative (u : PathUse) (t : Sight) : Reading :=
  match t.tokens with
  | .word w :: _ => .take [.path u (.behind .relative (Path.wordEnd w))]
  | _ => .pass

/-- Reads behind `for<..>`.  A path is a bound then. -/
def readQuantified (plus : Bool) (t : Sight) : Reading :=
  if t.isSegment then readRelative (.type plus false) t
  else
    (readFunction t).orElse
      (.expectedOneOf
        [.name, .keyword "fn", .keyword "unsafe", .keyword "extern", .keyword "super",
          .keyword "self", .keyword "Self", .keyword "crate"] t)

/-- The tokens a type may start with. -/
def starts : List Term :=
  [.keyword "for", .group .paren, .keyword "fn", .keyword "unsafe", .keyword "extern", .name,
    .marks "::", .marks "<", .keyword "dyn", .group .bracket, .marks "*", .marks "&", .marks "!",
    .keyword "impl", .keyword "_", .lifetime]

/-- Whether the name of something built in comes next. -/
def isBuiltin (t : Sight) : Bool := t.isWord "builtin" && (t.skip 1).shows ['#']

/-- Reads something built in with its arguments. -/
def readBuiltin (ps : List Part) : Reading := .takeAll 2 ([.name, .anything .paren] ++ ps)

/-- Reads a type that is no path. -/
def readPlain (plus : Bool) (t : Sight) : Reading :=
  if t.isWord "for" then .take (binderParts ++ [.type (.quantified plus)])
  else if t.isWord "dyn" then .take [.type (.dynamic plus)]
  else if t.isWord "impl" then .take [.bound (.bound (.existential plus) false)]
  else if t.isWord "_" ∨ t.shows ['!'] then .take []
  else if t.shows ['*'] then .take [.type .pointee]
  else if t.shows ['&'] then
    .takeAll (if (t.skip 1).isLifetime then 3 else 1) [.type .reference]
  else if t.isLifetime then BoundPart.readBound (.object true) false t
  else (readFunction t).orElse (.expectedOneOf starts t)

/-- Reads a type. -/
def readStart (plus binding : Bool) (t : Sight) : Reading :=
  match t.tokens with
  | .group .paren body :: _ => readParentheses plus body
  | .group .bracket _ :: _ => .enter [.type (.start true false), .type .elementEnd] []
  | _ =>
    if isBuiltin t then readBuiltin []
    else if t.isSegment then readRelative (.type plus binding) t
    else if t.isPathMark then .takeAll 2 [.path (.type plus binding) (.segment .absolute)]
    else if t.shows ['<'] then
      .take [.type (.start true false), .type (.qualifier (.type plus false))]
    else readPlain plus t

/-! ## Paths -/

/-- Reads behind the type at the start of a path. -/
def readQualifier (u : PathUse) (t : Sight) : Reading :=
  let rest : List Part := [.marks [':', ':'], .path u (.segment .ofType)]
  if t.isWord "as" then .take ([.path .plain .start, .marks ['>']] ++ rest)
  else .marks ['>'] rest t

/-- Reads on in a path that is a type. -/
def readPath (plus binding : Bool) (p : PathSite) (t : Sight) : Reading :=
  match Path.read? (.type plus binding) p t with
  | some r => r
  | none =>
    if p.shape.qualified then .pass
    else if p.shape.bare ∧ t.isBang then .take [.macroArguments]
    else if plus ∧ t.shows ['+'] then .take [.bound (.optional .path true)]
    else if binding ∧ p.shape.single ∧ t.shows ['='] then .take [.type .value]
    else if binding ∧ p.shape.single ∧ t.shows [':'] then
      .take [.bound (.optional .constraint true)]
    else .pass

/-! ## Arguments in angle brackets -/

/-- Reads what an associated item is bound to. -/
def readValue (t : Sight) : Reading :=
  if t.isLiteral then .literal [] t
  else if t.isGroup .brace then (Content.body .statements).read [] t
  else readStart true false t

/-- Reads an argument. -/
def readArgument (t : Sight) : Reading :=
  if t.isLifetime ∧ ¬(t.skip 2).shows ['+'] then .takeAll 2 []
  else if t.isLiteral then .literal [] t
  else if t.isGroup .brace then (Content.body .statements).read [] t
  else readStart true true t

/-- Reads arguments and the bracket behind them. -/
def readArguments (t : Sight) : Reading :=
  if t.shows ['>'] then .take [] else (readArgument t).andThen [.type .argumentEnd]

/-- Reads behind an argument. -/
def readArgumentEnd (t : Sight) : Reading :=
  if t.shows ['>'] then .take [] else .marks [','] [.type .arguments] t

/-! ## Parameters of a function -/

/-- Reads a parameter without attributes.  The first one may be `self`, and `mut self` may be its
name as well as its type. -/
def readParameter (first : Bool) (t : Sight) : Reading :=
  let mutSelf (t : Sight) : Bool := t.isWord "mut" && (t.skip 1).isWord "self"
  let dots : List Char := ['.', '.', '.']
  let rest : List Part := [.type .parameterEnd]
  let typed : List Part := .type (.start true false) :: rest
  let nameLike : Bool := t.isName || t.isWord "_"
  let named : Bool := (nameLike || (first && t.isWord "self")) && (t.skip 1).isColon
  if t.shows dots then .takeAll 3 [.optionalComma]
  else if nameLike ∧ (t.skip 1).shows [':'] ∧ (t.skip 2).shows dots then
    .takeAll 5 [.optionalComma]
  else if first ∧ mutSelf t then
    if (t.skip 2).isColon then .takeAll 3 typed else .takeAll 2 rest
  else if named then
    if first ∧ nameLike ∧ mutSelf (t.skip 2) then .takeAll 4 rest else .takeAll 2 typed
  else (readStart true false t).andThen rest

/-- Reads a parameter, or the end of the parameters. -/
def readParameters (first attributed : Bool) (t : Sight) : Reading :=
  if t.isEnd ∧ ¬attributed then .pass
  else if t.shows ['#'] then .take [.attribute .brackets, .type (.parameter first true)]
  else readParameter first t

/-- Reads behind a parameter. -/
def readParameterEnd (t : Sight) : Reading :=
  if t.isEnd then .pass else .marks [','] [.type (.parameter false false)] t

/-! ## All parts -/

/-- What a part of a type does with the tokens that come next. -/
def read (p : TypePart) (t : Sight) : Reading :=
  match p with
  | start plus binding => readStart plus binding t
  | quantified plus => readQuantified plus t
  | qualifier u => readQualifier u t
  | arguments => readArguments t
  | argumentEnd => readArgumentEnd t
  | value => readValue t
  | functionHead linkage => readFunctionHead linkage t
  | parameter first attributed => readParameters first attributed t
  | parameterEnd => readParameterEnd t
  | result plus => readResult plus t
  | pointee =>
    if t.isWord "const" ∨ t.isWord "mut" then .take [.type (.start false false)]
    else .expectedOneOf [.keyword "const", .keyword "mut"] t
  | reference =>
    if t.isWord "mut" then .take [.type (.start false false)] else readStart false false t
  | dynamic plus =>
    if t.shows ['*'] then .take [.bound (.bound (.object plus) false)]
    else BoundPart.readBound (.object plus) false t
  | tupleEnd => if t.shows [','] then .take [.elements .type] else .pass
  | elementEnd =>
    if t.shows [';'] then .take [.expression (.chain true (.fresh .all))] else .pass

end TypePart

end ObjectPath.Derive.Grammar
