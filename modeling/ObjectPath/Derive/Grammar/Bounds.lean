import ObjectPath.Derive.Grammar.Paths

/-!
# Bounds

Readings of the parts of bounds.  A bound is a lifetime, a trait, or what is captured.  In front of
a trait there may be a `for` with parameters, `const` and a question mark that relaxes the bound.
What ends the bounds, and which of these words are allowed, depends on what the bounds belong to.
-/

namespace ObjectPath.Derive.Grammar

/-- The parts of a `for` in front of a type or a trait, behind its keyword. -/
def binderParts : List Part := [.marks ['<'], .generic (.list true)]

namespace BoundOwner

/-- Whether `const` is allowed in front of a trait. -/
def allowsConst : BoundOwner → Bool
  | existential _ | constraint | parameter | predicate | trait | declaration => true
  | object _ | synonym | path | parentheses => false

/-- Whether `use` is allowed among the bounds. -/
def allowsCaptures : BoundOwner → Bool
  | existential _ => true
  | _ => false

/-- Whether the bounds end in front of a token wherever one may start. -/
def ends (o : BoundOwner) (t : Sight) : Bool :=
  match o with
  | constraint => t.shows [','] || t.shows ['>']
  | parameter => t.isEnd || t.shows [','] || t.shows ['>'] || t.shows ['=']
  | predicate =>
    t.isEnd || t.isGroup .brace || t.shows [','] || t.shows [';'] || t.isColon || t.shows ['=']
  | trait => t.isWord "where" || t.isGroup .brace
  | declaration => t.isWord "where" || t.shows ['='] || t.shows [';']
  | synonym => t.isWord "where" || t.shows [';']
  | object _ | existential _ | path =>
    !(t.isAnyWord || t.isPathMark || t.shows ['?'] || t.isLifetime || t.isGroup .paren ||
      (o.allowsConst && t.isGroup .bracket))
  | parentheses => false

end BoundOwner

namespace BoundPart

/-! ## Traits -/

/-- Reads a trait behind what may stand in front of it, unless a question mark does.  A `for` goes
behind the question mark if there was none in front, but then the bound is not relaxed. -/
def readRelaxed (quantified : Bool) (t : Sight) : Reading :=
  let rejected : List Part := [.reject .quantifiedRelaxation]
  if ¬quantified ∧ t.isWord "for" then .take (binderParts ++ .path .trait .start :: rejected)
  else (Path.readTrait .start t).andThen (if quantified then rejected else [])

/-- Reads a trait behind a `const`, if there is one. -/
def readConstant (quantified : Bool) (t : Sight) : Reading :=
  if t.shows ['?'] then .take [.bound (.relaxed quantified)] else Path.readTrait .start t

/-- Reads a trait behind a `for`, if there is one. -/
def readQuantified (const quantified : Bool) (t : Sight) : Reading :=
  let rest (brackets : Bool) : List Part :=
    [if const then .bound (.constant quantified) else .reject (.constTrait brackets)]
  if t.isGroup .bracket then .enter [.keyword "const"] (rest true)
  else if t.isWord "const" then .take (rest false)
  else readConstant quantified t

/-- Reads a trait with what may stand in front of it. -/
def readTrait (const : Bool) (t : Sight) : Reading :=
  if t.isWord "for" then .take (binderParts ++ [.bound (.quantified const)])
  else readQuantified const false t

/-! ## Lists of bounds -/

/-- Reads a bound and those behind it. -/
def readBound (o : BoundOwner) (seen : Bool) (t : Sight) : Reading :=
  if t.isLifetime then .takeAll 2 [.bound (.behind o seen)]
  else if t.isWord "use" then
    .take ([.marks ['<'], .bound .captures] ++
      (if o.allowsCaptures then [] else [.reject .captures]) ++ [.bound (.behind o seen)])
  else if t.isGroup .paren then
    .enter [.bound (.trait o.allowsConst)] [.bound (.behind o true)]
  else (readTrait o.allowsConst t).andThen [.bound (.behind o true)]

/-- What is wrong if there are no more bounds. -/
def finish (o : BoundOwner) (seen : Bool) : Reading :=
  match o with
  | .object _ => if seen then .pass else .fail .noTraitOfObject
  | .existential _ => if seen then .pass else .fail .noTrait
  | _ => .pass

/-- Reads behind a bound. -/
def readBehind (o : BoundOwner) (seen : Bool) (t : Sight) : Reading :=
  match o with
  | .object plus | .existential plus =>
    if plus ∧ t.shows ['+'] then .take [.bound (.optional o seen)] else finish o seen
  | .constraint | .parameter | .predicate | .path =>
    if t.shows ['+'] then .take [.bound (.optional o seen)] else .pass
  | .parentheses => if t.shows ['+'] then .take [.bound (.bound o seen)] else .pass
  | .trait | .declaration | .synonym =>
    if o.ends t then .pass else .marks ['+'] [.bound (.optional o seen)] t

/-- Reads bounds, if there are any. -/
def readOptional (o : BoundOwner) (seen : Bool) (t : Sight) : Reading :=
  if o.ends t then finish o seen else readBound o seen t

/-! ## What is captured -/

/-- Reads what is captured. -/
def readCaptures (t : Sight) : Reading :=
  if t.isLifetime then .takeAll 2 [.bound .captureEnd]
  else if t.isName ∨ t.isWord "Self" then .take [.bound .captureEnd]
  else if t.shows ['>'] then .take []
  else .expectedOneOf [.lifetime, .name, .marks ">"] t

/-- Reads behind something that is captured. -/
def readCaptureEnd (t : Sight) : Reading :=
  if t.shows [','] then .take [.bound .captures]
  else if t.shows ['>'] then .take []
  else .expectedOneOf [.marks ",", .marks ">"] t

/-! ## All parts -/

/-- What a part of bounds does with the tokens that come next. -/
def read (p : BoundPart) (t : Sight) : Reading :=
  match p with
  | bound o seen => readBound o seen t
  | behind o seen => readBehind o seen t
  | .optional o seen => readOptional o seen t
  | trait const => readTrait const t
  | quantified const => readQuantified const true t
  | constant q => readConstant q t
  | relaxed q => readRelaxed q t
  | call => Content.types.read [] t
  | captures => readCaptures t
  | captureEnd => readCaptureEnd t

end BoundPart

end ObjectPath.Derive.Grammar
