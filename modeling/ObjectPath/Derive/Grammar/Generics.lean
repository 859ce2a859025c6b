import ObjectPath.Derive.Grammar.Types

/-!
# Generic parameters

Readings of the parts of generic parameters, and of the `where` clauses that go on with them.  The
parameters behind a `for` are read the same way as those of an item, but `_` is none of them.
-/

namespace ObjectPath.Derive.Grammar

namespace GenericPart

/-! ## Lifetimes -/

/-- Whether the bounds of a lifetime end in front of a token wherever one may start. -/
def endsLifetimeBounds (inClause : Bool) (t : Sight) : Bool :=
  if inClause then
    t.isEnd || t.isGroup .brace || t.shows [','] || t.shows [';'] || t.shows [':'] || t.shows ['=']
  else t.shows [','] || t.shows ['>']

/-- Reads a bound of a lifetime and those behind it, if there are any. -/
def readLifetimeBound (inClause : Bool) (t : Sight) : Reading :=
  if endsLifetimeBounds inClause t then .pass
  else .lifetime [.generic (.lifetimeBoundEnd inClause)] t

/-! ## Parameters -/

/-- Reads a parameter behind its attributes. -/
def readParameter (binder : Bool) (t : Sight) : Reading :=
  let rest : List Part := [.generic (.parameterEnd binder)]
  let terms : List Term :=
    if binder then [.name, .lifetime, .keyword "const"]
    else [.lifetime, .name, .keyword "const"]
  if t.shows ['#'] then .take [.attribute .brackets, .generic (.parameter binder)]
  else if t.isLifetime then .takeAll 2 (.generic .lifetimeBounds :: rest)
  else if t.isName then .take ([.generic (.bounds .parameter), .generic .typeDefault] ++ rest)
  else if t.isWord "const" then
    .take
      ([.name, .marks [':'], .type (.start true false), .generic .constantDefault] ++ rest)
  else if ¬binder ∧ t.isWord "_" then .take rest
  else .expectedOneOf terms t

/-- Reads parameters and the bracket behind them. -/
def readList (binder : Bool) (t : Sight) : Reading :=
  if t.shows ['>'] then .take [] else readParameter binder t

/-- Reads behind a parameter. -/
def readParameterEnd (binder : Bool) (t : Sight) : Reading :=
  if t.shows ['>'] then .take [] else .marks [','] [.generic (.list binder)] t

/-- Reads the value of a constant. -/
def readConstant (t : Sight) : Reading :=
  if t.isLiteral then .literal [] t
  else if t.isName then .take []
  else if t.isGroup .brace then (Content.body .statements).read [] t
  else .fail (.noConstant t.isEnd)

/-! ## Clauses -/

/-- Reads a predicate of a `where` clause. -/
def readPredicate (t : Sight) : Reading :=
  let rest : List Part := [.generic .predicateEnd]
  let bounds : List Part :=
    [.marks [':'], .bound (.optional .predicate true)] ++ rest
  if t.isLifetime ∧ (t.skip 2).shows [':'] then
    .takeAll 3 (.generic (.lifetimeBound true) :: rest)
  else if t.isWord "for" then .take (binderParts ++ .type (.start true false) :: bounds)
  else (TypePart.readStart true false t).andThen bounds

/-- Reads predicates, if there are any. -/
def readPredicates (t : Sight) : Reading :=
  if BoundOwner.predicate.ends t then .pass else readPredicate t

/-! ## All parts -/

/-- What a part of generic parameters does with the tokens that come next. -/
def read (p : GenericPart) (t : Sight) : Reading :=
  match p with
  | .optional => if t.shows ['<'] then .take [.generic (.list false)] else .pass
  | list binder => readList binder t
  | parameter binder => readParameter binder t
  | parameterEnd binder => readParameterEnd binder t
  | bounds o => if t.shows [':'] then .take [.bound (.optional o true)] else .pass
  | typeDefault => if t.shows ['='] then .take [.type (.start true false)] else .pass
  | lifetimeBounds =>
    if t.shows [':'] then .take [.generic (.lifetimeBound false)] else .pass
  | lifetimeBound inClause => readLifetimeBound inClause t
  | lifetimeBoundEnd inClause =>
    if t.shows ['+'] then .take [.generic (.lifetimeBound inClause)] else .pass
  | constantDefault => if t.shows ['='] then .take [.generic .constant] else .pass
  | constant => readConstant t
  | clause => if t.isWord "where" then .take [.generic .clauseStart] else .pass
  | clauseStart => if t.opensParameters then .fail .reservedParameters else readPredicates t
  | predicates => readPredicates t
  | predicateEnd => if t.shows [','] then .take [.generic .predicates] else .pass

end GenericPart

end ObjectPath.Derive.Grammar
