import ObjectPath.Derive.Grammar.Generics
import ObjectPath.Derive.Grammar.Patterns

/-!
# Expressions

Readings of the parts of expressions.  An expression is a chain of operands with operators between
them.  How strongly operators bind matters in three places only: comparisons do not follow each
other, nothing but the right side of an assignment goes on behind a range, and the ends of ranges
and what is behind `let` stop at weaker operators.
-/

namespace ObjectPath.Derive.Grammar

/-! ## Operators -/

/-- Classes of operators, from the weakest to the strongest. -/
inductive Operator
  | assignment
  | range (closed : Bool)
  | logical
  | comparison
  | other
  | cast
deriving DecidableEq, Repr

namespace Operator

/-- The marks of the operators, longer ones in front of those they start with. -/
def table : List (List Char × Operator) := [
  (['<', '<', '='], assignment), (['>', '>', '='], assignment), (['+', '='], assignment),
  (['-', '='], assignment), (['*', '='], assignment), (['/', '='], assignment),
  (['%', '='], assignment), (['^', '='], assignment), (['&', '='], assignment),
  (['|', '='], assignment), (['&', '&'], logical), (['|', '|'], logical), (['<', '<'], other),
  (['>', '>'], other), (['=', '='], comparison), (['<', '='], comparison), (['!', '='], comparison),
  (['>', '='], comparison), (['+'], other), (['-'], other), (['*'], other), (['/'], other),
  (['%'], other), (['^'], other), (['&'], other), (['|'], other), (['<'], comparison),
  (['>'], comparison), (['='], assignment), (['.', '.', '='], range true),
  (['.', '.'], range false)]

/-- The operator that comes next, and the number of its tokens. -/
def ofSight? (t : Sight) : Option (Operator × Nat) :=
  if t.isWord "as" then some (cast, 1)
  else if t.shows ['=', '>'] then none
  else (table.find? fun e => t.shows e.1).map fun e => (e.2, e.1.length)

end Operator

namespace ExpressionPart

/-- Something else than a range with two dots. -/
def failDots (t : Sight) : Reading := .expectedOneOf [.marks "..="] t

/-- Reads an operator behind an operand that is no range. -/
def readOperator (records : Bool) (c : Chain) (op : Operator) (n : Nat) (t : Sight) : Reading :=
  let go (c : Chain) : Reading :=
    .takeAll n [.expression (.operand records), .expression (.operators records c)]
  match op with
  | .assignment =>
    if c.reach = .all then
      .takeAll n
        [.expression (.chain records { c with depth := c.depth + 1, compared := false })]
    else .pass
  | .range closed =>
    if c.reach = .all then
      if t.shows ['.', '.', '.'] then failDots t
      else
        .takeAll n [
          .expression (.rangeEnd records closed),
          .expression (.operators records { c with range := true, compared := false })]
    else .pass
  | .logical => if c.reach = .comparison then .pass else go { c with compared := false }
  | .comparison => if c.compared then .fail .comparisonChain else go { c with compared := true }
  | .other => go c
  | .cast =>
    .take [.type (.start false false), .expression .castEnd, .expression (.operators records c)]

/-- Reads an operator.  A range is no operand of another operator.  If the range is the right side
of an assignment, the whole assignment is the operand. -/
def readOperators (records : Bool) (c : Chain) (t : Sight) : Reading :=
  match Operator.ofSight? t with
  | none => .pass
  | some (op, n) =>
    if ¬c.range then readOperator records c op n t
    else if c.depth = 0 then .pass
    else
      readOperator records { c with depth := c.depth - 1, range := false, compared := false } op n t

/-! ## Ranges -/

/-- Whether a range without an end stops in front of a token. -/
def endsRange (records : Bool) (t : Sight) : Bool :=
  t.isEnd || t.isPoint || t.isWord "as" || (t.isGroup .brace && !records) ||
    [[','], [';'], ['?'], ['='], ['+'], ['/'], ['%'], ['^'], ['>'], ['<', '='], ['!', '='],
      ['-', '='], ['*', '='], ['&', '='], ['|', '='], ['<', '<', '=']].any t.shows

/-- Reads the dots of a range without a start; `ps` are the parts behind the range. -/
def readRange (records : Bool) (ps : List Part) (t : Sight) : Reading :=
  if t.shows ['.', '.', '.'] then failDots t
  else if t.shows ['.', '.', '='] then .takeAll 3 (.expression (.rangeEnd records true) :: ps)
  else if t.shows ['.', '.'] then .takeAll 2 (.expression (.rangeEnd records false) :: ps)
  else .pass

/-! ## Behind an operand -/

/-- Reads a call, a member, an index or a question mark. -/
def readTrailers (t : Sight) : Reading :=
  if t.isGroup .paren then .enter [.elements .expression] [.expression .trailers]
  else if t.isGroup .bracket then
    .enter [.expression (.chain true (.fresh .all))] [.expression .trailers]
  else if t.shows ['?'] then .take [.expression .trailers]
  else if t.isPoint then .take [.expression (.member true)]
  else .pass

/-- Reads the positions of a member in one literal.  A point may end the literal and start a further
member. -/
def readPositions (l : String) : Reading :=
  let (positions, point) := Position.ofLiteral l
  match positions.findSome? Position.fault? with
  | some f => .fail f
  | none => .take [if point then .expression (.member false) else .expression .trailers]

/-- Reads a member behind its point. -/
def readMember (several : Bool) (t : Sight) : Reading :=
  match t.tokens with
  | .literal l :: _ =>
    if several ∧ t.isNumber then readPositions l
    else .field [] [.expression .trailers] t
  | _ =>
    if t.isWord "await" then .take [.expression .trailers]
    else .field [.expression .method] [] t

/-- Reads behind the name of a member. -/
def readMethod (t : Sight) : Reading :=
  if t.isPathMark then .takeAll 2 [.marks ['<'], .type .arguments, .expression .call]
  else readTrailers t

/-- Reads behind the type of a cast. -/
def readCastEnd (t : Sight) : Reading :=
  let member := t.skip 1
  let call := t.skip 2
  if t.isPoint then
    .fail (.castFollowed
      (if member.isWord "await" then .await
        else if member.isName ∧ (call.isGroup .paren ∨ call.isPathMark) then .method
        else .field))
  else if t.shows ['?'] then .fail (.castFollowed .question)
  else if t.isGroup .bracket then .fail (.castFollowed .index)
  else if t.isGroup .paren then .fail (.castFollowed .call)
  else .pass

/-- Reads on in a path that is an operand. -/
def readPath (records : Bool) (s : PathSite) (t : Sight) : Reading :=
  match Path.read? (.operand records) s t with
  | some r => r
  | none =>
    if ¬s.shape.qualified ∧ s.shape.bare ∧ t.isBang then .take [.macroArguments]
    else if records ∧ t.isGroup .brace then .enter [.elements .recordField] []
    else .pass

/-! ## Closures -/

/-- Reads the words in front of the parameters of a closure that may still come. -/
def readClosureWords (rest : List String) (records : Bool) (t : Sight) : Reading :=
  match rest.dropWhile fun w => !t.isWord w with
  | [] => .marks ['|'] [.expression (.parameters records)] t
  | _ :: rest => .take [.expression (.closureWords rest records)]

/-- Reads a parameter of a closure. -/
def readParameter (records : Bool) (t : Sight) : Reading :=
  if t.shows ['#'] then .take [.attribute .brackets, .expression (.parameter records)]
  else
    (PatternPart.readSingle false t).andThen
      [.expression .parameterType, .expression (.parameterEnd records)]

/-- Reads the parameters of a closure. -/
def readParameters (records : Bool) (t : Sight) : Reading :=
  if t.shows ['|'] then .take [.expression (.closureBody records)] else readParameter records t

/-- Reads behind a parameter of a closure. -/
def readParameterEnd (records : Bool) (t : Sight) : Reading :=
  if t.shows ['|'] then .take [.expression (.closureBody records)]
  else .marks [','] [.expression (.parameters records)] t

/-! ## Blocks -/

/-- The parts of the head of a block. -/
def head : Part := .expression (.chain false (.fresh .all))

/-- The block of a loop, which may start with attributes of its own. -/
def body : Part := .group (.body .statements)

/-- The parts of a loop behind `for`. -/
def loopParts : List Part := [.pattern (.choice false), .keyword "in", head, body]

/-- The parts of an `if` behind its keyword. -/
def ifParts : List Part := [head, .group .block, .expression .alternative]

/-- Reads behind a label. -/
def readLabelled (t : Sight) : Reading :=
  if t.isWord "while" then .take [head, body]
  else if t.isWord "for" then .take loopParts
  else if t.isWord "loop" then .take [body]
  else if t.isGroup .brace then (Content.body .statements).read [] t
  else .expected .labelled t

/-- Reads behind `else`. -/
def readAlternativeBlock (t : Sight) : Reading :=
  if t.isWord "if" then .take ifParts
  else if t.isGroup .brace then Content.block.read [] t
  else .expectedOneOf [.keyword "if", .group .brace] t

/-- Whether a closure comes next that starts with `for`, and not a loop. -/
def startsQuantified (t : Sight) : Bool := t.isWord "for" && (t.skip 1).opensParameters

/-- Whether an operand comes next that ends with its block. -/
def startsBlock (t : Sight) : Bool :=
  t.isGroup .brace || t.isLifetime ||
    ["if", "while", "loop", "match", "unsafe"].any (t.isWord ·) ||
    (t.isWord "for" && !startsQuantified t) ||
    ((t.isWord "try" || t.isWord "const") && (t.skip 1).isGroup .brace)

/-! ## Operands -/

/-- Reads an operand that starts with `async`. -/
def readAsync (records : Bool) (t : Sight) : Reading :=
  let next := t.skip 1
  if next.isGroup .brace then .take [.group .block]
  else if next.isWord "move" ∧ (t.skip 2).isGroup .brace then .takeAll 2 [.group .block]
  else if next.isWord "move" ∨ next.shows ['|'] then
    .take [.expression (.closureWords ["move"] records)]
  else .expected .expression t

/-- Reads an operand that starts with `break`.  A loop behind a label is the value, and needs
parentheses. -/
def readBreak (records : Bool) (t : Sight) : Reading :=
  if ¬(t.skip 1).isLifetime then .take [.expression (.exit records)]
  else if (t.skip 3).shows [':'] then
    .takeAll 4
      [.expression .labelled, .expression .trailers, .expression (.operators true (.fresh .all)),
        .reject .bareLabel]
  else .takeAll 3 [.expression (.exit records)]

/-- Reads an operand that starts with a word. -/
def readWord (records : Bool) (w : String) (t : Sight) : Reading :=
  let next := t.skip 1
  let closure (rest : List String) : List Part := [.expression (.closureWords rest records)]
  match w with
  | "true" | "false" | "_" => .take []
  | "async" => readAsync records t
  | "try" =>
    if next.isGroup .brace then .take [.group .block]
    else if next.shows ['!'] ∨ next.isPathMark then TypePart.readRelative (.operand records) t
    else .expected .expression t
  | "move" => .take (closure [])
  | "static" => .take (closure ["async", "move"])
  | "const" =>
    .take (if next.isGroup .brace then [body] else closure ["static", "async", "move"])
  | "for" =>
    .take
      (if startsQuantified t then binderParts ++ closure ["const", "static", "async", "move"]
        else loopParts)
  | "if" => .take ifParts
  | "while" => .take [head, body]
  | "match" => .take [head, .group (.body .arms)]
  | "loop" | "unsafe" => .take [body]
  | "let" =>
    .take
      [.pattern (.choice false), .marks ['='], .expression (.chain records (.fresh .comparison))]
  | "break" => readBreak records t
  | "continue" => .takeAll (if next.isLifetime then 3 else 1) []
  | "return" | "yield" => .take [.expression .optional]
  | "become" => .take [.expression (.chain true (.fresh .all))]
  | _ =>
    if TypePart.isBuiltin t then TypePart.readBuiltin []
    else if t.isSegment then TypePart.readRelative (.operand records) t
    else .expected .expression t

/-- Reads an operand without anything in front of or behind it. -/
def readAtom (records : Bool) (t : Sight) : Reading :=
  match t.tokens with
  | .literal _ :: _ => .take []
  | .word w :: _ => readWord records w t
  | .group .paren _ :: _ => .enter [.elements .expression] []
  | .group .bracket _ :: _ => .enter [.expression .array] []
  | .group .brace _ :: _ => (Content.body .statements).read [] t
  | .group .none _ :: _ => .enter [.expression (.chain true (.fresh .all))] []
  | _ =>
    if t.shows ['|'] then .take [.expression (.parameters records)]
    else if t.isPathMark then .takeAll 2 [.path (.operand records) (.segment .absolute)]
    else if t.shows ['<'] then
      .take [.type (.start true false), .type (.qualifier (.operand records))]
    else if t.isLifetime then .takeAll 2 [.marks [':'], .expression .labelled]
    else .expected .expression t

/-- Reads an operand. -/
def readOperand (records : Bool) (t : Sight) : Reading :=
  let operand : List Part := [.expression (.operand records)]
  let next := t.skip 1
  if t.shows ['#'] then .take [.attribute .brackets, .expression (.attributed records)]
  else if t.shows ['&'] then
    if next.isWord "raw" ∧ ((t.skip 2).isWord "mut" ∨ (t.skip 2).isWord "const") then
      .takeAll 3 operand
    else .takeAll (if next.isWord "mut" then 2 else 1) operand
  else if t.shows ['*'] ∨ t.shows ['!'] ∨ t.shows ['-'] then .take operand
  else
    (readRange records [] t).orElse ((readAtom records t).andThen [.expression .trailers])

/-- Reads an operand with attributes in front of it. -/
def readAttributed (records : Bool) (t : Sight) : Reading :=
  (readRange records [.reject .attributesOnRange] t).orElse (readOperand records t)

/-- Reads an operand and the operators behind it. -/
def readChain (records : Bool) (c : Chain) (t : Sight) : Reading :=
  (readRange records [.expression (.operators records { c with range := true })] t).orElse
    ((readOperand records t).andThen [.expression (.operators records c)])

/-- Reads the end of a range, if it has one. -/
def readRangeEnd (records closed : Bool) (t : Sight) : Reading :=
  if ¬closed ∧ endsRange records t then .pass else readChain records (.fresh .limit) t

/-! ## Optional operands -/

/-- Whether an expression may start at a token. -/
def startsExpression (t : Sight) : Bool :=
  (t.isAnyWord && !t.isWord "as") || t.isAnyGroup || t.isLiteral || t.isBang ||
    (t.shows ['-'] && !t.shows ['-', '='] && !t.shows ['-', '>']) ||
    (t.shows ['*'] && !t.shows ['*', '=']) || (t.shows ['|'] && !t.shows ['|', '=']) ||
    (t.shows ['&'] && !t.shows ['&', '=']) || t.shows ['.', '.'] ||
    (t.shows ['<'] && !t.shows ['<', '='] && !t.shows ['<', '<', '=']) || t.isPathMark ||
    t.isLifetime || t.shows ['#']

/-- Reads an expression, if there is one. -/
def readOptional (t : Sight) : Reading :=
  if startsExpression t then readChain true (.fresh .all) t else .pass

/-! ## Fields and elements -/

/-- Reads a field of a record. -/
def readField (t : Sight) : Reading :=
  if t.shows ['#'] then .take [.attribute .brackets, .element .recordField]
  else
    .field [.expression .fieldValue, .comma .recordField]
      [.marks [':'], .expression (.chain true (.fresh .all)), .comma .recordField] t

/-- Reads behind the first element of an array. -/
def readElementEnd (t : Sight) : Reading :=
  if t.isEnd then .pass
  else if t.shows [','] then .take [.elements .expression]
  else if t.shows [';'] then .take [.expression (.chain true (.fresh .all))]
  else .expectedOneOf [.marks ",", .marks ";"] t

/-! ## All parts -/

/-- What a part of an expression does with the tokens that come next. -/
def read (p : ExpressionPart) (t : Sight) : Reading :=
  match p with
  | chain records c => readChain records c t
  | operators records c => readOperators records c t
  | operand records => readOperand records t
  | attributed records => readAttributed records t
  | rangeEnd records closed => readRangeEnd records closed t
  | trailers => readTrailers t
  | member several => readMember several t
  | method => readMethod t
  | call => .group .paren [.elements .expression] [.expression .trailers] t
  | castEnd => readCastEnd t
  | closureWords rest records => readClosureWords rest records t
  | parameters records => readParameters records t
  | parameter records => readParameter records t
  | parameterType => if t.shows [':'] then .take [.type (.start true false)] else .pass
  | parameterEnd records => readParameterEnd records t
  | closureBody records =>
    if t.shows ['-', '>'] then .takeAll 2 [.type (.start true false), .group .block]
    else readChain records (.fresh .all) t
  | .optional => readOptional t
  | exit records => if ¬records ∧ t.isGroup .brace then .pass else readOptional t
  | labelled => readLabelled t
  | alternative => if t.isWord "else" then .take [.expression .alternativeBlock] else .pass
  | alternativeBlock => readAlternativeBlock t
  | array =>
    if t.isEnd then .pass
    else (readChain true (.fresh .all) t).andThen [.expression .elementEnd]
  | elementEnd => readElementEnd t
  | fieldValue =>
    if t.shows [':'] then .take [.expression (.chain true (.fresh .all))] else .pass
  | base => if t.isEnd then .pass else readChain true (.fresh .all) t

end ExpressionPart

end ObjectPath.Derive.Grammar
