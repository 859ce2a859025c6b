import ObjectPath.Derive.Grammar.Items

/-!
# Statements and arms

Readings of the parts of blocks and of `match` arms.  An expression that ends with its block goes on
behind it only at a point or a question mark, and needs no separator.  The same holds of a macro
with braces that starts a statement.
-/

namespace ObjectPath.Derive.Grammar

namespace StatementPart

/-! ## Expressions -/

/-- The part of an expression. -/
def value : Part := .expression (.chain true (.fresh .all))

/-- Reads the expression of a statement or an arm. -/
def readExpression (p : Place) (t : Sight) : Reading :=
  if t.shows ['#'] then .take [.attribute .brackets, .statement (.expression p)]
  else if ExpressionPart.startsBlock t then
    (ExpressionPart.readAtom true t).andThen [.statement (.blockEnd p)]
  else (ExpressionPart.readChain true (.fresh .all) t).andThen [.statement (.separator p)]

/-- Reads behind an expression that has to be separated from what follows. -/
def readSeparator (p : Place) (t : Sight) : Reading :=
  match p with
  | .statement =>
    if t.isEnd then .pass
    else if t.shows [';'] then .take [.statement .statements]
    else .fail .unseparated
  | .arm => if t.isEnd then .pass else .marks [','] [.statement .arms] t

/-! ## Statements -/

/-- Whether an item comes next that starts with `static`, `const`, `unsafe` or `async`, and not an
expression. -/
def isQualifiedItem (t : Sight) : Bool :=
  let next := t.skip 1
  let isFunction (t : Sight) : Bool := t.isWord "unsafe" || t.isWord "extern" || t.isWord "fn"
  (t.isWord "static" && (next.isWord "mut" || next.isName)) ||
    (t.isWord "const" &&
      !(next.isGroup .brace || next.isWord "static" || next.isWord "move" || next.shows ['|'] ||
        (next.isWord "async" && !isFunction (t.skip 2)))) ||
    (t.isWord "unsafe" && !next.isGroup .brace) || (t.isWord "async" && isFunction next)

/-- Whether an item comes next that starts with a name. -/
def isNamedItem (t : Sight) : Bool :=
  let next := t.skip 1
  (t.isWord "union" && next.isName) || (t.isWord "auto" && next.isWord "trait") ||
    (t.isWord "default" && (next.isWord "unsafe" || next.isWord "impl"))

/-- Whether an item comes next that is no macro. -/
def isItem (t : Sight) : Bool :=
  ["pub", "extern", "use", "fn", "mod", "type", "struct", "enum", "trait", "impl", "macro"].any
      (t.isWord ·) ||
    (t.isWord "crate" && !(t.skip 1).isPathMark) || isQualifiedItem t || isNamedItem t

/-- The number of tokens of a path and a `!` that come next, if they do. -/
def macroLength? (words : List String) (t : Sight) : Option Nat :=
  (Path.bareLength? words t).bind fun n => if (t.skip n).shows ['!'] then some (n + 1) else none

/-- Whether a macro with braces goes on behind them. -/
def goesOn (t : Sight) : Bool := t.isPoint || t.shows ['?']

/-- The number of tokens of a macro with braces that comes next, if one does. -/
def braceMacroLength? (words : List String) (t : Sight) : Option Nat :=
  (macroLength? words t).bind fun n => if (t.skip n).isGroup .brace then some (n + 1) else none

/-- Whether a macro with a name behind it comes next. -/
def isNamedMacro (t : Sight) : Bool :=
  (macroLength? Sight.segmentWords t).any fun n => (t.skip n).isName || (t.skip n).isWord "try"

/-- Reads a statement that is neither a `let` nor an item. -/
def readOperation (t : Sight) : Reading :=
  match braceMacroLength? ("try" :: Sight.segmentWords) t with
  | some n => .takeAll n [.statement .macroEnd]
  | none => readExpression .statement t

/-- Reads a statement that is no macro by itself. -/
def readPlain (t : Sight) : Reading :=
  if t.shows ['#'] then .take [.attribute .brackets, .statement .statement]
  else if t.isWord "let" then .take [.pattern (.single false), .statement .localType]
  else if isNamedMacro t ∨ isItem t then
    (ItemPart.readItem .free t).andThen [.statement .statements]
  else readOperation t

/-- Reads a statement. -/
def readStatement (t : Sight) : Reading :=
  match braceMacroLength? Sight.segmentWords t with
  | some n => if goesOn (t.skip n) then readPlain t else .takeAll n [.statement .statements]
  | none => readPlain t

/-- Reads statements. -/
def readStatements (t : Sight) : Reading :=
  if t.isEnd then .pass
  else if t.shows [';'] then .take [.statement .statements]
  else readStatement t

/-! ## Declarations of names -/

/-- Reads behind the pattern of a `let` and its type. -/
def readLocalValue (t : Sight) : Reading :=
  if t.shows ['='] then .take [value, .statement .localElse]
  else .marks [';'] [.statement .statements] t

/-- Reads behind the pattern of a `let`. -/
def readLocalType (t : Sight) : Reading :=
  if t.shows [':'] then .take [.type (.start true false), .statement .localValue]
  else readLocalValue t

/-- Reads behind the value of a `let`.  A value that ends with braces has no `else`. -/
def readLocalElse (t : Sight) : Reading :=
  if t.isWord "else" ∧ ¬t.behindBraces then
    .take [.group .block, .marks [';'], .statement .statements]
  else .marks [';'] [.statement .statements] t

/-! ## Arms -/

/-- Reads an arm. -/
def readArm (t : Sight) : Reading :=
  if t.shows ['#'] then .take [.attribute .brackets, .statement .arm]
  else (PatternPart.readChoice false t).andThen [.statement .guard]

/-- Reads arms. -/
def readArms (t : Sight) : Reading := if t.isEnd then .pass else readArm t

/-- Reads behind the pattern of an arm. -/
def readGuard (t : Sight) : Reading :=
  let arrow : List Char := ['=', '>']
  if t.isWord "if" then .take [value, .marks arrow, .statement (.expression .arm)]
  else .marks arrow [.statement (.expression .arm)] t

/-! ## Behind a block -/

/-- Reads what goes on behind an expression that ends with its block. -/
def readFurther (p : Place) (t : Sight) : Reading :=
  let rest : List Part :=
    [.expression (.operators true (.fresh .all)), .statement (.separator p)]
  (ExpressionPart.readTrailers t).andThen rest

/-- Reads behind an expression that ends with its block. -/
def readBlockEnd (p : Place) (t : Sight) : Reading :=
  if goesOn t then readFurther p t
  else
    match p with
    | .statement => readStatements t
    | .arm => if t.shows [','] then .take [.statement .arms] else readArms t

/-- Reads behind a macro with braces that starts a statement and is an operand. -/
def readMacroEnd (t : Sight) : Reading :=
  ((readFurther .statement t).orElse
      ((ExpressionPart.readOperators true (.fresh .all) t).andThen
        [.statement (.separator .statement)])).orElse
    (readStatements t)

/-! ## All parts -/

/-- What a part of a block or an arm does with the tokens that come next. -/
def read (p : StatementPart) (t : Sight) : Reading :=
  match p with
  | statements => readStatements t
  | statement => readStatement t
  | arms => readArms t
  | arm => readArm t
  | guard => readGuard t
  | expression p => readExpression p t
  | separator p => readSeparator p t
  | blockEnd p => readBlockEnd p t
  | macroEnd => readMacroEnd t
  | localType => readLocalType t
  | localValue => readLocalValue t
  | localElse => readLocalElse t

end StatementPart

end ObjectPath.Derive.Grammar
