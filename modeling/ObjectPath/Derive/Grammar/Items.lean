import ObjectPath.Derive.Grammar.Expressions

/-!
# Items

Readings of the parts of items: functions, types, imports and whatever else may be declared in a
block, in a module, in a trait, in an implementation or among the declarations of another language.
What an item is may only be seen behind several words, as `const unsafe extern "C" fn`; then it is
read from its first word on.
-/

namespace ObjectPath.Derive.Grammar

/-- What was read behind a parameter that is not `self`. -/
def Inputs.addPlain (s : Inputs) : Inputs := if s = .none then .plain else s

namespace ItemPart

/-! ## Parts of several items -/

/-- The part of a type. -/
def typePart : Part := .type (.start true false)

/-- The part of an expression. -/
def valuePart : Part := .expression (.chain true (.fresh .all))

/-- The part of the semicolon behind an item. -/
def semicolon : Part := .marks [';']

/-- The parts of a name and of generic parameters. -/
def headParts : List Part := [.name, .generic .optional]

/-- The part of items in braces. -/
def itemsPart (h : Home) : Part := .group (.body (.items h))

/-- The parts of a `where` clause and of items in braces. -/
def constrainedItems (h : Home) : List Part := [.generic .clause, itemsPart h]

/-- Reads a `where` clause, if there is one, and items in braces. -/
def readConstrainedItems (h : Home) (t : Sight) : Reading :=
  if t.isWord "where" then .take [.generic .clauseStart, itemsPart h]
  else (Content.body (.items h)).read [] t

/-! ## Visibilities -/

/-- Reads what restricts a visibility.  Parentheses that hold something else are no restriction. -/
def readRestriction (t : Sight) : Reading :=
  match t.tokens with
  | .group .paren (.word "in" :: _) :: _ => .enter [.keyword "in", .barePath .start] []
  | .group .paren [.word w] :: _ =>
    if ["crate", "self", "super"].contains w then .take [] else .pass
  | _ => .pass

/-! ## Functions -/

/-- What comes behind a word, if it comes next. -/
def dropWord (w : String) (t : Sight) : Sight := if t.isWord w then t.skip 1 else t

/-- What comes behind `extern` and its literal, if they come next. -/
def dropLinkage (t : Sight) : Sight :=
  if t.isWord "extern" then t.skip (if (t.skip 1).isText then 2 else 1) else t

/-- The words that a function may start with. -/
def functionWords (h : Home) : List String :=
  ["const", "async", "unsafe"] ++ if h = .foreign then ["safe"] else []

/-- Whether a function comes next. -/
def startsFunction (h : Home) (t : Sight) : Bool :=
  let t := dropWord "async" (dropWord "const" t)
  let t := if h = .foreign ∧ t.isWord "safe" then t.skip 1 else dropWord "unsafe" t
  (dropLinkage t).isWord "fn"

/-- Reads a function up to the end of its signature. -/
def readSignature (rest : List String) (linkage : Bool) (t : Sight) : Reading :=
  match rest.dropWhile fun w => !t.isWord w with
  | _ :: rest => .take [.item (.signature rest true)]
  | [] =>
    if linkage ∧ t.isWord "extern" then TypePart.readLinkage [.item (.signature [] false)] t
    else .keyword "fn" (headParts ++ [.group .inputs, .type (.result true), .generic .clause]) t

/-- Reads a function. -/
def readFunction (h : Home) (t : Sight) : Reading :=
  (readSignature (functionWords h) true t).andThen [.item (.functionBody h)]

/-- Reads behind the signature of a function. -/
def readFunctionBody (h : Home) (t : Sight) : Reading :=
  let body := (Content.body .statements).read [] t
  match h with
  | .free | .implementation => if t.shows [';'] then .take [] else body
  | .foreign => if t.isGroup .brace then body else .marks [';'] [] t
  | .trait =>
    if t.shows [';'] then .take []
    else if t.isGroup .brace then body
    else .expectedOneOf [.group .brace, .marks ";"] t

/-! ## Parameters of a function -/

/-- The dots that stand for any further parameters. -/
def dots : List Char := ['.', '.', '.']

/-- Reads behind a parameter. -/
def readInputEnd (s : Inputs) (t : Sight) : Reading :=
  if t.isEnd then .pass else .marks [','] [.item (.input s false)] t

/-- The part behind `self`. -/
def receiverEnd (s : Inputs) : Part :=
  if s = .none then .item (.inputEnd .receiver) else .reject (.receiver (s = .receiver))

/-- Reads the type of `self`, if it is given. -/
def readReceiverType (s : Inputs) (t : Sight) : Reading :=
  if t.shows [':'] then .take [typePart, receiverEnd s]
  else if s = .none then readInputEnd .receiver t
  else .fail (.receiver (s = .receiver))

/-- Reads the type of a parameter. -/
def readInputType (s : Inputs) (t : Sight) : Reading :=
  if t.shows dots then .takeAll 3 [.item .variadicEnd]
  else (TypePart.readStart true false t).andThen [.item (.inputEnd s)]

/-- The number of tokens in front of the name of a parameter that may be `self`. -/
def receiverStart (t : Sight) : Nat :=
  let n := if t.shows ['&'] then if (t.skip 1).isLifetime then 3 else 1 else 0
  if (t.skip n).isWord "mut" then n + 1 else n

/-- Reads a parameter behind its attributes.  A reference to `self` has no type of its own. -/
def readPlainInput (s : Inputs) (t : Sight) : Reading :=
  let n := receiverStart t
  if (t.skip n).isWord "self" ∧ ¬(t.skip (n + 1)).isPathMark then
    .takeAll (n + 1) [if t.shows ['&'] then receiverEnd s else .item (.receiverType s)]
  else if t.isName ∧ (t.skip 1).shows ['<'] then
    (TypePart.readStart true false t).andThen [.item (.inputEnd s.addPlain)]
  else (PatternPart.readSingle false t).andThen [.marks [':'], .item (.inputType s.addPlain)]

/-- Reads a parameter, or the end of the parameters. -/
def readInput (s : Inputs) (attributed : Bool) (t : Sight) : Reading :=
  if t.isEnd ∧ ¬attributed then .pass
  else if t.shows ['#'] then .take [.attribute .brackets, .item (.input s true)]
  else if t.shows dots then .takeAll 3 [.item .variadicEnd]
  else readPlainInput s t

/-! ## Constants and variables -/

/-- The parts of a constant behind its keyword. -/
def constantParts : List Part :=
  [.item .constantName, .generic .optional, .marks [':'], typePart, .item .value, .generic .clause,
    semicolon]

/-- Reads the name of a constant. -/
def readConstantName (t : Sight) : Reading :=
  if t.isName ∨ t.isWord "_" then .take [] else .expectedOneOf [.name, .keyword "_"] t

/-- Reads behind the name of a variable. -/
def readVariableType (t : Sight) : Reading :=
  if t.shows ['='] then .take [valuePart, semicolon]
  else .marks [':'] [typePart, .item .variableValue] t

/-- Reads behind the type of a variable. -/
def readVariableValue (t : Sight) : Reading :=
  if t.shows [';'] then .take [] else .marks ['='] [valuePart, semicolon] t

/-! ## Imports -/

/-- Reads an imported tree. -/
def readImported (root : Bool) (t : Sight) : Reading :=
  let words : List String := ["self", "super", "crate", "try"]
  if root ∧ t.isPathMark then .takeAll 2 [.item (.imported false)]
  else if t.isName ∨ words.any (t.isWord ·) then .take [.item .importedName]
  else if t.shows ['*'] then .take []
  else if t.isGroup .brace then .enter [.item (.importedTrees root)] []
  else .expectedOneOf (.name :: words.map .keyword ++ [.marks "*", .group .brace]) t

/-- Reads behind a name of an imported tree. -/
def readImportedName (t : Sight) : Reading :=
  if t.isPathMark then .takeAll 2 [.item (.imported false)]
  else if t.isWord "as" then .take [.item .importName]
  else .pass

/-- Reads imported trees in braces. -/
def readImportedTrees (root : Bool) (t : Sight) : Reading :=
  if t.isEnd then .pass else (readImported root t).andThen [.item (.importedTreeEnd root)]

/-! ## Types -/

/-- The parts of a declared type behind its keyword. -/
def typeParts (h : Home) : List Part :=
  let definition : List Part :=
    match h with
    | .free => [.generic .clause, .item .definition]
    | .foreign => [.item .foreignDefinition]
    | .trait | .implementation => [.item .definition, .generic .clause]
  headParts ++ .generic (.bounds .declaration) :: definition ++ [semicolon]

/-- Reads the definition of a type, if it is given; `ps` are the parts behind it. -/
def readDefinition (ps : List Part) (t : Sight) : Reading :=
  if t.shows ['='] then .take (typePart :: ps) else .pass

/-- Reads behind the name and the parameters of a structure. -/
def readStructureBody (constrained : Bool) (t : Sight) : Reading :=
  let terms : List Term := [.group .brace, .marks ";"]
  if ¬constrained ∧ t.isWord "where" then
    .take [.generic .clauseStart, .item (.structureBody true)]
  else if ¬constrained ∧ t.isGroup .paren then
    .enter [.elements .positionalField] [.item (.tupleEnd false)]
  else if t.isGroup .brace then Content.namedFields.read [] t
  else if t.shows [';'] then .take []
  else .expectedOneOf (if constrained then terms else .keyword "where" :: .group .paren :: terms) t

/-- Reads behind the fields of a tuple. -/
def readTupleEnd (constrained : Bool) (t : Sight) : Reading :=
  if ¬constrained ∧ t.isWord "where" then .take [.generic .clauseStart, .item (.tupleEnd true)]
  else if t.shows [';'] then .take []
  else .expectedOneOf (if constrained then [.marks ";"] else [.keyword "where", .marks ";"]) t

/-! ## Fields and variants -/

/-- Reads the name of a field. -/
def readFieldName (t : Sight) : Reading :=
  if t.isWord "_" then .take [.marks [':'], .item .unnamedType]
  else .name [.marks [':'], typePart] t

/-- Reads the type of a field without a name, which may be a list of fields. -/
def readUnnamedType (t : Sight) : Reading :=
  if t.isWord "struct" ∨ (t.isWord "union" ∧ (t.skip 1).isGroup .brace) then
    .take [.group .namedFields]
  else TypePart.readStart true false t

/-- Reads the fields of a variant, if it has any. -/
def readVariantFields (t : Sight) : Reading :=
  if t.isGroup .brace then Content.namedFields.read [] t
  else if t.isGroup .paren then .enter [.elements .positionalField] []
  else .pass

/-- Reads a field or a variant, with attributes and a visibility if it has them. -/
def readElement (e : Element) (t : Sight) : Reading :=
  let variantParts : List Part := [.item .variantFields, .item .value]
  let (parts, reading) : List Part × Reading :=
    match e with
    | .positionalField => ([typePart], TypePart.readStart true false t)
    | .variant => (.name :: variantParts, .name variantParts t)
    | _ => ([.item .fieldName], readFieldName t)
  if t.shows ['#'] then .take [.attribute .brackets, .element e]
  else if t.isWord "pub" then .take (.item .restriction :: parts ++ [.comma e])
  else reading.andThen [.comma e]

/-! ## Traits and implementations -/

/-- The parts of a trait behind its keyword if it is no other name for bounds. -/
def traitParts : List Part :=
  headParts ++ .generic (.bounds .trait) :: constrainedItems .trait

/-- Reads behind the name and the parameters of a trait. -/
def readTraitBody (t : Sight) : Reading :=
  if t.isGroup .brace ∨ t.isWord "where" then readConstrainedItems .trait t
  else if t.shows [':'] then .take (.bound (.optional .trait true) :: constrainedItems .trait)
  else if t.shows ['='] then
    .take [.bound (.optional .synonym true), .generic .clause, semicolon]
  else .expectedOneOf [.group .brace, .marks ":", .keyword "where", .marks "="] t

/-- The parts of an implementation behind its keyword. -/
def implementationParts : List Part :=
  [.item .implementationParameters, .item .implementationConst, .item .implementationType]

/-- Reads behind the parameters of an implementation. -/
def readImplementationConst (t : Sight) : Reading :=
  if t.isWord "const" then .take []
  else if t.shows ['?'] ∧ (t.skip 1).isWord "const" then .takeAll 2 []
  else .pass

/-- Reads the first type of an implementation. -/
def readImplementationType (t : Sight) : Reading :=
  if t.shows ['!'] ∧ ¬(t.skip 1).isGroup .brace then
    .take [typePart, .item (.implementationFor true)]
  else (TypePart.readStart true false t).andThen [.item (.implementationFor false)]

/-- Reads behind the first type of an implementation. -/
def readImplementationFor (negated : Bool) (t : Sight) : Reading :=
  if t.isWord "for" then .take (typePart :: constrainedItems .implementation)
  else if negated then .fail .negativeInherent
  else readConstrainedItems .implementation t

/-! ## Macros -/

/-- Reads behind the name of a macro that is declared. -/
def readMacroBody (applied : Bool) (t : Sight) : Reading :=
  if ¬applied ∧ t.isGroup .paren then .take [.item (.macroBody true)]
  else if t.isGroup .brace then .take []
  else .expectedOneOf (if applied then [.group .brace] else [.group .paren, .group .brace]) t

/-- Reads the arguments of a macro that is an item. -/
def readMacroArguments (t : Sight) : Reading :=
  .macroArguments (if t.isGroup .brace then [] else [semicolon]) t

/-- Reads behind the name of a macro that is called.  In a block or a module a name may follow. -/
def readMacroName (t : Sight) : Reading :=
  if t.isName ∨ t.isWord "try" then .take [.item .macroArguments] else readMacroArguments t

/-- The tokens that a macro may start with. -/
def macroStarts : List Term :=
  [.name, .keyword "self", .keyword "super", .keyword "crate", .marks "::"]

/-- Reads a macro that is an item, unless something stands in front of it.  `terms` are the tokens
that any other item may start with. -/
def readMacro (h : Home) (behindWords : Bool) (terms : List Term) (t : Sight) : Reading :=
  let starts : Bool :=
    t.isName || t.isWord "self" || t.isWord "super" || t.isWord "crate" || t.isPathMark
  if behindWords then .expectedOneOf terms t
  else if starts then
    (Path.readBare .start t).andThen
      [.marks ['!'], .item (if h = .free then .macroName else .macroArguments)]
  else .expectedOneOf (terms ++ macroStarts) t

/-! ## Items -/

/-- Refuses a visibility in front of foreign declarations. -/
def failVisible : Reading := .fail (.expected (.keyword "extern") false)

/-- Reads an item that starts with `extern`. -/
def readExtern (visible : Bool) (t : Sight) : Reading :=
  let next := t.skip 1
  let block (n : Nat) : Reading := if visible then failVisible else .takeAll n [itemsPart .foreign]
  if next.isWord "crate" then .takeAll 2 [.nameOr "self", .item .libraryName, semicolon]
  else if next.isGroup .brace then block 1
  else if next.isText then
    if (t.skip 2).isGroup .brace then block 2 else .expectedOneOf [.group .brace] (t.skip 2)
  else .expectedOneOf [.keyword "crate", .group .brace, .text] next

/-- The parts of a module behind its keyword. -/
def moduleParts : List Part := [.nameOr "try", .item .moduleBody]

/-- Reads an item that starts with `unsafe`. -/
def readUnsafe (visible : Bool) (t : Sight) : Reading :=
  let next := t.skip 1
  if next.isWord "trait" then .takeAll 2 traitParts
  else if next.isWord "auto" ∧ (t.skip 2).isWord "trait" then .takeAll 3 traitParts
  else if next.isWord "impl" then .takeAll 2 implementationParts
  else if next.isWord "extern" then
    if visible then failVisible
    else .takeAll (if (t.skip 2).isText then 3 else 2) [itemsPart .foreign]
  else if next.isWord "mod" then .takeAll 2 moduleParts
  else .expectedOneOf (["trait", "auto", "impl", "extern", "mod"].map .keyword) next

/-- The words that an item of a block or a module may start with. -/
def freeWords : List String :=
  ["fn", "extern", "use", "static", "const", "unsafe", "mod", "type", "struct", "enum", "union",
    "trait", "auto", "impl", "default", "macro"]

/-- Reads an item of a block or a module that is no function. -/
def readFree (visible : Bool) (t : Sight) : Reading :=
  let next := t.skip 1
  if t.isWord "extern" then readExtern visible t
  else if t.isWord "use" then .take [.item (.imported true), semicolon]
  else if t.isWord "static" then .take [.optionalWord "mut", .name, .item .variableType]
  else if t.isWord "const" then .take constantParts
  else if t.isWord "unsafe" then readUnsafe visible t
  else if t.isWord "mod" then .take moduleParts
  else if t.isWord "type" then .take (typeParts .free)
  else if t.isWord "struct" then .take (headParts ++ [.item (.structureBody false)])
  else if t.isWord "enum" then .take (headParts ++ [.generic .clause, .group .variants])
  else if t.isWord "union" ∧ next.isName then
    .take (headParts ++ [.generic .clause, .group .namedFields])
  else if t.isWord "trait" then .take (headParts ++ [.item .traitBody])
  else if t.isWord "auto" ∧ next.isWord "trait" then .takeAll 2 traitParts
  else if t.isWord "impl" then .take implementationParts
  else if t.isWord "default" ∧ ¬next.shows ['!'] then
    .take ([.optionalWord "unsafe", .keyword "impl"] ++ implementationParts)
  else if t.isWord "macro" then .take [.name, .item (.macroBody false)]
  else readMacro .free visible (freeWords.map .keyword) t

/-- Reads a foreign item that is no function. -/
def readForeign (visible : Bool) (t : Sight) : Reading :=
  let marked : Bool := (t.isWord "unsafe" || t.isWord "safe") && (t.skip 1).isWord "static"
  if marked ∨ t.isWord "static" then
    .takeAll (if marked then 2 else 1)
      [.optionalWord "mut", .name, .marks [':'], typePart, .item .value, semicolon]
  else if t.isWord "type" then .take (typeParts .foreign)
  else readMacro .foreign visible (["fn", "static", "type"].map .keyword) t

/-- Reads an item of a trait that is no function, behind a `default` if `preset`. -/
def readTraitItem (visible preset : Bool) (t : Sight) : Reading :=
  let next := t.skip 1
  let words : List String := ["async", "unsafe", "extern", "fn"]
  if t.isWord "const" then
    if next.isName ∨ next.isWord "_" then .take constantParts
    else if words.any (next.isWord ·) then readFunction .trait t
    else .expectedOneOf ([.name, .keyword "_"] ++ words.map .keyword) next
  else if t.isWord "type" then .take (typeParts .trait)
  else readMacro .trait (visible || preset) (["fn", "const", "type"].map .keyword) t

/-- Reads an item of an implementation that is no function, behind a `default` if `preset`. -/
def readImplementationItem (visible preset : Bool) (t : Sight) : Reading :=
  let words : List String := ["fn", "const", "type"]
  if t.isWord "const" then .take constantParts
  else if t.isWord "type" then .take (typeParts .implementation)
  else
    readMacro .implementation (visible || preset)
      ((if preset then words else "default" :: words).map .keyword) t

/-- Whether a `default` in front of an item comes next. -/
def isPreset (h : Home) (t : Sight) : Bool :=
  t.isWord "default" && (h = .trait || (h = .implementation && !(t.skip 1).shows ['!']))

/-- Reads an item behind its visibility. -/
def readKind (h : Home) (visible preset : Bool) (t : Sight) : Reading :=
  if ¬preset ∧ isPreset h t then .take [.item (.kind h visible true)]
  else if startsFunction h t then readFunction h t
  else
    match h with
    | .free => readFree visible t
    | .foreign => readForeign visible t
    | .trait => readTraitItem visible preset t
    | .implementation => readImplementationItem visible preset t

/-- Reads an item. -/
def readItem (h : Home) (t : Sight) : Reading :=
  if t.shows ['#'] then .take [.attribute .brackets, .item (.item h)]
  else if t.isWord "pub" then .take [.item .restriction, .item (.kind h true false)]
  else readKind h false false t

/-! ## All parts -/

/-- What a part of an item does with the tokens that come next. -/
def read (p : ItemPart) (t : Sight) : Reading :=
  match p with
  | items h => if t.isEnd then .pass else (readItem h t).andThen [.item (.items h)]
  | item h => readItem h t
  | restriction => readRestriction t
  | kind h visible preset => readKind h visible preset t
  | signature rest linkage => readSignature rest linkage t
  | input s attributed => readInput s attributed t
  | receiverType s => readReceiverType s t
  | inputType s => readInputType s t
  | inputEnd s => readInputEnd s t
  | variadicEnd => if t.isEnd then .pass else .marks [','] [] t
  | functionBody h => readFunctionBody h t
  | constantName => readConstantName t
  | value => if t.shows ['='] then .take [valuePart] else .pass
  | variableType => readVariableType t
  | variableValue => readVariableValue t
  | imported root => readImported root t
  | importedName => readImportedName t
  | importName => if t.isName ∨ t.isWord "_" then .take [] else .expected .importName t
  | importedTrees root => readImportedTrees root t
  | importedTreeEnd root =>
    if t.isEnd then .pass else .marks [','] [.item (.importedTrees root)] t
  | libraryName => if t.isWord "as" then .take [.nameOr "_"] else .pass
  | moduleBody =>
    if t.shows [';'] then .take []
    else if t.isGroup .brace then (Content.body (.items .free)).read [] t
    else .expectedOneOf [.marks ";", .group .brace] t
  | definition => readDefinition [] t
  | foreignDefinition =>
    if t.isWord "where" then .take [.generic .clauseStart, .item .definition]
    else readDefinition [.generic .clause] t
  | structureBody constrained => readStructureBody constrained t
  | tupleEnd constrained => readTupleEnd constrained t
  | traitBody => readTraitBody t
  | implementationParameters =>
    if t.opensParameters then .take [.generic (.list false)] else .pass
  | implementationConst => readImplementationConst t
  | implementationType => readImplementationType t
  | implementationFor negated => readImplementationFor negated t
  | macroBody applied => readMacroBody applied t
  | macroName => readMacroName t
  | macroArguments => readMacroArguments t
  | fieldName => readFieldName t
  | unnamedType => readUnnamedType t
  | variantFields => readVariantFields t

end ItemPart

end ObjectPath.Derive.Grammar
