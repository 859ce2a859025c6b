import ObjectPath.Derive.Grammar.Fault

/-!
# Parts of the grammar

A tag is an expression, and a setting is a path.  While one of them is read, what is still to come
is a list of parts, the next one first.  A part either takes the next token and leaves other parts
in its place, or it is empty and leaves the token to the part behind it; so the grammar is in the
normal form in which every production starts with a token.  Which production applies may depend on
tokens further behind.

A part is named after what it stands for or, if that depends on tokens already taken, after the
token in front of it.
-/

namespace ObjectPath.Derive.Grammar

/-! ## Paths -/

/-- What a path is read for. -/
inductive PathUse
  /-- For itself. -/
  | plain
  /-- For a type.  `plus` tells that further bounds may follow a `+`, `binding` that the name of an
  associated item may come instead. -/
  | type (plus binding : Bool)
  /-- For a trait that bounds a type. -/
  | trait
  /-- For a pattern, `inSlice` telling that it is an element of a slice. -/
  | pattern (inSlice : Bool)
  /-- For the end of a range in a pattern. -/
  | limit
  /-- For an operand.  In the head of a block `records` is false: braces behind a path start the
  block and not a record. -/
  | operand (records : Bool)
deriving DecidableEq, Repr

/-- What is known of a path that is being read. -/
structure PathShape where
  /-- A type in angle brackets starts it. -/
  qualified : Bool
  /-- It has one segment and nothing in front of it. -/
  single : Bool
  /-- No segment has arguments. -/
  bare : Bool
deriving DecidableEq, Repr

/-- What a path ends with so far. -/
inductive PathEnd
  /-- The keyword of a module, which has no arguments in angle brackets. -/
  | module
  | name
  | arguments
deriving DecidableEq, Repr

/-- Where a path stands. -/
inductive PathSite
  /-- In front of it. -/
  | start
  /-- Where only a segment may follow. -/
  | segment (s : PathShape)
  /-- Behind a segment or its arguments. -/
  | behind (s : PathShape) (e : PathEnd)
deriving DecidableEq, Repr

/-- Where a path without any arguments stands, as that of a macro or an attribute. -/
inductive BarePathSite
  | start
  /-- Behind the `::` in front of it. -/
  | first
  | behind
  /-- Behind a further `::`. -/
  | segment
deriving DecidableEq, Repr

/-! ## Bounds -/

/-- What bounds belong to.  `plus` tells that there may be several of them. -/
inductive BoundOwner
  /-- `dyn`, or nothing in front of a lifetime. -/
  | object (plus : Bool)
  /-- `impl`. -/
  | existential (plus : Bool)
  /-- An associated type among the arguments of a path. -/
  | constraint
  /-- A generic parameter. -/
  | parameter
  /-- The type of a `where` clause. -/
  | predicate
  /-- A trait. -/
  | trait
  /-- The declaration of a type. -/
  | declaration
  /-- Another name for bounds. -/
  | synonym
  /-- A path, which is the first bound. -/
  | path
  /-- A type in parentheses, which is the first bound. -/
  | parentheses
deriving DecidableEq, Repr

/-- Parts of bounds.  `seen` tells that one of the bounds so far is a trait, `quantified` that a
`for` stands in front of a bound. -/
inductive BoundPart
  /-- A bound and those behind it. -/
  | bound (o : BoundOwner) (seen : Bool)
  /-- Behind a bound. -/
  | behind (o : BoundOwner) (seen : Bool)
  /-- Bounds, if there are any. -/
  | optional (o : BoundOwner) (seen : Bool)
  /-- A trait with what may stand in front of it; `const` is one of that if it is allowed. -/
  | trait (const : Bool)
  /-- Behind a `for` in front of a trait. -/
  | quantified (const : Bool)
  /-- Behind a `const` in front of a trait. -/
  | constant (quantified : Bool)
  /-- Behind the question mark in front of a trait. -/
  | relaxed (quantified : Bool)
  /-- The parentheses behind a trait and a `::`. -/
  | call
  /-- What is captured, and the bracket behind it. -/
  | captures
  /-- Behind something that is captured. -/
  | captureEnd
deriving DecidableEq, Repr

/-! ## Types -/

/-- Parts of types. -/
inductive TypePart
  /-- A type. -/
  | start (plus binding : Bool)
  /-- Behind `for<..>`. -/
  | quantified (plus : Bool)
  /-- Behind the type or at the end of the angle brackets that start a path. -/
  | qualifier (u : PathUse)
  /-- Arguments in angle brackets and the bracket behind them. -/
  | arguments
  /-- Behind an argument in angle brackets. -/
  | argumentEnd
  /-- What an associated item is bound to. -/
  | value
  /-- Behind `unsafe`, and behind `extern` and its literal. -/
  | functionHead (linkage : Bool)
  /-- A parameter of a function, or the end of the parameters. -/
  | parameter (first attributed : Bool)
  /-- Behind a parameter. -/
  | parameterEnd
  /-- The result of a function, if it has one. -/
  | result (plus : Bool)
  /-- Behind the asterisk of a pointer. -/
  | pointee
  /-- Behind the ampersand of a reference and its lifetime. -/
  | reference
  /-- Behind `dyn`. -/
  | dynamic (plus : Bool)
  /-- Behind the first type of a tuple. -/
  | tupleEnd
  /-- Behind the type of the elements of an array or a slice. -/
  | elementEnd
deriving DecidableEq, Repr

/-! ## Generic parameters -/

/-- Parts of generic parameters and of `where` clauses.  `binder` tells that the parameters are
those of a `for`. -/
inductive GenericPart
  /-- Parameters in angle brackets, if there are any. -/
  | optional
  /-- Parameters and the bracket behind them. -/
  | list (binder : Bool)
  /-- A parameter behind its attributes. -/
  | parameter (binder : Bool)
  /-- Behind a parameter. -/
  | parameterEnd (binder : Bool)
  /-- The bounds of a type, if it has any. -/
  | bounds (o : BoundOwner)
  /-- The default of a type, if it has one. -/
  | typeDefault
  /-- The bounds of a lifetime, if it has any. -/
  | lifetimeBounds
  /-- A bound of a lifetime and those behind it; `inClause` tells that they are part of a `where`
  clause. -/
  | lifetimeBound (inClause : Bool)
  /-- Behind a bound of a lifetime. -/
  | lifetimeBoundEnd (inClause : Bool)
  /-- The default of a constant, if it has one. -/
  | constantDefault
  /-- The value of a constant. -/
  | constant
  /-- A `where` clause, if there is one. -/
  | clause
  /-- Behind `where`. -/
  | clauseStart
  /-- Further predicates. -/
  | predicates
  /-- Behind a predicate. -/
  | predicateEnd
deriving DecidableEq, Repr

/-! ## Patterns -/

/-- Parts of patterns.  `inSlice` tells that a pattern is an element of a slice. -/
inductive PatternPart
  /-- A pattern without alternatives. -/
  | single (inSlice : Bool)
  /-- A pattern. -/
  | choice (inSlice : Bool)
  /-- Further alternatives. -/
  | alternatives
  /-- Behind `ref`. -/
  | reference
  /-- A name with what it stands for. -/
  | binding
  /-- What a name stands for. -/
  | subpattern
  /-- Behind an ampersand. -/
  | pointer
  /-- Behind the start of a range, or a literal. -/
  | rangeEnd (inSlice : Bool)
  /-- The end of a range, `closed` telling that it is included and `start` that there is a start. -/
  | limit (closed start inSlice : Bool)
  /-- Behind a range without a start that is an element of a slice. -/
  | openRange
  /-- Behind some words in front of the name of a field. -/
  | fieldWords (rest : List String)
  /-- Behind the name of a field. -/
  | fieldName
deriving DecidableEq, Repr

/-! ## Expressions -/

/-- How far the operators of an expression go. -/
inductive Reach
  /-- As far as possible. -/
  | all
  /-- Up to an assignment or a range, as at the end of a range. -/
  | limit
  /-- Up to an operator that binds weaker than comparisons, as behind `let`. -/
  | comparison
deriving DecidableEq, Repr

/-- What is known of an expression in front of an operator. -/
structure Chain where
  reach : Reach
  /-- How many assignments there are whose right side is not complete. -/
  depth : Nat
  /-- The expression, or the right side of the innermost of these assignments, is a range. -/
  range : Bool
  /-- A comparison takes place between operators that bind weaker. -/
  compared : Bool
deriving DecidableEq, Repr

/-- An expression without any operator so far. -/
def Chain.fresh (r : Reach) : Chain := ⟨r, 0, false, false⟩

/-- Parts of expressions. -/
inductive ExpressionPart
  /-- An operand and the operators behind it. -/
  | chain (records : Bool) (c : Chain)
  /-- Operators and their operands. -/
  | operators (records : Bool) (c : Chain)
  /-- An operand. -/
  | operand (records : Bool)
  /-- An operand with attributes in front of it. -/
  | attributed (records : Bool)
  /-- The end of a range, if it has one. -/
  | rangeEnd (records closed : Bool)
  /-- Calls, members, indices and question marks. -/
  | trailers
  /-- Behind the point in front of a member.  `several` tells that a literal may hold several
  positions. -/
  | member (several : Bool)
  /-- Behind the name of a member. -/
  | method
  /-- The parentheses of a call. -/
  | call
  /-- Behind the type of a cast. -/
  | castEnd
  /-- The words in front of the parameters of a closure that may still come. -/
  | closureWords (rest : List String) (records : Bool)
  /-- The parameters of a closure. -/
  | parameters (records : Bool)
  /-- A parameter of a closure. -/
  | parameter (records : Bool)
  /-- The type of a parameter of a closure, if it has one. -/
  | parameterType
  /-- Behind a parameter of a closure. -/
  | parameterEnd (records : Bool)
  /-- Behind the parameters of a closure. -/
  | closureBody (records : Bool)
  /-- An expression, if there is one. -/
  | optional
  /-- The value of a `break`, if it has one. -/
  | exit (records : Bool)
  /-- Behind a label. -/
  | labelled
  /-- Behind the block of an `if`. -/
  | alternative
  /-- Behind `else`. -/
  | alternativeBlock
  /-- What the brackets of an array hold. -/
  | array
  /-- Behind the first element of an array. -/
  | elementEnd
  /-- The value of a field, if it is given. -/
  | fieldValue
  /-- What the other fields are taken from, if it is given. -/
  | base
deriving DecidableEq, Repr

/-! ## Statements -/

/-- Where an expression stands that may end with its block. -/
inductive Place
  /-- At the start of a statement. -/
  | statement
  /-- At the start of the value of a `match` arm. -/
  | arm
deriving DecidableEq, Repr

/-- Parts of blocks and of `match` arms. -/
inductive StatementPart
  /-- Statements. -/
  | statements
  /-- A statement and those behind it. -/
  | statement
  /-- Arms. -/
  | arms
  /-- An arm and those behind it. -/
  | arm
  /-- Behind the pattern of an arm. -/
  | guard
  /-- The expression of a statement or an arm. -/
  | expression (p : Place)
  /-- Behind an expression that has to be separated from what follows. -/
  | separator (p : Place)
  /-- Behind an expression that ends with its block. -/
  | blockEnd (p : Place)
  /-- Behind a macro with braces that starts a statement. -/
  | macroEnd
  /-- Behind the pattern of a `let`. -/
  | localType
  /-- The value of a `let`, if it has one. -/
  | localValue
  /-- Behind the value of a `let`. -/
  | localElse
deriving DecidableEq, Repr

/-! ## Items -/

/-- Where an item stands. -/
inductive Home
  /-- In a block or a module. -/
  | free
  /-- Among declarations of another language. -/
  | foreign
  /-- In a trait. -/
  | trait
  /-- In an implementation. -/
  | implementation
deriving DecidableEq, Repr

/-- Which parameters of a function were read. -/
inductive Inputs
  | none
  /-- Some, without `self`. -/
  | plain
  /-- Some, with `self`. -/
  | receiver
deriving DecidableEq, Repr

/-- Parts of items. -/
inductive ItemPart
  /-- Items. -/
  | items (h : Home)
  /-- An item. -/
  | item (h : Home)
  /-- What restricts a visibility, if it is restricted. -/
  | restriction
  /-- An item behind its visibility and, if `preset`, a `default`. -/
  | kind (h : Home) (visible preset : Bool)
  /-- The words in front of a function that may still come, and the function. -/
  | signature (rest : List String) (linkage : Bool)
  /-- A parameter of a function, or the end of the parameters. -/
  | input (s : Inputs) (attributed : Bool)
  /-- The type of `self`, if it is given, and what is behind it. -/
  | receiverType (s : Inputs)
  /-- The type of a parameter, and what is behind it. -/
  | inputType (s : Inputs)
  /-- Behind a parameter. -/
  | inputEnd (s : Inputs)
  /-- Behind the dots that stand for any further parameters. -/
  | variadicEnd
  /-- Behind the signature of a function. -/
  | functionBody (h : Home)
  /-- The name of a constant. -/
  | constantName
  /-- The value of a constant, if it is given. -/
  | value
  /-- Behind the name of a variable. -/
  | variableType
  /-- Behind the type of a variable. -/
  | variableValue
  /-- An imported tree, `root` telling that it may start with `::`. -/
  | imported (root : Bool)
  /-- Behind a name of an imported tree. -/
  | importedName
  /-- The name that an import is given. -/
  | importName
  /-- Imported trees in braces. -/
  | importedTrees (root : Bool)
  /-- Behind an imported tree in braces. -/
  | importedTreeEnd (root : Bool)
  /-- The name that a library is given, if it is given one. -/
  | libraryName
  /-- Behind the name of a module. -/
  | moduleBody
  /-- The definition of a type, if it is given. -/
  | definition
  /-- The definition of a foreign type and its `where` clause, in any order. -/
  | foreignDefinition
  /-- Behind the name and the parameters of a structure, `constrained` telling that there was a
  `where` clause. -/
  | structureBody (constrained : Bool)
  /-- Behind the fields of a tuple, and its `where` clause if `constrained`. -/
  | tupleEnd (constrained : Bool)
  /-- Behind the name and the parameters of a trait. -/
  | traitBody
  /-- The parameters of an implementation, if it has any. -/
  | implementationParameters
  /-- Behind the parameters of an implementation. -/
  | implementationConst
  /-- The first type of an implementation, or `!` in front of it. -/
  | implementationType
  /-- Behind the first type of an implementation. -/
  | implementationFor (negated : Bool)
  /-- Behind the name of a macro that is declared, and its parameters if `applied`. -/
  | macroBody (applied : Bool)
  /-- Behind the name of a macro that is called and the `!`. -/
  | macroName
  /-- The arguments of a macro that is an item. -/
  | macroArguments
  /-- The name of a field. -/
  | fieldName
  /-- The type of a field without a name. -/
  | unnamedType
  /-- The fields of a variant, if it has any. -/
  | variantFields
deriving DecidableEq, Repr

/-! ## All parts -/

/-- Parts of the attributes inside an expression. -/
inductive AttributePart
  /-- The brackets of an attribute. -/
  | brackets
  /-- What the brackets hold. -/
  | start
  /-- Behind the path of an attribute. -/
  | arguments
  /-- The value of an attribute. -/
  | value
deriving DecidableEq, Repr

/-- What the elements of a list are, which are separated by commas. -/
inductive Element
  | expression
  | type
  | pattern
  | slicePattern
  | recordField
  | patternField
  | namedField
  | positionalField
  | variant
deriving DecidableEq, Repr

/-- Lists that attributes may start which belong to what is around the list. -/
inductive Bodied
  | statements
  | arms
  | items (h : Home)
deriving DecidableEq, Repr

/-- What brackets hold. -/
inductive Content
  /-- Statements in braces. -/
  | block
  /-- A list in braces that may start with attributes. -/
  | body (b : Bodied)
  /-- Parameters of a function type. -/
  | parameters
  /-- Parameters of a function. -/
  | inputs
  /-- Types of parameters. -/
  | types
  /-- Fields with names. -/
  | namedFields
  /-- Variants of an enumeration. -/
  | variants
deriving DecidableEq, Repr

/-- A part of what is still to come. -/
inductive Part
  /-- A token that was seen behind others. -/
  | further
  | marks (ms : List Char)
  | keyword (w : String)
  /-- A word that may be left out. -/
  | optionalWord (w : String)
  | name
  /-- One of two names, `w` being a word that is no other name. -/
  | nameOr (w : String)
  /-- A comma that may be left out. -/
  | optionalComma
  /-- Brackets that hold any tokens. -/
  | anything (d : Delimiter)
  /-- The arguments of a macro. -/
  | macroArguments
  | group (c : Content)
  /-- Nothing is allowed to come here. -/
  | reject (f : Fault)
  /-- The elements of a list up to its end. -/
  | elements (e : Element)
  /-- An element of a list and those behind it. -/
  | element (e : Element)
  /-- Behind an element of a list. -/
  | comma (e : Element)
  /-- Attributes in front of a list, and the list. -/
  | attributes (b : Bodied)
  | path (u : PathUse) (s : PathSite)
  | barePath (s : BarePathSite)
  | attribute (p : AttributePart)
  | bound (p : BoundPart)
  | type (p : TypePart)
  | generic (p : GenericPart)
  | pattern (p : PatternPart)
  | expression (p : ExpressionPart)
  | statement (p : StatementPart)
  | item (p : ItemPart)
deriving DecidableEq, Repr

end ObjectPath.Derive.Grammar
