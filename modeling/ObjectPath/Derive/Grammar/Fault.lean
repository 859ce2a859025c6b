import ObjectPath.Derive.Token

/-!
# Faults of an expression

Why tokens are no expression or no path, and the wording of each reason.
-/

namespace ObjectPath.Derive.Grammar

/-- What a message can name of the tokens that may come at some place. -/
inductive Term
  | name
  | lifetime
  | literal
  | text
  | keyword (w : String)
  | marks (ms : String)
  | group (d : Delimiter)
deriving DecidableEq, Repr

/-- How messages name a token. -/
def Term.phrase : Term → String
  | name => "identifier"
  | lifetime => "lifetime"
  | literal => "literal"
  | text => "string literal"
  | keyword w | marks w => "`" ++ w ++ "`"
  | group .paren => "parentheses"
  | group .bracket => "square brackets"
  | group .brace => "curly braces"
  | group .none => "invisible group"

/-- What is expected at some place of an attribute. -/
inductive Wanted
  /-- One of some tokens. -/
  | oneOf (ts : List Term)
  | expression
  /-- A field or a method, by its name or by its position. -/
  | member
  /-- The number of a position. -/
  | integer
  | unsuffixedInteger
  /-- The end of a range in a pattern that includes its end. -/
  | upperBound
  /-- The arguments of a macro. -/
  | arguments
  /-- A name in a path without arguments. -/
  | segment
  /-- What may have a label. -/
  | labelled
  /-- The name that an import is given. -/
  | importName
deriving DecidableEq, Repr

namespace Wanted

def name : Wanted := oneOf [.name]

def keyword (w : String) : Wanted := oneOf [.keyword w]

def lifetime : Wanted := oneOf [.lifetime]

def group (d : Delimiter) : Wanted := oneOf [.group d]

/-- How messages name what is expected. -/
def phrase : Wanted → String
  | oneOf [t] => t.phrase
  | oneOf [s, t] => s.phrase ++ " or " ++ t.phrase
  | oneOf ts => "one of: " ++ ", ".intercalate (ts.map Term.phrase)
  | expression => "an expression"
  | member => "identifier or integer"
  | integer => "integer literal"
  | unsuffixedInteger => "unsuffixed integer"
  | upperBound => "range upper bound"
  | arguments => "delimiter"
  | segment => "path segment after `::`"
  | labelled => "loop or block expression"
  | importName => "identifier or underscore"

end Wanted

/-- What may not follow the type of a cast. -/
inductive CastFollower
  | await
  | method
  | field
  | question
  | index
  | call
deriving DecidableEq, Repr

/-- How messages name what follows. -/
def CastFollower.phrase : CastFollower → String
  | await => "`.await`"
  | method => "a method call"
  | field => "a field access"
  | question => "`?`"
  | index => "indexing"
  | call => "a function call"

/-- Why tokens cannot be read. -/
inductive Fault
  /-- Something else than what is expected; `atEnd` tells that there is nothing. -/
  | expected (w : Wanted) (atEnd : Bool)
  /-- A keyword where a name is expected. -/
  | keyword (w : String)
  /-- Marks are missing. -/
  | missing (marks : List Char)
  /-- A statement is not separated from the next one. -/
  | unseparated
  /-- Comparisons in a row. -/
  | comparisonChain
  /-- Something follows a cast that belongs to the operand in front of it. -/
  | castFollowed (f : CastFollower)
  /-- Attributes in front of a range without a start. -/
  | attributesOnRange
  /-- An attribute as the value of an attribute. -/
  | nestedAttribute
  /-- A loop behind the label of a `break`. -/
  | bareLabel
  /-- A position that does not fit into 32 bits. -/
  | hugePosition
  /-- A range without one of its ends in the pattern of a slice. -/
  | openRangeInSlice
  /-- `dyn` without a trait. -/
  | noTraitOfObject
  /-- `impl` without a trait. -/
  | noTrait
  /-- `const` in front of a trait, in brackets or not. -/
  | constTrait (brackets : Bool)
  /-- A relaxed bound behind `for`. -/
  | quantifiedRelaxation
  /-- `use` among bounds. -/
  | captures
  /-- Something else than the value of a constant; `atEnd` tells that there is nothing. -/
  | noConstant (atEnd : Bool)
  /-- Parameters behind `where`. -/
  | reservedParameters
  /-- An implementation of no trait that is negated. -/
  | negativeInherent
  /-- `self` that is not the first parameter; `second` tells that there is one in front of it. -/
  | receiver (second : Bool)
deriving DecidableEq, Repr

/-- The wording of a fault. -/
def Fault.message : Fault → String
  | expected w false => "expected " ++ w.phrase
  | expected w true => "unexpected end of input, expected " ++ w.phrase
  | keyword w => "expected identifier, found keyword `" ++ w ++ "`"
  | missing marks => "expected `" ++ String.ofList marks ++ "`"
  | unseparated => "unexpected token, expected `;`"
  | comparisonChain => "comparison operators cannot be chained"
  | castFollowed f => "casts cannot be followed by " ++ f.phrase
  | attributesOnRange => "attributes are not allowed on range expressions starting with `..`"
  | nestedAttribute => "unexpected attribute inside of attribute"
  | bareLabel => "parentheses required"
  | hugePosition => "number too large to fit in target type"
  | openRangeInSlice => "range pattern is not allowed unparenthesized inside slice pattern"
  | noTraitOfObject => "at least one trait is required for an object type"
  | noTrait => "at least one trait must be specified"
  | constTrait true => "`[const]` is not allowed here"
  | constTrait false => "`const` is not allowed here"
  | quantifiedRelaxation => "`for<...>` binder not allowed with `?` trait polarity modifier"
  | captures => "`use<...>` precise capturing syntax is not allowed here"
  | noConstant false => "unexpected token"
  | noConstant true => "unexpected end of input"
  | reservedParameters =>
    "generic parameters on `where` clauses are reserved for future use"
  | negativeInherent => "inherent impls cannot be negative"
  | receiver true => "unexpected second method receiver"
  | receiver false => "unexpected method receiver"

end ObjectPath.Derive.Grammar
