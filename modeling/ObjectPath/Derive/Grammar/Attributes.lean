import ObjectPath.Derive.Grammar.Statements

/-!
# Attributes and lists

Readings of the parts of the attributes inside an expression, of lists separated by commas, and of
lists that attributes may start which belong to what is around the list.
-/

namespace ObjectPath.Derive.Grammar

namespace AttributePart

/-- Reads behind the path of an attribute. -/
def readArguments (t : Sight) : Reading :=
  if t.isAnyGroup then .take []
  else if t.shows ['='] ∧ ¬t.shows ['=', '='] ∧ ¬t.shows ['=', '>'] then
    .take [.attribute .value]
  else .pass

/-- What a part of an attribute does with the tokens that come next. -/
def read (p : AttributePart) (t : Sight) : Reading :=
  match p with
  | brackets => .group .bracket [.attribute .start] [] t
  | start =>
    (if t.isWord "unsafe" then .take [] else Path.readBare .start t).andThen
      [.attribute .arguments]
  | arguments => readArguments t
  | value =>
    if t.shows ['#'] ∧ (t.skip 1).isGroup .bracket then .fail .nestedAttribute
    else ExpressionPart.readChain true (.fresh .all) t

end AttributePart

namespace Element

/-- Reads an element of a list, and the list behind it. -/
def read (e : Element) (t : Sight) : Reading :=
  match e with
  | expression => (ExpressionPart.readChain true (.fresh .all) t).andThen [.comma expression]
  | type => (TypePart.readStart true false t).andThen [.comma type]
  | pattern => (PatternPart.readChoice false t).andThen [.comma pattern]
  | slicePattern => (PatternPart.readChoice true t).andThen [.comma slicePattern]
  | recordField => ExpressionPart.readField t
  | patternField => PatternPart.readField t
  | namedField | positionalField | variant => ItemPart.readElement e t

/-- Reads the elements of a list.  What the other fields of a record are taken from comes last. -/
def readAll (e : Element) (t : Sight) : Reading :=
  if t.isEnd then .pass
  else if e = recordField ∧ t.shows ['.', '.'] then .takeAll 2 [.expression .base]
  else e.read t

/-- Reads behind an element of a list. -/
def readComma (e : Element) (t : Sight) : Reading :=
  if t.isEnd then .pass else .marks [','] [.elements e] t

end Element

namespace Bodied

/-- Reads a list. -/
def readList (b : Bodied) (t : Sight) : Reading :=
  match b with
  | statements => StatementPart.readStatements t
  | arms => StatementPart.readArms t
  | items h => (ItemPart.items h).read t

/-- Reads attributes in front of a list, and the list.  An attribute without a `!` belongs to the
first element of the list. -/
def read (b : Bodied) (t : Sight) : Reading :=
  if t.shows ['#'] ∧ (t.skip 1).shows ['!'] then .takeAll 2 [.attribute .brackets, .attributes b]
  else b.readList t

end Bodied

end ObjectPath.Derive.Grammar
