import ObjectPath.Derive.Grammar.Types

/-!
# Patterns

Readings of the parts of patterns.
-/

namespace ObjectPath.Derive.Grammar

namespace PatternPart

/-! ## Ranges -/

/-- Whether a range ends in front of a token. -/
def endsRange (t : Sight) : Bool :=
  t.isEnd || t.shows ['|'] || t.shows ['='] || t.isColon || t.shows [','] || t.shows [';'] ||
    t.isWord "if"

/-- Reads behind a range that lacks one of its ends.  It is no element of a slice by itself. -/
def readOpenRange (t : Sight) : Reading :=
  if t.isAlternative then .pass else .fail .openRangeInSlice

/-- The tokens that the end of a range may start with. -/
def limitStarts : List Term :=
  [.literal, .name, .marks "::", .marks "<", .keyword "self", .keyword "Self", .keyword "super",
    .keyword "crate", .keyword "const"]

/-- Reads the end of a range, or a literal that may be its start. -/
def readBound (ps : List Part) (t : Sight) : Reading :=
  if t.isLiteral then .literal ps t
  else if t.isSegment then (TypePart.readRelative .limit t).andThen ps
  else if t.isPathMark then .takeAll 2 (.path .limit (.segment .absolute) :: ps)
  else if t.shows ['<'] then .take ([.type (.start true false), .type (.qualifier .limit)] ++ ps)
  else if t.isWord "const" then .take (.group (.body .statements) :: ps)
  else .expectedOneOf limitStarts t

/-- Reads the dots of a range that follow its start, if there are any. -/
def readRange (inSlice : Bool) (t : Sight) : Reading :=
  if t.shows ['.', '.', '='] ∨ t.shows ['.', '.', '.'] then
    .takeAll 3 [.pattern (.limit true true inSlice)]
  else if t.shows ['.', '.'] then .takeAll 2 [.pattern (.limit false true inSlice)]
  else .pass

/-- Reads the end of a range, if it has one. -/
def readLimit (closed start inSlice : Bool) (t : Sight) : Reading :=
  if endsRange t then
    if closed then .expected .upperBound t
    else if start ∧ inSlice then readOpenRange t
    else .pass
  else readBound (if ¬start ∧ inSlice then [.pattern .openRange] else []) t

/-! ## Names -/

/-- Reads on in a path that is a pattern. -/
def readPath (inSlice : Bool) (p : PathSite) (t : Sight) : Reading :=
  match Path.read? (.pattern inSlice) p t with
  | some r => r
  | none =>
    if ¬p.shape.qualified ∧ p.shape.bare ∧ t.isBang then .take [.macroArguments]
    else if t.isGroup .brace then .enter [.elements .patternField] []
    else if t.isGroup .paren then .enter [.elements .pattern] []
    else readRange inSlice t

/-- Reads a path that starts with a segment, or a name with what it stands for. -/
def readName (inSlice : Bool) (t : Sight) : Reading :=
  let named : Bool := t.isName || t.isWord "self"
  if named ∧ (t.skip 1).shows ['@'] then .takeAll 2 [.pattern (.single false)]
  else if t.isWord "self" ∧ ¬(t.skip 1).isPathMark then .take []
  else TypePart.readRelative (.pattern inSlice) t

/-- Reads a name that is no path, with what it stands for. -/
def readBinding (t : Sight) : Reading :=
  let ps : List Part := [.pattern .subpattern]
  if t.isWord "self" then .take ps else .name ps t

/-! ## Patterns -/

/-- The tokens a pattern may start with. -/
def starts : List Term :=
  [.name, .marks "::", .marks "<", .keyword "_", .literal, .keyword "const", .keyword "ref",
    .keyword "mut", .marks "&", .group .paren, .group .bracket, .marks "..", .keyword "const"]

/-- Reads a pattern without alternatives. -/
def readSingle (inSlice : Bool) (t : Sight) : Reading :=
  if t.isSegment then readName inSlice t
  else if t.isPathMark then .takeAll 2 [.path (.pattern inSlice) (.segment .absolute)]
  else if t.shows ['<'] then
    .take [.type (.start true false), .type (.qualifier (.pattern inSlice))]
  else if t.isWord "_" then .take []
  else if t.isWord "box" then .take [.pattern (.single false)]
  else if t.isLiteral ∨ t.shows ['-'] ∨ t.isWord "const" then
    readBound [.pattern (.rangeEnd inSlice)] t
  else if t.isWord "ref" then .take [.pattern .reference]
  else if t.isWord "mut" then .take [.pattern .binding]
  else if t.shows ['&'] then .take [.pattern .pointer]
  else if t.isGroup .paren then .enter [.elements .pattern] []
  else if t.isGroup .bracket then .enter [.elements .slicePattern] []
  else if t.shows ['.', '.', '='] then .takeAll 3 [.pattern (.limit true false inSlice)]
  else if t.shows ['.', '.'] ∧ ¬t.shows ['.', '.', '.'] then
    .takeAll 2 [.pattern (.limit false false inSlice)]
  else .expectedOneOf starts t

/-- Reads a pattern. -/
def readChoice (inSlice : Bool) (t : Sight) : Reading :=
  if t.shows ['|'] then .take [.pattern (.single false), .pattern .alternatives]
  else (readSingle inSlice t).andThen [.pattern .alternatives]

/-! ## Fields -/

/-- Reads a field of a pattern. -/
def readField (t : Sight) : Reading :=
  let comma : List Part := [.comma .patternField]
  if t.shows ['#'] then .take [.attribute .brackets, .element .patternField]
  else if t.shows ['.', '.'] then .takeAll 2 []
  else if t.isWord "box" then .take (.pattern (.fieldWords ["ref", "mut"]) :: comma)
  else if t.isWord "ref" then .take (.pattern (.fieldWords ["mut"]) :: comma)
  else if t.isWord "mut" then .take (.pattern (.fieldWords []) :: comma)
  else
    .field (.pattern .fieldName :: comma) ([.marks [':'], .pattern (.choice false)] ++ comma) t

/-- Reads some words in front of the name of a field, and the name. -/
def readFieldWords (rest : List String) (t : Sight) : Reading :=
  match rest.dropWhile fun w => !t.isWord w with
  | [] => .name [] t
  | _ :: rest => .take [.pattern (.fieldWords rest)]

/-! ## All parts -/

/-- What a part of a pattern does with the tokens that come next. -/
def read (p : PatternPart) (t : Sight) : Reading :=
  match p with
  | single inSlice => readSingle inSlice t
  | choice inSlice => readChoice inSlice t
  | alternatives =>
    if t.isAlternative then .take [.pattern (.single false), .pattern .alternatives] else .pass
  | reference => if t.isWord "mut" then .take [.pattern .binding] else readBinding t
  | binding => readBinding t
  | subpattern => if t.shows ['@'] then .take [.pattern (.single false)] else .pass
  | pointer =>
    if t.isWord "mut" then .take [.pattern (.single false)] else readSingle false t
  | rangeEnd inSlice => readRange inSlice t
  | limit closed start inSlice => readLimit closed start inSlice t
  | openRange => readOpenRange t
  | fieldWords rest => readFieldWords rest t
  | fieldName => if t.shows [':'] then .take [.pattern (.choice false)] else .pass

end PatternPart

end ObjectPath.Derive.Grammar
