import ObjectPath.Expression.Atom

/-!
# Scanning expressions

An expression is a sequence of names and brackets: names are separated by points, a bracket follows
a name or a bracket directly, and a point may stand between a bracket and the name behind it.  The
brackets hold plain characters or one quoted literal, in which a backslash takes the next character
as it is.

`scan` reads the characters from left to right.  Its state is the part of the grammar the scan
stands in, so that each state admits the characters the grammar has there and reports any other one
at its offset.
-/

namespace ObjectPath

/-- What is wrong with an expression. -/
inductive SyntaxFault
  | emptyExpression
  | pointInBrackets
  | emptySegment
  | nestedBracket
  | unbalancedBracket
  | emptyBrackets
  | noSeparator
  | quoteOutsideBrackets
  | quoteBesideText
  | textBesideQuote
  | danglingEscape
  | unterminatedQuote
  | unclosedBracket
  | trailingPoint
deriving DecidableEq, Repr

/-- The wording of a syntax fault. -/
def SyntaxFault.message : SyntaxFault → String
  | .emptyExpression => "empty expression"
  | .pointInBrackets => "unquoted `.` inside brackets"
  | .emptySegment => "empty segment"
  | .nestedBracket => "nested `[`"
  | .unbalancedBracket => "unbalanced `]`"
  | .emptyBrackets => "empty brackets"
  | .noSeparator => "expected `.` or `[` after `]`"
  | .quoteOutsideBrackets => "quotes are only allowed inside brackets"
  | .quoteBesideText => "a quoted literal must fill the brackets"
  | .textBesideQuote => "unexpected character after closing quote"
  | .danglingEscape => "dangling escape"
  | .unterminatedQuote => "unterminated quote"
  | .unclosedBracket => "unclosed `[`"
  | .trailingPoint => "expression ends with `.`"

/-- A syntax fault and the byte offset it is reported at. -/
structure SyntaxError where
  offset : Nat
  fault : SyntaxFault
deriving DecidableEq, Repr

namespace Expression

/-- Where a scan stands.  Offsets are those of the name, of the open bracket, of the opening quote
and of the backslash; texts are what was read of the atom, last character first. -/
inductive State
  /-- At the start of the expression. -/
  | start
  /-- Behind a point: a name must follow. -/
  | segment
  /-- Inside a name. -/
  | name (offset : Nat) (text : List Char)
  /-- Behind an open bracket. -/
  | opened (bracket : Nat)
  /-- Inside brackets, behind some plain characters. -/
  | plain (bracket : Nat) (text : List Char)
  /-- Inside a quoted literal. -/
  | quoted (bracket : Nat) (quote : Char) (offset : Nat) (text : List Char)
  /-- Behind a backslash in a quoted literal. -/
  | escaped (bracket : Nat) (quote : Char) (offset : Nat) (text : List Char) (slash : Nat)
  /-- Behind the closing quote: the bracket must be closed. -/
  | filled (bracket : Nat) (text : List Char)
  /-- Behind a closed bracket. -/
  | closed
deriving DecidableEq, Repr

/-- Whether a character opens or closes a quoted literal. -/
def isQuote (c : Char) : Bool := c == '\x27' || c == '"'

/-- The atom with a text read last character first. -/
def atom (text : List Char) (form : AtomForm) (offset : Nat) : Atom :=
  ⟨String.ofList text.reverse, form, offset⟩

/-- The answer at the end of the expression, `offset` being its length. -/
def finish (offset : Nat) : State → Except SyntaxError (List Atom)
  | .start => .error ⟨0, .emptyExpression⟩
  | .segment => .error ⟨offset, .trailingPoint⟩
  | .name o text => .ok [atom text .name o]
  | .opened b => .error ⟨b, .unclosedBracket⟩
  | .plain b _ => .error ⟨b, .unclosedBracket⟩
  | .quoted _ _ o _ => .error ⟨o, .unterminatedQuote⟩
  | .escaped _ _ _ _ slash => .error ⟨slash, .danglingEscape⟩
  | .filled b _ => .error ⟨b, .unclosedBracket⟩
  | .closed => .ok []

/-- The step on a character at `offset`: the next state and the atom it completes, if any. -/
def step (offset : Nat) (c : Char) : State → Except SyntaxError (State × Option Atom)
  | .start =>
    if c = '.' then .error ⟨offset, .emptySegment⟩
    else if c = '[' then .ok (.opened offset, none)
    else if c = ']' then .error ⟨offset, .unbalancedBracket⟩
    else if isQuote c then .error ⟨offset, .quoteOutsideBrackets⟩
    else .ok (.name offset [c], none)
  | .segment =>
    if c = '.' then .error ⟨offset, .emptySegment⟩
    else if c = '[' then .error ⟨offset, .emptySegment⟩
    else if c = ']' then .error ⟨offset, .unbalancedBracket⟩
    else if isQuote c then .error ⟨offset, .quoteOutsideBrackets⟩
    else .ok (.name offset [c], none)
  | .name o text =>
    if c = '.' then .ok (.segment, some (atom text .name o))
    else if c = '[' then .ok (.opened offset, some (atom text .name o))
    else if c = ']' then .error ⟨offset, .unbalancedBracket⟩
    else if isQuote c then .error ⟨offset, .quoteOutsideBrackets⟩
    else .ok (.name o (c :: text), none)
  | .opened b =>
    if c = '.' then .error ⟨offset, .pointInBrackets⟩
    else if c = '[' then .error ⟨offset, .nestedBracket⟩
    else if c = ']' then .error ⟨b, .emptyBrackets⟩
    else if isQuote c then .ok (.quoted b c offset [], none)
    else .ok (.plain b [c], none)
  | .plain b text =>
    if c = '.' then .error ⟨offset, .pointInBrackets⟩
    else if c = '[' then .error ⟨offset, .nestedBracket⟩
    else if c = ']' then .ok (.closed, some (atom text .bracketed (b + 1)))
    else if isQuote c then .error ⟨offset, .quoteBesideText⟩
    else .ok (.plain b (c :: text), none)
  | .quoted b q o text =>
    if c = '\\' then .ok (.escaped b q o text offset, none)
    else if c = q then .ok (.filled b text, none)
    else .ok (.quoted b q o (c :: text), none)
  | .escaped b q o text _ => .ok (.quoted b q o (c :: text), none)
  | .filled b text =>
    if c = '.' then .error ⟨offset, .pointInBrackets⟩
    else if c = '[' then .error ⟨offset, .nestedBracket⟩
    else if c = ']' then .ok (.closed, some (atom text .quoted (b + 1)))
    else if isQuote c then .error ⟨offset, .quoteBesideText⟩
    else .error ⟨offset, .textBesideQuote⟩
  | .closed =>
    if c = '.' then .ok (.segment, none)
    else if c = '[' then .ok (.opened offset, none)
    else .error ⟨offset, .noSeparator⟩

/-- The atoms of the characters that follow at `offset` in a state. -/
def scan (offset : Nat) (s : State) : List Char → Except SyntaxError (List Atom)
  | [] => finish offset s
  | c :: cs =>
    match step offset c s with
    | .error e => .error e
    | .ok (s, done) =>
      match scan (offset + c.utf8Size) s cs with
      | .error e => .error e
      | .ok atoms => .ok (done.toList ++ atoms)

/-- The atoms of an expression. -/
def atoms (source : String) : Except SyntaxError (List Atom) := scan 0 .start source.toList

end Expression

end ObjectPath
