import ObjectPath.Derive.Token
import ObjectPath.Text.Blank
import ObjectPath.Text.Quoted

/-!
# Lexemes

The text of a declaration is cut into lexemes: tokens other than groups, and single brackets.
`lexemes?` cuts, `nest` puts what stands between two brackets into a group, and `Token.ofText?` does
both.

Blanks and comments separate lexemes.  A documentation comment stands for the attribute it is
written for.
-/

namespace ObjectPath.Derive

/-- A token other than a group, or a bracket. -/
inductive Lexeme
  | token (t : Token)
  | opening (d : Delimiter)
  | closing (d : Delimiter)
deriving DecidableEq, Repr

namespace Lexeme

/-! ## Characters -/

/-- Whether a character separates lexemes. -/
def isSeparator (c : Char) : Bool := Text.isBlank c || c == '\u200e' || c == '\u200f'

/-- Whether a name may start with a character.  Beyond ASCII every character that does not separate
lexemes is taken for a letter: outside literals and comments no other one is allowed. -/
def isNameStart (c : Char) : Bool := c == '_' || c.isAlpha || (0x80 ≤ c.toNat && !isSeparator c)

/-- Whether a character may stand in a name. -/
def isNamePart (c : Char) : Bool := isNameStart c || c.isDigit

/-- Whether a character is a punctuation mark. -/
def isMark (c : Char) : Bool := "~!@#$%^&*-=+|;:,<.>/?\x27".toList.contains c

/-- The bracket that a character is. -/
def bracket? : Char → Option Lexeme
  | '(' => some (.opening .paren)
  | '[' => some (.opening .bracket)
  | '\x7b' => some (.opening .brace)
  | ')' => some (.closing .paren)
  | ']' => some (.closing .bracket)
  | '\x7d' => some (.closing .brace)
  | _ => none

/-! ## Cutting texts in two -/

/-- A text cut in two. -/
abbrev Cut := List Char × List Char

/-- Puts characters in front of the first part. -/
def Cut.after (front : List Char) (c : Cut) : Cut := (front ++ c.1, c.2)

/-- Cuts behind the quote that ends a literal.  A backslash takes the next character along. -/
def cutQuote (q : Char) : List Char → Option Cut
  | [] => none
  | '\\' :: c :: cs => (cutQuote q cs).map (Cut.after ['\\', c])
  | c :: cs => if c = q then some ([c], cs) else (cutQuote q cs).map (Cut.after [c])

/-- Cuts behind the quote and the `n` hashes that end a raw literal. -/
def cutRaw (n : Nat) : List Char → Option Cut
  | [] => none
  | c :: cs =>
    if c = '"' ∧ cs.take n = List.replicate n '#' then some (c :: cs.take n, cs.drop n)
    else (cutRaw n cs).map (Cut.after [c])

/-- Cuts behind the end of a block comment in which `depth` further ones are open. -/
def cutComment (depth : Nat) : List Char → Option Cut
  | [] => none
  | '*' :: '/' :: cs =>
    match depth with
    | 0 => some (['*', '/'], cs)
    | depth + 1 => (cutComment depth cs).map (Cut.after ['*', '/'])
  | '/' :: '*' :: cs => (cutComment (depth + 1) cs).map (Cut.after ['/', '*'])
  | c :: cs => (cutComment depth cs).map (Cut.after [c])

/-- Cuts behind a name. -/
def cutName (cs : List Char) : Cut := cs.span isNamePart

/-- The first part extended by the name that follows, as a literal is by its suffix. -/
def Cut.withName (c : Cut) : Cut :=
  match c.2 with
  | d :: _ => if isNameStart d then (cutName c.2).after c.1 else c
  | [] => c

/-- Cuts behind digits and underscores. -/
def cutDigits (cs : List Char) : Cut := cs.span fun c => c.isDigit || c == '_'

/-- Whether digits and underscores start a text, with a digit among them. -/
def hasDigit (cs : List Char) : Bool := (cutDigits cs).1.any Char.isDigit

/-- Cuts behind the sign and the digits of an exponent, underscores being allowed before the sign
too. -/
def cutPower (cs : List Char) : Option Cut :=
  let (front, rest) := cs.span (· == '_')
  match rest with
  | s :: more =>
    if s == '+' || s == '-' then
      if hasDigit more then some ((cutDigits more).after (front ++ [s])) else none
    else if hasDigit cs then some (cutDigits cs) else none
  | [] => none

/-- Cuts behind an exponent, if one starts a text. -/
def cutExponent : List Char → Option Cut
  | 'e' :: cs => (cutPower cs).map (Cut.after ['e'])
  | 'E' :: cs => (cutPower cs).map (Cut.after ['E'])
  | _ => none

/-- Whether the point in front of a text belongs to the number it follows. -/
def isFraction : List Char → Bool
  | c :: _ => c != '.' && !isNameStart c
  | [] => true

/-- Cuts behind the digits of a number and its fraction. -/
def cutDecimal (cs : List Char) : Cut :=
  match cutDigits cs with
  | (digits, '.' :: rest) =>
    if isFraction rest then (cutDigits rest).after (digits ++ ['.']) else (digits, '.' :: rest)
  | c => c

/-- Cuts behind a number and its suffix. -/
def cutNumber (cs : List Char) : Cut :=
  let (digits, rest) := cutDecimal cs
  match cutExponent rest with
  | some c => (c.after digits).withName
  | none => Cut.withName (digits, rest)

/-! ## Lexemes of a text -/

/-- The literal in the first part of a cut. -/
def ofLiteral (c : Cut) : List Lexeme × List Char :=
  ([.token (.literal (String.ofList c.1))], c.2)

/-- The raw literal whose hashes and text follow its letters. -/
def raw? (letters cs : List Char) : Option (List Lexeme × List Char) :=
  let hashes := cs.takeWhile (· == '#')
  match cs.dropWhile (· == '#') with
  | '"' :: rest =>
    (cutRaw hashes.length rest).map fun c =>
      ofLiteral (Cut.withName (c.after (letters ++ hashes ++ ['"'])))
  | _ => none

/-- The name that starts a text, or the literal whose letters it is. -/
def word? (cs : List Char) : Option (List Lexeme × List Char) :=
  let (name, rest) := cutName cs
  let plain := some ([Lexeme.token (.word (String.ofList name))], rest)
  let letters := String.ofList name
  match rest with
  | '"' :: body =>
    if letters = "b" ∨ letters = "c" then
      (cutQuote '"' body).map fun c => ofLiteral (Cut.withName (c.after (name ++ ['"'])))
    else if letters = "r" ∨ letters = "br" ∨ letters = "cr" then raw? name rest
    else plain
  | '\x27' :: body =>
    if letters = "b" then
      (cutQuote '\x27' body).map fun c => ofLiteral (Cut.withName (c.after (name ++ ['\x27'])))
    else plain
  | '#' :: body =>
    match body with
    | c :: _ =>
      if letters = "r" ∧ isNameStart c then
        let (name, rest) := cutName body
        some ([.token (.word ("r#" ++ String.ofList name))], rest)
      else if letters = "r" ∨ letters = "br" ∨ letters = "cr" then
        (raw? name rest).or plain
      else plain
    | [] => plain
  | _ => plain

/-- The character literal behind a single quote, or the quote as the mark of a lifetime. -/
def single? (cs : List Char) : Option (List Lexeme × List Char) :=
  match cs with
  | '\\' :: _ => (cutQuote '\x27' cs).map fun c => ofLiteral (Cut.withName (c.after ['\x27']))
  | c :: '\x27' :: rest => some (ofLiteral (Cut.withName (['\x27', c, '\x27'], rest)))
  | cs => some ([.token (.mark '\x27' [])], cs)

/-- The attribute a documentation comment stands for. -/
def documentation (inner : Bool) (text : List Char) : List Lexeme :=
  (if inner then [.token (.mark '#' []), .token (.mark '!' [])] else [.token (.mark '#' [])]) ++
    [.opening .bracket, .token (.word "doc"), .token (.mark '=' []),
      .token (.literal (Text.quote (String.ofList text))), .closing .bracket]

/-- What a comment stands for: nothing, unless it is a documentation comment. -/
def ofComment (text : List Char) : List Lexeme :=
  match text with
  | '/' :: '/' :: '/' :: '/' :: _ => []
  | '/' :: '/' :: '/' :: text => documentation false text
  | '/' :: '/' :: '!' :: text => documentation true text
  | '/' :: '*' :: '*' :: '*' :: _ => []
  | ['/', '*', '*', '/'] => []
  | '/' :: '*' :: '*' :: text => documentation false (text.dropLast.dropLast)
  | '/' :: '*' :: '!' :: text => documentation true (text.dropLast.dropLast)
  | _ => []

/-- The marks that start a text, up to a comment or a quote. -/
def leadingMarks : List Char → List Char
  | [] => []
  | c :: cs =>
    if !isMark c || c == '\x27' then []
    else if c == '/' && (cs.head? == some '/' || cs.head? == some '*') then []
    else c :: leadingMarks cs

/-- Cuts a line off a text.  A carriage return in front of the line feed ends the line as well. -/
def cutLine : List Char → Cut
  | [] => ([], [])
  | '\n' :: cs => ([], '\n' :: cs)
  | '\r' :: '\n' :: cs => ([], '\r' :: '\n' :: cs)
  | c :: cs => (cutLine cs).after [c]

/-- The lexemes at the front of a text that starts with a character, and the text behind them. -/
def next? (c : Char) (cs : List Char) : Option (List Lexeme × List Char) :=
  if isSeparator c then some ([], cs)
  else if c = '/' ∧ cs.head? = some '/' then
    let (text, rest) := cutLine cs
    some (ofComment (c :: text), rest)
  else if c = '/' ∧ cs.head? = some '*' then
    (cutComment 0 cs.tail).map fun (text, rest) => (ofComment ('/' :: '*' :: text), rest)
  else if c = '"' then
    (cutQuote '"' cs).map fun d => ofLiteral (Cut.withName (d.after ['"']))
  else if c = '\x27' then single? cs
  else if c.isDigit then some (ofLiteral (cutNumber (c :: cs)))
  else if isNameStart c then word? (c :: cs)
  else
    match bracket? c with
    | some b => some ([b], cs)
    | none => if isMark c then some ([.token (.mark c (leadingMarks cs))], cs) else none

/-- The lexemes of a text of at most `fuel` characters. -/
def cut? : Nat → List Char → Option (List Lexeme)
  | _, [] => some []
  | 0, _ :: _ => none
  | fuel + 1, c :: cs =>
    match next? c cs with
    | none => none
    | some (ls, rest) => (cut? fuel rest).map (ls ++ ·)

/-- The lexemes of a text, if it is one of lexemes. -/
def lexemes? (s : String) : Option (List Lexeme) := cut? s.toList.length s.toList

/-- Puts what stands between brackets into groups.  `outer` are the groups that are open, the
innermost first, each with the tokens in front of it; `done` are the tokens of the innermost one.
Tokens are held last one first. -/
def nest (outer : List (Delimiter × List Token)) (done : List Token) :
    List Lexeme → Option (List Token)
  | [] => if outer.isEmpty then some done.reverse else none
  | .token t :: ls => nest outer (t :: done) ls
  | .opening d :: ls => nest ((d, done) :: outer) [] ls
  | .closing d :: ls =>
    match outer with
    | (e, front) :: outer =>
      if d = e then nest outer (.group d done.reverse :: front) ls else none
    | [] => none

end Lexeme

/-- The tokens of a text. -/
def Token.ofText? (s : String) : Option (List Token) :=
  match Lexeme.lexemes? s with
  | some ls => Lexeme.nest [] [] ls
  | none => none

end ObjectPath.Derive
