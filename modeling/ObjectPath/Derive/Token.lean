/-!
# Tokens

The text of a declaration is a list of tokens in which whatever stands between two brackets is one
token.  A punctuation mark is one character; it holds the marks that follow it without a blank, so
that `::` is two marks and `: :` is not the same.  A lifetime is a mark, the single quote, and a
word.

What a macro captured may be a group without brackets.  Where a name or a mark is wanted such a
group is opened: `Token.exposed` gives the tokens that come next.

`Token.text` writes tokens with one blank between them, brackets being tokens of their own.
-/

namespace ObjectPath.Derive

/-- The brackets around a group. -/
inductive Delimiter
  | paren
  | bracket
  | brace
  /-- No brackets: the group holds what a macro captured. -/
  | none
deriving DecidableEq, Repr

namespace Delimiter

/-- The opening bracket, if there is one. -/
def opening : Delimiter → List Char
  | paren => ['(']
  | bracket => ['[']
  | brace => ['\x7b']
  | none => []

/-- The closing bracket, if there is one. -/
def closing : Delimiter → List Char
  | paren => [')']
  | bracket => [']']
  | brace => ['\x7d']
  | none => []

end Delimiter

/-- A token. -/
inductive Token
  /-- A name or a keyword, with its `r#` if it has one. -/
  | word (text : String)
  /-- A punctuation mark, and the marks directly behind it, which are tokens of their own. -/
  | mark (c : Char) (behind : List Char)
  /-- A literal, as it was written. -/
  | literal (text : String)
  /-- A pair of brackets and what stands between them. -/
  | group (d : Delimiter) (body : List Token)
deriving Repr, Inhabited

namespace Token

/-! ## Equality -/

mutual

/-- Whether two tokens are equal. -/
def same : Token → Token → Bool
  | word s, word t => decide (s = t)
  | mark c cs, mark d ds => decide (c = d) && decide (cs = ds)
  | literal s, literal t => decide (s = t)
  | group d ss, group e ts => decide (d = e) && sameAll ss ts
  | _, _ => false

/-- Whether two lists of tokens are equal. -/
def sameAll : List Token → List Token → Bool
  | [], [] => true
  | s :: ss, t :: ts => s.same t && sameAll ss ts
  | _, _ => false

end

mutual

theorem same_iff_eq : ∀ s t : Token, s.same t = true ↔ s = t
  | word s, t => by cases t <;> simp [same]
  | mark c cs, t => by cases t <;> simp [same]
  | literal s, t => by cases t <;> simp [same]
  | group d ss, t => by cases t <;> simp [same, sameAll_iff_eq ss]

theorem sameAll_iff_eq : ∀ ss ts : List Token, sameAll ss ts = true ↔ ss = ts
  | [], ts => by cases ts <;> simp [sameAll]
  | s :: ss, ts => by cases ts <;> simp [sameAll, same_iff_eq s, sameAll_iff_eq ss]

end

instance : DecidableEq Token := fun s t => decidable_of_iff (s.same t = true) (same_iff_eq s t)

/-! ## Writing -/

mutual

/-- A token in pieces that hold no group. -/
def pieces : Token → List String
  | word s => [s]
  | mark c _ => [c.toString]
  | literal s => [s]
  | group d body =>
    d.opening.map Char.toString ++ allPieces body ++ d.closing.map Char.toString

/-- Tokens in pieces that hold no group. -/
def allPieces : List Token → List String
  | [] => []
  | t :: ts => t.pieces ++ allPieces ts

end

/-- The text of tokens. -/
def text (ts : List Token) : String := " ".intercalate (allPieces ts)

/-! ## Cutting -/

/-- The marks that come first. -/
def leading : List Token → List Char
  | .mark c _ :: ts => c :: leading ts
  | _ => []

/-- Tokens cut off from what is behind them: a mark knows of no other marks than those that come
with it. -/
def cut : List Token → List Token
  | [] => []
  | .mark c behind :: ts => .mark c (behind.take (leading ts).length) :: cut ts
  | t :: ts => t :: cut ts

/-! ## Groups without brackets -/

mutual

/-- A token, opened if it is a group without brackets.  `none` tells that nothing is in it. -/
def opened? : Token → Option (List Token)
  | group .none body => exposed? body
  | t => some [t]

/-- Tokens whose first one is no group without brackets: those in front are opened. -/
def exposed? : List Token → Option (List Token)
  | [] => none
  | t :: ts =>
    match t.opened? with
    | some us => some (us ++ ts)
    | none => exposed? ts

end

/-- The tokens that come next where a name or a mark is wanted. -/
def exposed (ts : List Token) : List Token := (exposed? ts).getD []

mutual

/-- How many tokens there are in a token. -/
def weight : Token → Nat
  | word _ | mark _ _ | literal _ => 1
  | group _ body => weightAll body + 1

/-- How many tokens there are, inside groups too. -/
def weightAll : List Token → Nat
  | [] => 0
  | t :: ts => t.weight + weightAll ts

end

/-! ## Keywords -/

/-- The words that cannot be names. -/
def keywords : List String :=
  ["_", "abstract", "as", "async", "await", "become", "box", "break", "const", "continue", "crate",
    "do", "dyn", "else", "enum", "extern", "false", "final", "fn", "for", "if", "impl", "in", "let",
    "loop", "macro", "match", "mod", "move", "mut", "override", "priv", "pub", "ref", "return",
    "Self", "self", "static", "struct", "super", "trait", "true", "try", "type", "typeof", "unsafe",
    "unsized", "use", "virtual", "where", "while", "yield"]

/-- Whether a word cannot be a name. -/
def isKeyword (w : String) : Bool := keywords.contains w

/-! ## Building -/

/-- A word, as a list of tokens. -/
def words (s : String) : List Token := [.word s]

/-- Marks that belong together. -/
def joined : List Char → List Token
  | [] => []
  | c :: cs => .mark c cs :: joined cs

/-- Marks that belong together. -/
def marks (s : String) : List Token := joined s.toList

/-- Tokens in parentheses. -/
def paren (ts : List Token) : List Token := [.group .paren ts]

/-- Tokens in brackets. -/
def bracket (ts : List Token) : List Token := [.group .bracket ts]

/-- Tokens in braces. -/
def brace (ts : List Token) : List Token := [.group .brace ts]

end Token

end ObjectPath.Derive
