import ObjectPath.Convert.Refusal
import ObjectPath.Number.Shortest
import ObjectPath.Text.Blank
import ObjectPath.Text.LetterCase
import ObjectPath.Value

/-!
# Converters

A converter turns texts into values and values into texts.  `Converter.ofForm` makes one from the
textual form of a type; the other two of this module read the words for a Boolean and take a text
as it is.
-/

namespace ObjectPath

/-- A way to convert between texts and values.  A converter is told the type that is wanted, but
nothing keeps it from giving a value of another one. -/
structure Converter where
  parse : Ty → String → Except Refusal Value
  format : Value → Except Refusal String

/-- The textual form of the values of one type. -/
structure TextForm where
  type : Ty
  read : String → Except Refusal Value
  write : Value → String

/-! ## Textual forms of leaves -/

/-- The text of a leaf value; a value of a named type is written as its number. -/
def Leaf.write : Leaf → String
  | .bool b => if b then "true" else "false"
  | .char c => String.ofList [c]
  | .text s => s
  | .int _ n => IntTy.write n
  | .float t pattern => t.write pattern
  | .named _ n => IntTy.write n

/-- The text of a leaf; the values of other shapes have none. -/
def Value.leafText : Value → String
  | .leaf l => l.write
  | _ => ""

/-- Reads `true` or `false`. -/
def readBool (s : String) : Except Refusal Value :=
  if s = "true" then .ok (.bool true)
  else if s = "false" then .ok (.bool false)
  else .error .notTrueOrFalse

/-- Reads a text of one character. -/
def readChar (s : String) : Except Refusal Value :=
  match s.toList with
  | [] => .error .emptyChar
  | [c] => .ok (.char c)
  | _ => .error .tooManyChars

/-- Reads an integer of a width. -/
def readInt (t : IntTy) (s : String) : Except Refusal Value :=
  match t.read s with
  | .ok n => .ok (.int t n)
  | .error f => .error (.integer f)

/-- Reads a floating point number of a format. -/
def readFloat (t : FloatTy) (s : String) : Except Refusal Value :=
  match t.read s with
  | .ok pattern => .ok (.float t pattern)
  | .error f => .error (.float f)

/-- The textual form of a leaf type.  A named type has no form of its own. -/
def LeafTy.form? : LeafTy → Option TextForm
  | .bool => some ⟨.bool, readBool, Value.leafText⟩
  | .char => some ⟨.char, readChar, Value.leafText⟩
  | .text => some ⟨.text, fun s => .ok (.text s), Value.leafText⟩
  | .int t => some ⟨.int t, readInt t, Value.leafText⟩
  | .float t => some ⟨.float t, readFloat t, Value.leafText⟩
  | .named _ => none

/-! ## Converters -/

namespace Converter

/-- The converter of a textual form.  If `trims`, blanks around a text are ignored. -/
def ofForm (f : TextForm) (trims : Bool) : Converter where
  parse _ raw := f.read (if trims then Text.trim raw else raw)
  format v :=
    if v.typeOf = f.type then .ok (f.write v) else .error (.wrongType f.type.path v.typeOf.path)

/-- Takes a text as it is. -/
def verbatim : Converter where
  parse _ raw := .ok (.text raw)
  format
    | .leaf (.text s) => .ok s
    | v => .error (.wrongType "String" v.typeOf.path)

/-- The words for a Boolean. -/
def boolWord? (word : String) : Option Bool :=
  if word ∈ ["true", "yes", "on", "y", "1"] then some true
  else if word ∈ ["false", "no", "off", "n", "0"] then some false
  else none

/-- Reads the words for a Boolean in any letter case, and ignores blanks around them. -/
def lenientBool : Converter where
  parse _ raw :=
    let word := Text.asciiLower (Text.trim raw)
    match boolWord? word with
    | some b => .ok (.bool b)
    | none => .error (.notBoolean word)
  format
    | .leaf (.bool b) => .ok (Leaf.write (.bool b))
    | v => .error (.wrongType "bool" v.typeOf.path)

end Converter

end ObjectPath
