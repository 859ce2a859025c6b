import ObjectPath.Text.LetterCase

/-!
# Names of accessor methods

The name of an accessor method is a word for its role, `get`, `set` or `is`, and the name of a
property: behind an underscore as it is, or with a capital letter at the front.  The capital becomes
a small letter, unless a second one follows it: `URL` stays as it is.
-/

namespace ObjectPath

/-- The role that the name of an accessor method claims. -/
inductive Role
  | get
  | is
  | set
deriving DecidableEq, Repr

namespace Naming

/-- A name with its first letter in lower case, unless its second letter is a capital too. -/
def decapitalize : List Char → List Char
  | [] => []
  | c :: cs =>
    match cs with
    | d :: _ => if Text.isUppercase d then c :: cs else Text.lowercase c ++ cs
    | [] => Text.lowercase c

/-- The name of the property in what follows the word for the role. -/
def property? : List Char → Option (List Char)
  | [] => none
  | c :: cs =>
    if c = '_' then if cs.isEmpty then none else some cs
    else if Text.isUppercase c then some (decapitalize (c :: cs))
    else none

/-- The role and the property in the name of an accessor method. -/
def splitChars : List Char → Option (Role × List Char)
  | 'g' :: 'e' :: 't' :: cs => (property? cs).map fun n => (.get, n)
  | 's' :: 'e' :: 't' :: cs => (property? cs).map fun n => (.set, n)
  | 'i' :: 's' :: cs => (property? cs).map fun n => (.is, n)
  | _ => none

/-- The role and the property in the name of an accessor method. -/
def split (method : String) : Option (Role × String) :=
  (splitChars method.toList).map fun (r, n) => (r, String.ofList n)

end Naming

end ObjectPath
