import ObjectPath.Catalog.Record

/-!
# Named leaves and converters

The named leaf types of the catalogue, `Tier` with three values and `Token`, a number without a
default, and the converters that some members of the catalogue ask for.
-/

namespace ObjectPath.Catalog

/-- The path of a type of the catalogue. -/
def pathOf (name : String) : String := "oracle::fixtures::" ++ name

/-- The type of tiers. -/
def tier : Ty := .leaf (.named (pathOf "Tier"))

/-- The type of tokens. -/
def token : Ty := .leaf (.named (pathOf "Token"))

/-- The words for the tiers, in order. -/
def tierWords : List String := ["free", "team", "enterprise"]

/-- The tier with a word. -/
def readTier (s : String) : Except Refusal Value :=
  match tierWords.idxOf? s with
  | some n => .ok (.leaf (.named (pathOf "Tier") n))
  | none => .error (.other ("unknown tier `" ++ s ++ "`"))

/-- The word for a tier. -/
def writeTier : Value → String
  | .leaf (.named _ n) => tierWords.getD n ""
  | _ => ""

/-- The textual form of tiers. -/
def tierForm : TextForm := ⟨tier, readTier, writeTier⟩

/-- The declarations of the named leaf types. -/
def leaves : List LeafDecl :=
  [⟨pathOf "Tier", some (.leaf (.named (pathOf "Tier") 0))⟩, ⟨pathOf "Token", none⟩]

/-- The digits of a size, and the number of bytes they count. -/
def splitSize (cs : List Char) : List Char × Nat :=
  if cs.getLast? = some 'k' then (cs.dropLast, 1024) else (cs, 1)

/-- Sizes in bytes, or in units of 1024 bytes when a `k` follows. -/
def sizeConverter : Converter where
  parse _ raw :=
    let (digits, unit) := splitSize (Text.trimChars raw.toList)
    match IntTy.u64.readChars digits with
    | .error f => .error (.integer f)
    | .ok n =>
      if n * unit ≤ IntTy.u64.greatest then .ok (.int .u64 (n * unit))
      else .error (.other "size overflow")
  format
    | .leaf (.int .u64 n) =>
      if n % 1024 = 0 ∧ 0 < n then .ok (IntTy.write (n / 1024) ++ "k") else .ok (IntTy.write n)
    | _ => .error (.other "not a size")

/-- Texts that are in upper case in the graph and in lower case outside. -/
def upperConverter : Converter where
  parse _ raw := .ok (.text (Text.asciiUpper raw))
  format
    | .leaf (.text s) => .ok (Text.asciiLower s)
    | _ => .error (.other "not a string")

end ObjectPath.Catalog
