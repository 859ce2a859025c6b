import ObjectPath.Member.Declaration
import ObjectPath.Member.Naming

/-!
# Metadata

The metadata of a record are its properties and fields.  An accessor method counts for the property
in its name if the name fits what the method does: a getter is named `get` or `is`, a setter `set`,
and `is` is for Booleans.  A property has at most one getter and one setter, and both agree on the
index they take and on the type of the value.  Methods and properties that break these rules are
left out, and the rest of the record stays usable.
-/

namespace ObjectPath

/-- A property: a getter, a setter, or both. -/
structure Property where
  name : String
  type : Ty
  index? : Option Ty
  getter? : Option Method
  setter? : Option Method

/-- A tag of a property: one of the getter comes first. -/
def Property.tag? (p : Property) (k : TagKind) : Option Tag :=
  (p.getter?.bind (·.tags.get? k)).or (p.setter?.bind (·.tags.get? k))

/-- What reads the property. -/
def Property.reader? (p : Property) : Option Access := p.getter?.map (·.access)

/-- What writes the property, with the type of value it takes. -/
def Property.writer? (p : Property) : Option (Ty × Access) :=
  p.setter?.map fun m => (m.type, m.access)

/-! ## Rules -/

/-- Why a method is left out. -/
inductive Unfit
  | notAccessor
  | setterNamedGetter
  | getterNamedSetter
  | notBool
deriving DecidableEq, Repr

/-- Why a property is left out. -/
inductive Conflict
  | severalMethods
  | indexOnOne
  | indexTypes
  | valueTypes
  | noMethods
deriving DecidableEq, Repr

/-- The wording of a conflict. -/
def Conflict.message : Conflict → String
  | .severalMethods => "conflicting accessor methods"
  | .indexOnOne => "getter and setter disagree on taking an index"
  | .indexTypes => "getter and setter take different index types"
  | .valueTypes => "getter and setter disagree on the value type"
  | .noMethods => "no accessor methods"

/-- The property a method counts for. -/
def Method.property (m : Method) : Except Unfit String :=
  match Naming.split m.name with
  | none => .error .notAccessor
  | some (role, name) =>
    match role, m.isGetter with
    | .get, false | .is, false => .error .setterNamedGetter
    | .set, true => .error .getterNamedSetter
    | .is, true => if m.type = .bool then .ok name else .error .notBool
    | .get, true | .set, false => .ok name

/-- The methods that count for a property, in the order of their declaration. -/
def methodsFor (name : String) (methods : List Method) : List Method :=
  methods.filter fun m => m.property.toOption = some name

/-- The property of a getter and a setter that agree. -/
def Property.ofPair (name : String) (getter setter : Method) : Except Conflict Property :=
  match getter.index?, setter.index? with
  | some _, none | none, some _ => .error .indexOnOne
  | i, j =>
    if i ≠ j then .error .indexTypes
    else if getter.type ≠ setter.type then .error .valueTypes
    else .ok ⟨name, getter.type, getter.index?, some getter, some setter⟩

/-- The property made of the methods that count for it. -/
def Property.ofMethods (name : String) (methods : List Method) : Except Conflict Property :=
  match methods.filter (·.isGetter), methods.filter (!·.isGetter) with
  | [], [] => .error .noMethods
  | [g], [] => .ok ⟨name, g.type, g.index?, some g, none⟩
  | [], [s] => .ok ⟨name, s.type, s.index?, none, some s⟩
  | [g], [s] => Property.ofPair name g s
  | _, _ => .error .severalMethods

/-! ## Building -/

/-- The checked members of a record. -/
structure Metadata where
  properties : List Property
  fields : List Field

namespace Metadata

/-- The names of the properties that some method counts for, in the order of their first method. -/
def candidates (methods : List Method) : List String :=
  (methods.filterMap fun m => m.property.toOption).eraseDups

/-- The first field of each name. -/
def firstFields : List Field → List Field
  | [] => []
  | f :: fs => f :: (firstFields fs).filter fun g => g.name ≠ f.name

/-- The metadata of a record. -/
def build (d : Declarations) : Metadata where
  properties := (candidates d.methods).filterMap fun n =>
    (Property.ofMethods n (methodsFor n d.methods)).toOption
  fields := firstFields d.fields

/-- The property of a name. -/
def property? (md : Metadata) (name : String) : Option Property :=
  md.properties.find? fun p => p.name = name

/-- The field of a name. -/
def field? (md : Metadata) (name : String) : Option Field :=
  md.fields.find? fun f => f.name = name

/-- The names of all properties and fields, without repetition, by code point. -/
def memberNames (md : Metadata) : List String :=
  ((md.properties.map (·.name) ++ md.fields.map (·.name)).eraseDups).mergeSort fun a b => a ≤ b

end Metadata

/-! ## Notices -/

/-- What is worth a note when metadata are built. -/
inductive Notice
  | unfit (method : String) (why : Unfit)
  | dropped (property : String) (why : Conflict)
  | repeated (field : String)
  | built (properties fields : Nat)
deriving DecidableEq, Repr

/-- Whether a notice is a warning. -/
def Notice.isWarning : Notice → Bool
  | .unfit _ .notAccessor | .unfit _ .notBool | .built _ _ => false
  | .unfit _ _ | .dropped _ _ | .repeated _ => true

/-- The wording of a notice about the record with a path. -/
def Notice.message (path : String) : Notice → String
  | .unfit m .notAccessor => "`" ++ path ++ "`: `" ++ m ++ "` is not an accessor name, ignored"
  | .unfit m .setterNamedGetter =>
    "`" ++ path ++ "`: setter `" ++ m ++ "` uses a getter name, ignored"
  | .unfit m .getterNamedSetter =>
    "`" ++ path ++ "`: getter `" ++ m ++ "` uses a setter name, ignored"
  | .unfit m .notBool => "`" ++ path ++ "`: `" ++ m ++ "` does not return bool, ignored"
  | .dropped n why => "`" ++ path ++ "`: property `" ++ n ++ "` dropped: " ++ why.message
  | .repeated n => "`" ++ path ++ "`: field `" ++ n ++ "` declared twice, keeping the first"
  | .built p f =>
    "built metadata for `" ++ path ++ "`: " ++ toString p ++ " properties, " ++ toString f ++
      " fields"

namespace Metadata

/-- The fields that have the name of an earlier one. -/
def repeatedFields : List String → List Field → List String
  | _, [] => []
  | seen, f :: fs =>
    if f.name ∈ seen then f.name :: repeatedFields seen fs
    else repeatedFields (f.name :: seen) fs

/-- The notices of building the metadata of a record. -/
def notices (d : Declarations) : List Notice :=
  let md := build d
  (d.methods.filterMap fun m =>
    match m.property with
    | .ok _ => none
    | .error why => some (Notice.unfit m.name why)) ++
  ((candidates d.methods).filterMap fun n =>
    match Property.ofMethods n (methodsFor n d.methods) with
    | .ok _ => none
    | .error why => some (Notice.dropped n why)) ++
  (repeatedFields [] d.fields).map Notice.repeated ++
  [.built md.properties.length md.fields.length]

end Metadata

end ObjectPath
