import ServiceModel.Data.Node

/-!
Schemas of OpenAPI documents, versions 3.0 and 3.1.  Properties keep the order in which they are
declared.
-/

namespace ServiceModel.OpenApi

/-- The type of a schema: one name, or several of which `null` says that a value may be missing. -/
inductive TypeNames where
  | one (name : String)
  | several (names : List String)
  deriving DecidableEq, Repr, Inhabited

/-- What values beyond its properties an object may have: any or none, or those of a schema. -/
inductive Additional (α : Type) where
  | allowed (value : Bool)
  | values (schema : α)
  deriving Inhabited

structure Schema where
  types : Option TypeNames := none
  reference : Option String := none
  properties : List (String × Schema) := []
  required : List String := []
  items : Option Schema := none
  choices : List Json := []
  allOf : List Schema := []
  additional : Option (Additional Schema) := none
  format : Option String := none
  description : String := ""
  deprecated : Bool := false
  deriving Inhabited

namespace Schema

/-! ### Kinds of schemas -/

/-- The type, apart from `null`. -/
def typeName? (s : Schema) : Option String :=
  match s.types with
  | none => none
  | some (.one name) => some name
  | some (.several names) => names.find? (· != "null")

/-- Whether the schema describes an object. -/
def isObject (s : Schema) : Bool :=
  s.typeName? == some "object" || !s.properties.isEmpty || !s.allOf.isEmpty

/-- Whether values beyond the properties are described or allowed. -/
def hasAdditional (s : Schema) : Bool :=
  match s.additional with
  | some (.values _) => true
  | some (.allowed b) => b
  | none => false

/-- Whether the schema describes nothing but a map. -/
def isMap (s : Schema) : Bool := s.properties.isEmpty && s.allOf.isEmpty && s.hasAdditional

/-- Whether the schema describes an object with a message of its own. -/
def isMessage (s : Schema) : Bool := s.isObject && !s.isMap

/-- Whether the schema says what its values are. -/
def hasType (s : Schema) : Bool :=
  s.types.isSome || s.reference.isSome || !s.allOf.isEmpty

/-! ### Size -/

mutual

/-- The number of schemas in a schema, itself counted. -/
def size : Schema → Nat
  | ⟨_, _, properties, _, items, _, allOf, additional, _, _, _⟩ =>
      1 + sizeNamed properties + sizeOption items + sizeList allOf + sizeAdditional additional

def sizeNamed : List (String × Schema) → Nat
  | [] => 0
  | (_, s) :: ss => size s + sizeNamed ss

def sizeOption : Option Schema → Nat
  | none => 0
  | some s => size s

def sizeList : List Schema → Nat
  | [] => 0
  | s :: ss => size s + sizeList ss

def sizeAdditional : Option (Additional Schema) → Nat
  | some (.values s) => size s
  | _ => 0

end

/-! ### Reading -/

/-- Reads a type: its scalars are typed before it is known what they are for. -/
def readTypes? (n : Node) : Read TypeNames := do
  match ← n.settle? with
  | .string name => return .one name
  | n => return .several (← n.list? Node.text?)

def spellings : Node.Spellings :=
  [["type"], ["$ref"], ["properties"], ["required"], ["items"], ["enum"], ["allOf"],
    ["additionalProperties"], ["format"], ["description"], ["deprecated"]]

/-- Reads what describes further values: its scalars are typed before it is known what they are
for. -/
def readAdditional? (read : Node → Read Schema) (n : Node) : Read (Additional Schema) := do
  match ← n.settle? with
  | .bool b => return .allowed b
  | n => return .values (← read n)

/-- Reads a schema of at most so many levels. -/
def readWithin? : Nat → Node → Read Schema
  | 0, _ => failure
  | levels + 1, n => do
      let f ← n.fields? spellings
      return {
        types := ← f.maybe 0 readTypes?
        reference := ← f.maybe 1 Node.text?
        properties := ← f.orElse 2 (Node.dictionary? (readWithin? levels)) []
        required := ← f.orElse 3 (Node.list? Node.text?) []
        items := ← f.maybe 4 (readWithin? levels)
        choices := ← f.orElse 5 (Node.list? Node.json?) []
        allOf := ← f.orElse 6 (Node.list? (readWithin? levels)) []
        additional := ← f.maybe 7 (readAdditional? (readWithin? levels))
        format := ← f.maybe 8 Node.text?
        description := ← f.orElse 9 Node.text? ""
        deprecated := ← f.orElse 10 Node.flag? false }

def ofNode? (n : Node) : Read Schema := readWithin? n.height n

end Schema

end ServiceModel.OpenApi
