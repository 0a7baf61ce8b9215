import ServiceModel.NameSet
import ServiceModel.OpenApi.FieldType

/-!
Objects as messages.  Each property is a field, and the properties of the schemas that an object is
composed of come before its own.  A property described twice keeps its first description.
-/

namespace ServiceModel.OpenApi

/-! ### Composed objects -/

/-- All properties of an object with their schemas, and the names of those it requires. -/
structure Flattened where
  properties : List (String × Schema)
  required : List String

namespace Flattened

/-- The properties of an object alone, without those of the schemas it is composed of. -/
def own (schema : Schema) : Flattened := ⟨schema.properties, schema.required⟩

/-- The properties of several schemas, one after the other. -/
def append (parts : List Flattened) (last : Flattened) : Flattened :=
  ⟨parts.flatMap (·.properties) ++ last.properties, parts.flatMap (·.required) ++ last.required⟩

end Flattened

/-- The properties of a schema: of the component it refers to, or else of the schemas it is composed
of and its own.  `room` is how much deeper schemas may lead. -/
def flatten (s : Setting) : (room : Nat) → Schema → Except BuildError Flattened
  | 0, _ => .error (.of .compositionTooDeep)
  | room + 1, schema =>
      match schema.reference with
      | some r =>
          match s.component r with
          | .error e => .error e
          | .ok (_, component) => flatten s room component
      | none =>
          match schema.allOf.mapM (flatten s room) with
          | .error e => .error e
          | .ok parts => .ok (.append parts (.own schema))

/-! ### Messages under construction -/

/-- A message that fields are added to, and the table with the messages that they need. -/
structure Filling where
  message : Message
  table : SymbolTable

namespace Filling

/-- Adds a field, and the messages inside the message that it needs. -/
def push (f : Filling) (field : Field) (nested : List String) (table : SymbolTable) : Filling :=
  ⟨{ f.message with
      fields := f.message.fields ++ [field]
      messages := f.message.messages ++ nested }, table⟩

/-- The table with the message. -/
def close (f : Filling) : SymbolTable :=
  { f.table with messages := f.table.messages.insert f.message.id f.message }

end Filling

/-- The field of a type that a schema describes.  Only single values can be missing: those that are
not required, and messages. -/
def fieldOf (ownerId name : String) (schema : Schema) (required : Bool) (type : FieldType) :
    Field :=
  { name
    id := ownerId ++ "." ++ name
    jsonName := name
    documentation := schema.description
    wireType := type.wireType
    typeId := type.typeId
    repeated := type.repeated
    isMap := type.isMap
    optional := !type.repeated && !type.isMap && (!required || type.wireType == .message)
    behavior := if required then [.required] else []
    format := type.format
    deprecated := schema.deprecated }

/-- Adds the field that a schema describes, changed at last by `finish`. -/
def addField (s : Setting) (nest : Nesting) (name : String) (schema : Schema) (required : Bool)
    (finish : Field → Field) (f : Filling) : Except BuildError Filling :=
  match fieldType s nest f.message.id name (deepest + 1) schema f.table with
  | .error e => .error e
  | .ok typed =>
      .ok (f.push (finish (fieldOf f.message.id name schema required typed.type)) typed.nested
        typed.table)

/-- Adds a field for each property that the message has no field for yet. -/
def addProperties (s : Setting) (nest : Nesting) (required : NameSet) :
    List (String × Schema) → Filling → Except BuildError Filling
  | [], f => .ok f
  | (name, schema) :: rest, f =>
      if f.message.fieldNames.contains name then addProperties s nest required rest f
      else
        match during (.property name)
            (addField s nest name schema (required.contains name) id f) with
        | .error e => .error e
        | .ok f => addProperties s nest required rest f

/-- The message of an object before it has any fields. -/
def emptyMessage (s : Setting) (name id : String) (parent : Option String) (schema : Schema) :
    Message :=
  { name
    id
    package := s.package
    parent
    documentation := schema.description
    deprecated := schema.deprecated }

/-- The table with the message of an object, and with those that it needs.  Objects written in place
can stand inside each other at most `levels` deep. -/
def objectMessage (s : Setting) :
    (levels : Nat) → (name id : String) → (parent : Option String) → Schema → SymbolTable →
      Except BuildError SymbolTable
  | 0, _, _, _, _, _ => .error (.of .endlessSchema)
  | levels + 1, name, id, parent, schema, t =>
      match flatten s (deepest + 1) schema with
      | .error e => .error e
      | .ok flat =>
          let nest : Nesting := fun name id parent schema t =>
            objectMessage s levels name id (some parent) schema t
          match addProperties s nest (.ofList flat.required) flat.properties
              ⟨emptyMessage s name id parent schema, t⟩ with
          | .error e => .error e
          | .ok f => .ok f.close

/-! ### Unbounded forms -/

namespace Setting

/-- How deep objects can stand inside each other below a schema.  All of them are parts of the
schema or of components, and one inside itself never ends. -/
def levels (s : Setting) (schema : Schema) : Nat :=
  schema.size + Schema.sizeNamed s.schemas + 1

/-- The table with the message of an object, which stands in no other. -/
def addMessage (s : Setting) (name id : String) (schema : Schema) (t : SymbolTable) :
    Except BuildError SymbolTable :=
  objectMessage s (s.levels schema) name id none schema t

/-- Adds the field that a schema describes, changed at last by `finish`. -/
def addField (s : Setting) (name : String) (schema : Schema) (required : Bool)
    (finish : Field → Field) (f : Filling) : Except BuildError Filling :=
  OpenApi.addField s
    (fun name id parent nested t =>
      objectMessage s (s.levels schema) name id (some parent) nested t)
    name schema required finish f

end Setting

end ServiceModel.OpenApi
