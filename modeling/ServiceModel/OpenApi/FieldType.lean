import ServiceModel.BuildError
import ServiceModel.Model.Names
import ServiceModel.Model.SymbolTable
import ServiceModel.OpenApi.Schema

/-!
The messages that schemas become.  A reference to an object names the message of its component; any
other reference stands for the schema it leads to.  An object written in place becomes a message
inside the one whose field it describes, and a map refers to an entry message that all maps with
the same values share.
-/

namespace ServiceModel.OpenApi

/-- What schemas are converted with: the components, and the package of the messages. -/
structure Setting where
  schemas : List (String × Schema)
  package : String

namespace Setting

def id (s : Setting) (name : String) : String := "." ++ s.package ++ "." ++ name

/-- What references to components begin with. -/
def componentLead : String := "#/components/schemas/"

/-- The component that a reference leads to. -/
def component (s : Setting) (reference : String) : Except BuildError (String × Schema) :=
  match Text.dropLead? componentLead reference with
  | none => .error (.of (.unsupportedReference reference))
  | some name =>
      match Keyed.get? name s.schemas with
      | none => .error (.of (.unknownSchema reference))
      | some schema => .ok (name, schema)

end Setting

/-! ### Types of fields -/

/-- What a schema says about the type of a field. -/
structure FieldType where
  wireType : WireType
  typeId : String := ""
  repeated : Bool := false
  isMap : Bool := false
  format : Option TextFormat := none
  deriving DecidableEq, Repr, Inhabited

namespace FieldType

def message (id : String) : FieldType := { wireType := .message, typeId := id }

/-- The type of a value of any kind. -/
def any : FieldType := message (SymbolTable.wellKnownId "Any")

/-- The spelling of the type in the name of a map entry. -/
def entryKey (t : FieldType) : String :=
  if t.wireType = .message then t.typeId else t.wireType.keyword

/-- The type of a string, by its format. -/
def ofString (format : Option String) : FieldType :=
  match format with
  | some "byte" => { wireType := .bytes }
  | some "binary" => { wireType := .bytes }
  | some "int64" => { wireType := .int64 }
  | some "uint64" => { wireType := .uint64 }
  | some "google-duration" => message (SymbolTable.wellKnownId "Duration")
  | some "date-time" => message (SymbolTable.wellKnownId "Timestamp")
  | some "google-datetime" => message (SymbolTable.wellKnownId "Timestamp")
  | some "google-fieldmask" => message (SymbolTable.wellKnownId "FieldMask")
  | some "uuid" => { wireType := .string, format := some .uuid4 }
  | _ => { wireType := .string }

/-- The type of an integer, by its format. -/
def ofInteger (format : Option String) : FieldType :=
  match format with
  | some "int64" => { wireType := .int64 }
  | some "uint32" => { wireType := .uint32 }
  | some "uint64" => { wireType := .uint64 }
  | _ => { wireType := .int32 }

/-- The type of a number, by its format. -/
def ofNumber (format : Option String) : FieldType :=
  match format with
  | some "float" => { wireType := .float }
  | _ => { wireType := .double }

end FieldType

/-! ### Maps -/

def entryName (value : FieldType) : String := "$map<string, " ++ value.entryKey ++ ">"

def entryId (value : FieldType) : String := "." ++ entryName value

/-- The entry message of maps with values of a type. -/
def entryMessage (value : FieldType) : Message :=
  { name := entryName value
    id := entryId value
    package := ""
    isMap := true
    fields :=
      [Field.new "key" (entryId value ++ ".key") .string,
        { Field.new "value" (entryId value ++ ".value") value.wireType with
          typeId := value.typeId
          format := value.format }] }

/-- The table with the entry message of maps with values of a type. -/
def withEntry (value : FieldType) (t : SymbolTable) : SymbolTable :=
  if t.messages.contains (entryId value) then t
  else { t with messages := t.messages.insert (entryId value) (entryMessage value) }

/-! ### Schemas -/

/-- How deep references, lists, maps and compositions may lead from a schema. -/
def deepest : Nat := 16

/-- What a schema has become: the type of its field, the table with the messages it needs, and the
IDs of those inside the owner of the field. -/
structure Typed where
  type : FieldType
  table : SymbolTable
  nested : List String

/-- Converts an object written in place: the name and ID of its message, the message around it, its
schema, and the table to fill. -/
abbrev Nesting :=
  (name id parent : String) → Schema → SymbolTable → Except BuildError SymbolTable

/-- The type of a field, as its schema says.  `room` is how much deeper schemas may lead, and `nest`
converts objects written in place. -/
def fieldType (s : Setting) (nest : Nesting) (ownerId name : String) :
    (room : Nat) → Schema → SymbolTable → Except BuildError Typed
  | 0, _, _ => .error (.of .schemaTooDeep)
  | room + 1, schema, t =>
      match schema.reference with
      | some r =>
          match s.component r with
          | .error e => .error e
          | .ok (target, component) =>
              if component.isMessage then .ok ⟨.message (s.id target), t, []⟩
              else fieldType s nest ownerId name room component t
      | none =>
          match schema.allOf, schema.properties with
          | [only], [] => fieldType s nest ownerId name room only t
          | _, _ =>
              if schema.typeName? = some "array" then
                match schema.items with
                | none => .error (.of .arrayWithoutItems)
                | some items =>
                    match fieldType s nest ownerId name room items t with
                    | .error e => .error e
                    | .ok item =>
                        if item.type.repeated || item.type.isMap then .error (.of .nestedArray)
                        else .ok { item with type := { item.type with repeated := true } }
              else if schema.isMap then
                match mapValue schema with
                | none => .ok ⟨{ FieldType.message (entryId .any) with isMap := true },
                    withEntry .any t, []⟩
                | some values =>
                    match fieldType s nest ownerId name room values t with
                    | .error e => .error e
                    | .ok value =>
                        if value.type.repeated || value.type.isMap then
                          .error (.of .mapOfCollections)
                        else
                          .ok ⟨{ FieldType.message (entryId value.type) with isMap := true },
                            withEntry value.type value.table, value.nested⟩
              else
                match schema.typeName? with
                | some "string" => .ok ⟨.ofString schema.format, t, []⟩
                | some "integer" => .ok ⟨.ofInteger schema.format, t, []⟩
                | some "number" => .ok ⟨.ofNumber schema.format, t, []⟩
                | some "boolean" => .ok ⟨{ wireType := .bool }, t, []⟩
                | some "object" => objectType schema t
                | none => objectType schema t
                | some other => .error (.of (.unsupportedSchemaType other))
where
  /-- The schema of the values of a map, if it says what they are. -/
  mapValue (schema : Schema) : Option Schema :=
    match schema.additional with
    | some (.values values) => if values.hasType then some values else none
    | _ => none
  /-- The type of an object written in place; a schema that says nothing allows any value. -/
  objectType (schema : Schema) (t : SymbolTable) : Except BuildError Typed :=
    if schema.isObject then
      let nestedName := Text.upperFirst name
      let id := ownerId ++ "." ++ nestedName
      match nest nestedName id ownerId schema t with
      | .error e => .error e
      | .ok t => .ok ⟨.message id, t, [id]⟩
    else .ok ⟨.any, t, []⟩

end ServiceModel.OpenApi
