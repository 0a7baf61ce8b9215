import ServiceModel.Catalog
import ServiceModel.Model.Basic

/-!
Symbol tables: every message, enum, service and method of a model under its ID.  A table is filled
while a model is built; once frozen it never changes again.
-/

namespace ServiceModel

/-! ### Errors -/

inductive EntityKind where
  | message
  | enum
  | service
  | method
  deriving DecidableEq, Repr, Inhabited

def EntityKind.word : EntityKind → String
  | .message => "message"
  | .enum => "enum"
  | .service => "service"
  | .method => "method"

inductive ModelError where
  /-- The table no longer takes entries. -/
  | frozen (id : String)
  /-- A method with the ID is there already. -/
  | duplicate (id : String)
  /-- `source` refers to something that is not there. -/
  | unresolved (source : String) (kind : EntityKind) (target : String)
  /-- The service configuration cannot be read. -/
  | serviceConfig
  | several (errors : List ModelError)
  deriving Repr, Inhabited

namespace ModelError

mutual

def message : ModelError → String
  | .frozen id => "symbol table is frozen; cannot register \x60" ++ id ++ "\x60"
  | .duplicate id => "\x60" ++ id ++ "\x60 is already registered"
  | .unresolved source kind target =>
      "\x60" ++ source ++ "\x60 references unknown " ++ kind.word ++ " \x60" ++ target ++ "\x60"
  | .serviceConfig => "invalid service configuration"
  | .several errors =>
      toString errors.length ++ " model errors:\n" ++ Text.join "\n" (lines errors)

def lines : List ModelError → List String
  | [] => []
  | e :: es => ("  - " ++ message e) :: lines es

end

/-- Some errors as one outcome: none is well, one is reported as it is, several together. -/
def collect : List ModelError → Except ModelError Unit
  | [] => .ok ()
  | [e] => .error e
  | errors => .error (.several errors)

end ModelError

/-! ### Tables -/

/-- The entities of a model under their IDs. -/
structure SymbolTable where
  messages : Catalog Message
  enums : Catalog Enum
  services : Catalog Service
  methods : Catalog Method
  frozen : Bool

namespace SymbolTable

def empty : SymbolTable := ⟨.empty, .empty, .empty, .empty, false⟩

instance : Inhabited SymbolTable := ⟨empty⟩

/-- The package of the messages that every model can refer to. -/
def wellKnownPackage : String := "google.protobuf"

/-- The names of the messages that every model can refer to. -/
def wellKnownMessages : List String :=
  ["Any", "Empty", "Timestamp", "Duration", "FieldMask", "Struct", "Value", "ListValue",
    "DoubleValue", "FloatValue", "Int64Value", "UInt64Value", "Int32Value", "UInt32Value",
    "BoolValue", "StringValue", "BytesValue"]

def wellKnownId (name : String) : String := "." ++ wellKnownPackage ++ "." ++ name

def wellKnown : SymbolTable :=
  { empty with
    messages :=
      Catalog.ofList (wellKnownMessages.map fun name =>
        (wellKnownId name, { name, id := wellKnownId name, package := wellKnownPackage }))
    enums :=
      Catalog.empty.insert (wellKnownId "NullValue")
        { name := "NullValue", id := wellKnownId "NullValue", package := wellKnownPackage } }

/-- The table after which nothing changes. -/
def freeze (t : SymbolTable) : SymbolTable := { t with frozen := true }

/-! ### Looking up -/

def message? (t : SymbolTable) (id : String) : Option Message := t.messages.get? id

def enum? (t : SymbolTable) (id : String) : Option Enum := t.enums.get? id

def service? (t : SymbolTable) (id : String) : Option Service := t.services.get? id

def method? (t : SymbolTable) (id : String) : Option Method := t.methods.get? id

/-! ### Registering -/

/-- Registers a message, in place of an earlier one with its ID. -/
def insertMessage (m : Message) (t : SymbolTable) : Except ModelError SymbolTable :=
  if t.frozen then .error (.frozen m.id)
  else .ok { t with messages := t.messages.insert m.id m }

/-- Registers an enum, in place of an earlier one with its ID. -/
def insertEnum (e : Enum) (t : SymbolTable) : Except ModelError SymbolTable :=
  if t.frozen then .error (.frozen e.id)
  else .ok { t with enums := t.enums.insert e.id e }

/-- Registers a service, in place of an earlier one with its ID. -/
def insertService (s : Service) (t : SymbolTable) : Except ModelError SymbolTable :=
  if t.frozen then .error (.frozen s.id)
  else .ok { t with services := t.services.insert s.id s }

/-- Registers a method, unless there is one with its ID. -/
def insertMethod (m : Method) (t : SymbolTable) : Except ModelError SymbolTable :=
  if t.frozen then .error (.frozen m.id)
  else if t.methods.contains m.id then .error (.duplicate m.id)
  else .ok { t with methods := t.methods.insert m.id m }

/-- Removes a method; the result is the method that was there. -/
def removeMethod (id : String) (t : SymbolTable) :
    Except ModelError (Option Method × SymbolTable) :=
  if t.frozen then .error (.frozen id)
  else .ok (t.method? id, { t with methods := t.methods.erase id })

/-! ### Changing in place -/

/-- Changes the message under an ID; `none` if there is none or the table is frozen. -/
def editMessage? (id : String) (f : Message → Message) (t : SymbolTable) : Option SymbolTable :=
  if !t.frozen && t.messages.contains id then
    some { t with messages := t.messages.modify id f }
  else none

/-- Changes the enum under an ID; `none` if there is none or the table is frozen. -/
def editEnum? (id : String) (f : Enum → Enum) (t : SymbolTable) : Option SymbolTable :=
  if !t.frozen && t.enums.contains id then some { t with enums := t.enums.modify id f } else none

/-- Changes the service under an ID; `none` if there is none or the table is frozen. -/
def editService? (id : String) (f : Service → Service) (t : SymbolTable) : Option SymbolTable :=
  if !t.frozen && t.services.contains id then
    some { t with services := t.services.modify id f }
  else none

/-- Changes the method under an ID; `none` if there is none or the table is frozen. -/
def editMethod? (id : String) (f : Method → Method) (t : SymbolTable) : Option SymbolTable :=
  if !t.frozen && t.methods.contains id then
    some { t with methods := t.methods.modify id f }
  else none

end SymbolTable

/-! ### Models -/

/-- A model of one API: lists of IDs, and the table that holds the entities. -/
structure Api where
  name : String
  title : String
  description : String
  packageName : String
  /-- The IDs of the services, in the order of their declaration. -/
  services : List String
  /-- The IDs of the messages declared at top level. -/
  messages : List String
  /-- The IDs of the enums declared at top level. -/
  enums : List String
  table : SymbolTable

namespace Api

/-- The model that says nothing. -/
def blank : Api := ⟨"", "", "", "", [], [], [], .empty⟩

instance : Inhabited Api := ⟨blank⟩

/-- The model of a package, with the well-known entities. -/
def new (package : String) : Api := { blank with packageName := package, table := .wellKnown }

def serviceList (a : Api) : List Service := a.services.filterMap a.table.service?

def messageList (a : Api) : List Message := a.messages.filterMap a.table.message?

def enumList (a : Api) : List Enum := a.enums.filterMap a.table.enum?

/-- The methods of a service that are there. -/
def methodList (a : Api) (s : Service) : List Method := s.methods.filterMap a.table.method?

end Api

end ServiceModel
