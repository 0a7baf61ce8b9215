import ServiceModel.NameSet
import ServiceModel.PathTemplate.Basic
import ServiceModel.Routing.Basic

/-!
The entities of a service model: messages with their fields, enums with their values, and services
with their methods.  Entities name each other by ID, never by containment.
-/

namespace ServiceModel

/-! ### Fields -/

inductive WireType where
  | double
  | float
  | int64
  | uint64
  | int32
  | fixed64
  | fixed32
  | bool
  | string
  | group
  | message
  | bytes
  | uint32
  | enum
  | sfixed32
  | sfixed64
  | sint32
  | sint64
  deriving DecidableEq, Repr

instance : Inhabited WireType := ⟨.string⟩

/-- Whether fields of the type refer to a message or an enum. -/
def WireType.isReference : WireType → Bool
  | .message => true
  | .group => true
  | .enum => true
  | _ => false

/-- What callers may expect of a field. -/
inductive Behavior where
  | optional
  | required
  | outputOnly
  | inputOnly
  | immutable
  | unorderedList
  | nonEmptyDefault
  | identifier
  deriving DecidableEq, Repr, Inhabited

/-- The format of the text of a field. -/
inductive TextFormat where
  | uuid4
  | ipv4
  | ipv6
  | ipv4OrIpv6
  deriving DecidableEq, Repr, Inhabited

structure Field where
  name : String
  id : String
  jsonName : String
  documentation : String := ""
  wireType : WireType := .string
  /-- The message or enum that the field refers to; empty for scalars. -/
  typeId : String := ""
  repeated : Bool := false
  optional : Bool := false
  isMap : Bool := false
  isOneOf : Bool := false
  /-- Whether some method with this request fills the field in. -/
  autoPopulated : Bool := false
  deprecated : Bool := false
  behavior : List Behavior := []
  format : Option TextFormat := none
  deriving DecidableEq, Repr, Inhabited

namespace Field

def isRequired (f : Field) : Bool := f.behavior.contains .required

/-- Whether the field is a single string, not a list or a map. -/
def isSingularString (f : Field) : Bool := f.wireType == .string && !f.repeated && !f.isMap

/-- Whether clients may fill the field in by themselves: a single string in the UUID format that
need not be given. -/
def isAutoPopulateCandidate (f : Field) : Bool :=
  f.isSingularString && f.format == some .uuid4 && !f.isRequired

end Field

/-! ### Messages -/

/-- Fields of which at most one is set. -/
structure OneOf where
  name : String
  id : String
  documentation : String := ""
  /-- The names of the members, in the order of their declaration. -/
  fields : List String := []
  deriving DecidableEq, Repr, Inhabited

/-- What a list response is paged by. -/
structure PageFields where
  nextPageToken : String
  item : String
  deriving DecidableEq, Repr, Inhabited

structure Message where
  name : String
  id : String
  package : String
  documentation : String := ""
  /-- The message around a nested one. -/
  parent : Option String := none
  fields : List Field := []
  /-- The IDs of nested messages. -/
  messages : List String := []
  /-- The IDs of nested enums. -/
  enums : List String := []
  oneOfs : List OneOf := []
  /-- Whether the message is an entry, key and value, of a map. -/
  isMap : Bool := false
  deprecated : Bool := false
  /-- Set on the responses of list methods. -/
  pagination : Option PageFields := none
  deriving DecidableEq, Repr, Inhabited

namespace Message

/-- The first field with a name, in either of its spellings. -/
def field? (m : Message) (name : String) : Option Field :=
  m.fields.find? fun f => f.name == name || f.jsonName == name

def isPageableResponse (m : Message) : Bool := m.pagination.isSome

def fieldNames (m : Message) : List String := m.fields.map Field.name

end Message

/-! ### Enums -/

structure EnumValue where
  name : String
  id : String
  number : Int32
  documentation : String := ""
  deprecated : Bool := false
  deriving DecidableEq, Repr, Inhabited

structure Enum where
  name : String
  id : String
  package : String
  documentation : String := ""
  /-- The message around a nested enum. -/
  parent : Option String := none
  values : List EnumValue := []
  deprecated : Bool := false
  deriving DecidableEq, Repr, Inhabited

namespace Enum

/-- The values whose number is not among those seen, each number once. -/
def firstOfEach (seen : List Int32) : List EnumValue → List EnumValue
  | [] => []
  | v :: vs =>
      if seen.contains v.number then firstOfEach seen vs
      else v :: firstOfEach (v.number :: seen) vs

/-- The values without aliases: of those with one number, the first. -/
def uniqueValues (e : Enum) : List EnumValue := firstOfEach [] e.values

end Enum

/-! ### Services -/

/-- One way to call a method over HTTP. -/
structure HttpBinding where
  verb : String
  pathTemplate : PathTemplate
  /-- The request fields that go into the query. -/
  queryParameters : NameSet
  deriving DecidableEq, Repr, Inhabited

/-- All ways to call a method over HTTP. -/
structure HttpBindings where
  bindings : List HttpBinding := []
  /-- `*` for the whole request, the name of a field, or nothing for no body. -/
  bodyFieldPath : Option String := none
  deriving DecidableEq, Repr, Inhabited

/-- The types that a long-running operation ends with and reports on its way. -/
structure OperationTypes where
  responseTypeId : String
  metadataTypeId : String
  deriving DecidableEq, Repr, Inhabited

structure Method where
  name : String
  id : String
  serviceId : String
  documentation : String := ""
  inputTypeId : String := ""
  outputTypeId : String := ""
  clientStreaming : Bool := false
  serverStreaming : Bool := false
  http : HttpBindings := {}
  routing : List RoutingHeader := []
  operation : Option OperationTypes := none
  /-- The request's page token field, on list methods. -/
  pagination : Option String := none
  /-- The request fields that clients fill in when they are left unset. -/
  autoPopulated : List String := []
  /-- The service that a composed method was taken from. -/
  sourceServiceId : Option String := none
  deprecated : Bool := false
  deriving DecidableEq, Repr, Inhabited

namespace Method

def isLongRunning (m : Method) : Bool := m.operation.isSome

def isPageable (m : Method) : Bool := m.pagination.isSome

end Method

structure Service where
  name : String
  id : String
  package : String
  documentation : String := ""
  defaultHost : String := ""
  /-- The IDs of the methods, in the order of their declaration. -/
  methods : List String := []
  deprecated : Bool := false
  deriving DecidableEq, Repr, Inhabited

end ServiceModel
