import ServiceModel.Data.Json
import ServiceModel.Model.SymbolTable

/-!
The JSON form of a service model.  Every member is written, `null` where nothing is there, in the
order in which the entities declare them.
-/

namespace ServiceModel

/-! ### Templates and routing -/

def VariableSegment.toJson : VariableSegment → Json
  | .literal l => .object [("literal", .string l)]
  | .single => .string "single"
  | .multi => .string "multi"

def PathVariable.toJson (v : PathVariable) : Json :=
  .object [("field_path", .strings v.fieldPath),
    ("segments", .array (v.segments.map VariableSegment.toJson))]

def PathSegment.toJson : PathSegment → Json
  | .literal l => .object [("literal", .string l)]
  | .variable v => .object [("variable", v.toJson)]
  | .verb v => .object [("verb", .string v)]

def PathTemplate.toJson (t : PathTemplate) : Json :=
  .object [("segments", .array (t.segments.map PathSegment.toJson))]

def RoutingRule.toJson (r : RoutingRule) : Json :=
  .object [("field", .string r.field), ("pathTemplate", .string r.pathTemplate)]

def RoutingPath.toJson (p : RoutingPath) : Json := .object [("segments", .strings p.segments)]

def RoutingVariant.toJson (v : RoutingVariant) : Json :=
  .object [("field_path", .strings v.fieldPath), ("prefix", v.before.toJson),
    ("matching", v.matching.toJson), ("suffix", v.behind.toJson)]

def RoutingHeader.toJson (h : RoutingHeader) : Json :=
  .object [("name", .string h.name), ("variants", .array (h.variants.map RoutingVariant.toJson))]

/-! ### Fields and messages -/

namespace WireType

def jsonName : WireType → String
  | .double => "Double"
  | .float => "Float"
  | .int64 => "Int64"
  | .uint64 => "UInt64"
  | .int32 => "Int32"
  | .fixed64 => "Fixed64"
  | .fixed32 => "Fixed32"
  | .bool => "Bool"
  | .string => "String"
  | .group => "Group"
  | .message => "Message"
  | .bytes => "Bytes"
  | .uint32 => "UInt32"
  | .enum => "Enum"
  | .sfixed32 => "SFixed32"
  | .sfixed64 => "SFixed64"
  | .sint32 => "SInt32"
  | .sint64 => "SInt64"

def jsonNames : List (String × WireType) :=
  [WireType.double, .float, .int64, .uint64, .int32, .fixed64, .fixed32, .bool, .string, .group,
    .message, .bytes, .uint32, .enum, .sfixed32, .sfixed64, .sint32, .sint64].map
    fun t => (t.jsonName, t)

end WireType

def Behavior.jsonName : Behavior → String
  | .optional => "Optional"
  | .required => "Required"
  | .outputOnly => "OutputOnly"
  | .inputOnly => "InputOnly"
  | .immutable => "Immutable"
  | .unorderedList => "UnorderedList"
  | .nonEmptyDefault => "NonEmptyDefault"
  | .identifier => "Identifier"

def Behavior.jsonNames : List (String × Behavior) :=
  [Behavior.optional, .required, .outputOnly, .inputOnly, .immutable, .unorderedList,
    .nonEmptyDefault, .identifier].map fun b => (b.jsonName, b)

def TextFormat.jsonName : TextFormat → String
  | .uuid4 => "Uuid4"
  | .ipv4 => "Ipv4"
  | .ipv6 => "Ipv6"
  | .ipv4OrIpv6 => "Ipv4OrIpv6"

def TextFormat.jsonNames : List (String × TextFormat) :=
  [TextFormat.uuid4, .ipv4, .ipv6, .ipv4OrIpv6].map fun f => (f.jsonName, f)

def WireType.toJson (t : WireType) : Json := .string t.jsonName

def Behavior.toJson (b : Behavior) : Json := .string b.jsonName

def TextFormat.toJson (f : TextFormat) : Json := .string f.jsonName

def Field.toJson (f : Field) : Json :=
  .object [("name", .string f.name), ("id", .string f.id), ("json_name", .string f.jsonName),
    ("documentation", .string f.documentation), ("typez", f.wireType.toJson),
    ("typez_id", .string f.typeId), ("repeated", .bool f.repeated), ("optional", .bool f.optional),
    ("map", .bool f.isMap), ("is_oneof", .bool f.isOneOf),
    ("auto_populated", .bool f.autoPopulated), ("deprecated", .bool f.deprecated),
    ("behavior", .array (f.behavior.map Behavior.toJson)),
    ("format", .option TextFormat.toJson f.format)]

def OneOf.toJson (o : OneOf) : Json :=
  .object [("name", .string o.name), ("id", .string o.id),
    ("documentation", .string o.documentation), ("fields", .strings o.fields)]

def PageFields.toJson (p : PageFields) : Json :=
  .object [("next_page_token", .string p.nextPageToken), ("pageable_item", .string p.item)]

def Message.toJson (m : Message) : Json :=
  .object [("name", .string m.name), ("id", .string m.id), ("package", .string m.package),
    ("documentation", .string m.documentation), ("parent", .option .string m.parent),
    ("fields", .array (m.fields.map Field.toJson)), ("messages", .strings m.messages),
    ("enums", .strings m.enums), ("one_ofs", .array (m.oneOfs.map OneOf.toJson)),
    ("is_map", .bool m.isMap), ("deprecated", .bool m.deprecated),
    ("pagination", .option PageFields.toJson m.pagination)]

/-! ### Enums -/

def EnumValue.toJson (v : EnumValue) : Json :=
  .object [("name", .string v.name), ("id", .string v.id), ("number", .int v.number.toInt),
    ("documentation", .string v.documentation), ("deprecated", .bool v.deprecated)]

def Enum.toJson (e : Enum) : Json :=
  .object [("name", .string e.name), ("id", .string e.id), ("package", .string e.package),
    ("documentation", .string e.documentation), ("parent", .option .string e.parent),
    ("values", .array (e.values.map EnumValue.toJson)), ("deprecated", .bool e.deprecated)]

/-! ### Services -/

def HttpBinding.toJson (b : HttpBinding) : Json :=
  .object [("verb", .string b.verb), ("path_template", b.pathTemplate.toJson),
    ("query_parameters", .strings b.queryParameters.names)]

def HttpBindings.toJson (h : HttpBindings) : Json :=
  .object [("bindings", .array (h.bindings.map HttpBinding.toJson)),
    ("body_field_path", .option .string h.bodyFieldPath)]

def OperationTypes.toJson (o : OperationTypes) : Json :=
  .object [("response_type_id", .string o.responseTypeId),
    ("metadata_type_id", .string o.metadataTypeId)]

def Method.toJson (m : Method) : Json :=
  .object [("name", .string m.name), ("id", .string m.id), ("service_id", .string m.serviceId),
    ("documentation", .string m.documentation), ("input_type_id", .string m.inputTypeId),
    ("output_type_id", .string m.outputTypeId),
    ("client_side_streaming", .bool m.clientStreaming),
    ("server_side_streaming", .bool m.serverStreaming), ("path_info", m.http.toJson),
    ("routing", .array (m.routing.map RoutingHeader.toJson)),
    ("operation_info", .option OperationTypes.toJson m.operation),
    ("pagination", .option .string m.pagination), ("auto_populated", .strings m.autoPopulated),
    ("source_service_id", .option .string m.sourceServiceId), ("deprecated", .bool m.deprecated)]

def Service.toJson (s : Service) : Json :=
  .object [("name", .string s.name), ("id", .string s.id), ("package", .string s.package),
    ("documentation", .string s.documentation), ("default_host", .string s.defaultHost),
    ("methods", .strings s.methods), ("deprecated", .bool s.deprecated)]

/-! ### Models -/

/-- A symbol table in JSON; whether it is frozen is not written. -/
def SymbolTable.toJson (t : SymbolTable) : Json :=
  .object [("messages", .catalog Message.toJson t.messages),
    ("enums", .catalog Enum.toJson t.enums), ("services", .catalog Service.toJson t.services),
    ("methods", .catalog Method.toJson t.methods)]

def Api.toJson (a : Api) : Json :=
  .object [("name", .string a.name), ("title", .string a.title),
    ("description", .string a.description), ("package_name", .string a.packageName),
    ("services", .strings a.services), ("messages", .strings a.messages),
    ("enums", .strings a.enums), ("state", a.table.toJson)]

end ServiceModel
