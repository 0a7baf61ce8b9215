import ServiceModel.Data.Node
import ServiceModel.Model.Written

/-!
Reading the entities of a model back from their JSON form.  The readers are strict: every member
has to be there, except those that may be `null`.
-/

namespace ServiceModel

open Node (Fields)

def Node.texts? (n : Node) : Read (List String) := n.list? Node.text?

/-! ### Templates and routing -/

def VariableSegment.ofNode? (n : Node) : Read VariableSegment := do
  match ← n.variant? with
  | ("literal", some payload) => return .literal (← payload.text?)
  | _ => n.choice? [("single", .single), ("multi", .multi)]

def PathVariable.ofNode? (n : Node) : Read PathVariable := do
  let f ← n.allFields? [["field_path"], ["segments"]]
  return ⟨← f.need 0 Node.texts?, ← f.need 1 (Node.list? VariableSegment.ofNode?)⟩

def PathSegment.ofNode? (n : Node) : Read PathSegment := do
  match ← n.variant? with
  | ("literal", some payload) => return .literal (← payload.text?)
  | ("variable", some payload) => return .variable (← PathVariable.ofNode? payload)
  | ("verb", some payload) => return .verb (← payload.text?)
  | _ => failure

def PathTemplate.ofNode? (n : Node) : Read PathTemplate := do
  let f ← n.allFields? [["segments"]]
  return ⟨← f.need 0 (Node.list? PathSegment.ofNode?)⟩

def RoutingPath.ofNode? (n : Node) : Read RoutingPath := do
  let f ← n.allFields? [["segments"]]
  return ⟨← f.need 0 Node.texts?⟩

def RoutingVariant.ofNode? (n : Node) : Read RoutingVariant := do
  let f ← n.allFields? [["field_path"], ["prefix"], ["matching"], ["suffix"]]
  return ⟨← f.need 0 Node.texts?, ← f.need 1 RoutingPath.ofNode?, ← f.need 2 RoutingPath.ofNode?,
    ← f.need 3 RoutingPath.ofNode?⟩

def RoutingHeader.ofNode? (n : Node) : Read RoutingHeader := do
  let f ← n.allFields? [["name"], ["variants"]]
  return ⟨← f.need 0 Node.text?, ← f.need 1 (Node.list? RoutingVariant.ofNode?)⟩

/-! ### Fields and messages -/

def WireType.ofNode? (n : Node) : Read WireType := n.choice? WireType.jsonNames

def Behavior.ofNode? (n : Node) : Read Behavior := n.choice? Behavior.jsonNames

def TextFormat.ofNode? (n : Node) : Read TextFormat := n.choice? TextFormat.jsonNames

def Field.ofNode? (n : Node) : Read Field := do
  let f ← n.allFields? [["name"], ["id"], ["json_name"], ["documentation"], ["typez"],
    ["typez_id"], ["repeated"], ["optional"], ["map"], ["is_oneof"], ["auto_populated"],
    ["deprecated"], ["behavior"], ["format"]]
  return {
    name := ← f.need 0 Node.text?
    id := ← f.need 1 Node.text?
    jsonName := ← f.need 2 Node.text?
    documentation := ← f.need 3 Node.text?
    wireType := ← f.need 4 WireType.ofNode?
    typeId := ← f.need 5 Node.text?
    repeated := ← f.need 6 Node.flag?
    optional := ← f.need 7 Node.flag?
    isMap := ← f.need 8 Node.flag?
    isOneOf := ← f.need 9 Node.flag?
    autoPopulated := ← f.need 10 Node.flag?
    deprecated := ← f.need 11 Node.flag?
    behavior := ← f.need 12 (Node.list? Behavior.ofNode?)
    format := ← f.maybe 13 TextFormat.ofNode? }

def OneOf.ofNode? (n : Node) : Read OneOf := do
  let f ← n.allFields? [["name"], ["id"], ["documentation"], ["fields"]]
  return ⟨← f.need 0 Node.text?, ← f.need 1 Node.text?, ← f.need 2 Node.text?,
    ← f.need 3 Node.texts?⟩

def PageFields.ofNode? (n : Node) : Read PageFields := do
  let f ← n.allFields? [["next_page_token"], ["pageable_item"]]
  return ⟨← f.need 0 Node.text?, ← f.need 1 Node.text?⟩

def Message.ofNode? (n : Node) : Read Message := do
  let f ← n.allFields? [["name"], ["id"], ["package"], ["documentation"], ["parent"], ["fields"],
    ["messages"], ["enums"], ["one_ofs"], ["is_map"], ["deprecated"], ["pagination"]]
  return {
    name := ← f.need 0 Node.text?
    id := ← f.need 1 Node.text?
    package := ← f.need 2 Node.text?
    documentation := ← f.need 3 Node.text?
    parent := ← f.maybe 4 Node.text?
    fields := ← f.need 5 (Node.list? Field.ofNode?)
    messages := ← f.need 6 Node.texts?
    enums := ← f.need 7 Node.texts?
    oneOfs := ← f.need 8 (Node.list? OneOf.ofNode?)
    isMap := ← f.need 9 Node.flag?
    deprecated := ← f.need 10 Node.flag?
    pagination := ← f.maybe 11 PageFields.ofNode? }

/-! ### Enums -/

def EnumValue.ofNode? (n : Node) : Read EnumValue := do
  let f ← n.allFields? [["name"], ["id"], ["number"], ["documentation"], ["deprecated"]]
  return ⟨← f.need 0 Node.text?, ← f.need 1 Node.text?, ← f.need 2 Node.int32?,
    ← f.need 3 Node.text?, ← f.need 4 Node.flag?⟩

def Enum.ofNode? (n : Node) : Read Enum := do
  let f ← n.allFields? [["name"], ["id"], ["package"], ["documentation"], ["parent"], ["values"],
    ["deprecated"]]
  return {
    name := ← f.need 0 Node.text?
    id := ← f.need 1 Node.text?
    package := ← f.need 2 Node.text?
    documentation := ← f.need 3 Node.text?
    parent := ← f.maybe 4 Node.text?
    values := ← f.need 5 (Node.list? EnumValue.ofNode?)
    deprecated := ← f.need 6 Node.flag? }

/-! ### Services -/

/-- Reads a way to call a method.  Repeated query parameters count once. -/
def HttpBinding.ofNode? (n : Node) : Read HttpBinding := do
  let f ← n.allFields? [["verb"], ["path_template"], ["query_parameters"]]
  return ⟨← f.need 0 Node.text?, ← f.need 1 PathTemplate.ofNode?,
    .ofList (← f.need 2 Node.texts?)⟩

def HttpBindings.ofNode? (n : Node) : Read HttpBindings := do
  let f ← n.allFields? [["bindings"], ["body_field_path"]]
  return ⟨← f.need 0 (Node.list? HttpBinding.ofNode?), ← f.maybe 1 Node.text?⟩

def OperationTypes.ofNode? (n : Node) : Read OperationTypes := do
  let f ← n.allFields? [["response_type_id"], ["metadata_type_id"]]
  return ⟨← f.need 0 Node.text?, ← f.need 1 Node.text?⟩

def Method.ofNode? (n : Node) : Read Method := do
  let f ← n.allFields? [["name"], ["id"], ["service_id"], ["documentation"], ["input_type_id"],
    ["output_type_id"], ["client_side_streaming"], ["server_side_streaming"], ["path_info"],
    ["routing"], ["operation_info"], ["pagination"], ["auto_populated"], ["source_service_id"],
    ["deprecated"]]
  return {
    name := ← f.need 0 Node.text?
    id := ← f.need 1 Node.text?
    serviceId := ← f.need 2 Node.text?
    documentation := ← f.need 3 Node.text?
    inputTypeId := ← f.need 4 Node.text?
    outputTypeId := ← f.need 5 Node.text?
    clientStreaming := ← f.need 6 Node.flag?
    serverStreaming := ← f.need 7 Node.flag?
    http := ← f.need 8 HttpBindings.ofNode?
    routing := ← f.need 9 (Node.list? RoutingHeader.ofNode?)
    operation := ← f.maybe 10 OperationTypes.ofNode?
    pagination := ← f.maybe 11 Node.text?
    autoPopulated := ← f.need 12 Node.texts?
    sourceServiceId := ← f.maybe 13 Node.text?
    deprecated := ← f.need 14 Node.flag? }

def Service.ofNode? (n : Node) : Read Service := do
  let f ← n.allFields? [["name"], ["id"], ["package"], ["documentation"], ["default_host"],
    ["methods"], ["deprecated"]]
  return ⟨← f.need 0 Node.text?, ← f.need 1 Node.text?, ← f.need 2 Node.text?,
    ← f.need 3 Node.text?, ← f.need 4 Node.text?, ← f.need 5 Node.texts?, ← f.need 6 Node.flag?⟩

end ServiceModel
