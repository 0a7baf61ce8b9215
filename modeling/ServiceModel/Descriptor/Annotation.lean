import ServiceModel.Descriptor.Basic
import ServiceModel.Http.Rule
import ServiceModel.Model.Names
import ServiceModel.Routing.Basic

/-!
Annotations: options of declarations that say how an API behaves.  Extensions stand under their
full name in brackets.  An annotation may be missing, well formed, or malformed.
-/

namespace ServiceModel.Descriptor

def httpKey : String := "[google.api.http]"

def routingKey : String := "[google.api.routing]"

def operationKey : String := "[google.longrunning.operation_info]"

def behaviorKey : String := "[google.api.field_behavior]"

def fieldInfoKey : String := "[google.api.field_info]"

def defaultHostKey : String := "[google.api.default_host]"

/-- An annotation that cannot be read. -/
structure MalformedOption where
  key : String
  deriving DecidableEq, Repr, Inhabited

def MalformedOption.message (e : MalformedOption) : String := "malformed " ++ e.key ++ " option"

/-- The types of an operation, as written. -/
structure OperationAnnotation where
  responseType : String
  metadataType : String
  deriving DecidableEq, Repr, Inhabited

/-- The annotation under a key, read by `read`. -/
def annotation {α : Type} (key : String) (read : Node → Read α) (options : Options) :
    Except MalformedOption (Option α) :=
  match options.get? key with
  | none => .ok none
  | some value =>
      match (Node.ofJson value).read? 0 read with
      | some a => .ok (some a)
      | none => .error ⟨key⟩

def readRoutingRule? (n : Node) : Read RoutingRule := do
  let f ← n.fields? [["field"], ["pathTemplate", "path_template"]]
  return ⟨← f.orElse 0 Node.text? "", ← f.orElse 1 Node.text? ""⟩

def readRouting? (n : Node) : Read (List RoutingRule) := do
  let f ← n.fields? [["routingParameters", "routing_parameters"]]
  f.orElse 0 (Node.list? readRoutingRule?) []

def readOperation? (n : Node) : Read OperationAnnotation := do
  let f ← n.fields? [["responseType", "response_type"], ["metadataType", "metadata_type"]]
  return ⟨← f.orElse 0 Node.text? "", ← f.orElse 1 Node.text? ""⟩

def readFieldInfo? (n : Node) : Read String := do
  let f ← n.fields? [["format"]]
  f.orElse 0 Node.text? ""

def httpRule (options : Options) : Except MalformedOption (Option HttpRule) :=
  annotation httpKey HttpRule.ofNode? options

/-- The routing rules of a method, in the order of their declaration. -/
def routingRules (options : Options) : Except MalformedOption (Option (List RoutingRule)) :=
  annotation routingKey readRouting? options

def operation (options : Options) : Except MalformedOption (Option OperationAnnotation) :=
  annotation operationKey readOperation? options

/-- The behaviors of a field, one or a list; unknown ones are left out. -/
def behaviors (options : Options) : List Behavior :=
  match options.get? behaviorKey with
  | some (.array items) => (items.filterMap Json.string?).filterMap Behavior.ofAnnotation?
  | some (.string name) => (Behavior.ofAnnotation? name).toList
  | _ => []

/-- The format of a field; a malformed or unknown one is none. -/
def format? (options : Options) : Option TextFormat :=
  match annotation fieldInfoKey readFieldInfo? options with
  | .ok (some name) => TextFormat.ofAnnotation? name
  | _ => none

def defaultHost? (options : Options) : Option String :=
  (options.get? defaultHostKey).bind Json.string?

def isDeprecated (options : Options) : Bool :=
  ((options.get? "deprecated").bind Json.bool?).getD false

/-- Whether a message is an entry of a map.  The second spelling counts where the first is not
used. -/
def isMapEntry (options : Options) : Bool :=
  (((options.get? "mapEntry").or (options.get? "map_entry")).bind Json.bool?).getD false

end ServiceModel.Descriptor
