import ServiceModel.BuildError
import ServiceModel.Data.JsonText
import ServiceModel.Data.Yaml.Document
import ServiceModel.OpenApi.Schema
import ServiceModel.Text.Blank

/-!
OpenAPI documents: component schemas, and the operations of paths.  A document is written in JSON if
its first character is a brace, and in YAML otherwise.
-/

namespace ServiceModel.OpenApi

/-- What bodies of one media type look like. -/
structure MediaType where
  schema : Option Schema
  deriving Inhabited

/-- Bodies by media type, in the order of their declaration. -/
abbrev Content := List (String × MediaType)

/-- The schema of JSON bodies, or else of the first media type. -/
def Content.schema? (c : Content) : Option Schema :=
  match (Keyed.get? "application/json" c).or (c.head?.map (·.2)) with
  | some m => m.schema
  | none => none

structure Parameter where
  name : String
  /-- Where the parameter is given. -/
  location : String
  required : Bool
  description : String
  deprecated : Bool
  schema : Option Schema
  deriving Inhabited

structure RequestBody where
  required : Bool
  description : String
  content : Content
  deriving Inhabited

structure Response where
  description : String
  content : Content
  deriving Inhabited

structure Operation where
  id : Option String
  summary : String
  description : String
  parameters : List Parameter
  requestBody : Option RequestBody
  /-- The responses by status code, in the order of their declaration. -/
  responses : List (String × Response)
  deprecated : Bool
  deriving Inhabited

structure PathItem where
  get : Option Operation
  put : Option Operation
  post : Option Operation
  delete : Option Operation
  patch : Option Operation
  /-- The parameters that all operations of the path share. -/
  parameters : List Parameter
  deriving Inhabited

/-- The operations with their verbs, in a fixed order of the verbs. -/
def PathItem.operations (p : PathItem) : List (String × Operation) :=
  [("GET", p.get), ("PUT", p.put), ("POST", p.post), ("DELETE", p.delete),
    ("PATCH", p.patch)].filterMap fun (verb, op) => op.map fun o => (verb, o)

/-- What a document says about the API as a whole. -/
structure Info where
  title : String
  description : String
  version : String
  deriving DecidableEq, Repr, Inhabited

structure Document where
  openapi : String
  info : Info
  /-- The URLs of the servers. -/
  servers : List String
  paths : List (String × PathItem)
  schemas : List (String × Schema)
  deriving Inhabited

/-- The host of the first server, as its URL spells it. -/
def Document.defaultHost (d : Document) : String :=
  match d.servers with
  | [] => ""
  | url :: _ =>
      let rest :=
        match Text.cutFirstText "://".toList url.toList with
        | some (_, rest) => rest
        | none => url.toList
      String.ofList (rest.takeWhile (· != '/'))

/-! ### Reading -/

def MediaType.ofNode? (n : Node) : Read MediaType := do
  let f ← n.fields? [["schema"]]
  return ⟨← f.maybe 0 Schema.ofNode?⟩

def Content.ofNode? (n : Node) : Read Content := n.dictionary? MediaType.ofNode?

def Parameter.ofNode? (n : Node) : Read Parameter := do
  let f ← n.fields? [["name"], ["in"], ["required"], ["description"], ["deprecated"], ["schema"]]
  return ⟨← f.orElse 0 Node.text? "", ← f.orElse 1 Node.text? "", ← f.orElse 2 Node.flag? false,
    ← f.orElse 3 Node.text? "", ← f.orElse 4 Node.flag? false, ← f.maybe 5 Schema.ofNode?⟩

def RequestBody.ofNode? (n : Node) : Read RequestBody := do
  let f ← n.fields? [["required"], ["description"], ["content"]]
  return ⟨← f.orElse 0 Node.flag? false, ← f.orElse 1 Node.text? "",
    ← f.orElse 2 Content.ofNode? []⟩

def Response.ofNode? (n : Node) : Read Response := do
  let f ← n.fields? [["description"], ["content"]]
  return ⟨← f.orElse 0 Node.text? "", ← f.orElse 1 Content.ofNode? []⟩

def Operation.ofNode? (n : Node) : Read Operation := do
  let f ← n.fields? [["operationId"], ["summary"], ["description"], ["parameters"],
    ["requestBody"], ["responses"], ["deprecated"]]
  return {
    id := ← f.maybe 0 Node.text?
    summary := ← f.orElse 1 Node.text? ""
    description := ← f.orElse 2 Node.text? ""
    parameters := ← f.orElse 3 (Node.list? Parameter.ofNode?) []
    requestBody := ← f.maybe 4 RequestBody.ofNode?
    responses := ← f.orElse 5 (Node.dictionary? Response.ofNode?) []
    deprecated := ← f.orElse 6 Node.flag? false }

def PathItem.ofNode? (n : Node) : Read PathItem := do
  let f ← n.fields? [["get"], ["put"], ["post"], ["delete"], ["patch"], ["parameters"]]
  return ⟨← f.maybe 0 Operation.ofNode?, ← f.maybe 1 Operation.ofNode?,
    ← f.maybe 2 Operation.ofNode?, ← f.maybe 3 Operation.ofNode?, ← f.maybe 4 Operation.ofNode?,
    ← f.orElse 5 (Node.list? Parameter.ofNode?) []⟩

def Info.ofNode? (n : Node) : Read Info := do
  let f ← n.fields? [["title"], ["description"], ["version"]]
  return ⟨← f.orElse 0 Node.text? "", ← f.orElse 1 Node.text? "", ← f.orElse 2 Node.text? ""⟩

def readServer? (n : Node) : Read String := do
  let f ← n.fields? [["url"]]
  f.orElse 0 Node.text? ""

def readComponents? (n : Node) : Read (List (String × Schema)) := do
  let f ← n.fields? [["schemas"]]
  f.orElse 0 (Node.dictionary? Schema.ofNode?) []

def Document.ofNode? (n : Node) : Read Document := do
  let f ← n.fields? [["openapi"], ["info"], ["servers"], ["paths"], ["components"]]
  return {
    openapi := ← f.orElse 0 Node.text? ""
    info := ← f.orElse 1 Info.ofNode? ⟨"", "", ""⟩
    servers := ← f.orElse 2 (Node.list? readServer?) []
    paths := ← f.orElse 3 (Node.dictionary? PathItem.ofNode?) []
    schemas := ← f.orElse 4 readComponents? [] }

def Document.ofText (text : String) : Except BuildError Document :=
  if (Text.trimStart text.toList).head? = some '\x7b' then
    match JsonText.read? Document.ofNode? text with
    | some d => .ok d
    | none => .error ⟨[.parsingOpenApiJson], .json⟩
  else
    match Yaml.read? Document.ofNode? text with
    | some d => .ok d
    | none => .error ⟨[.parsingOpenApiYaml], .yaml⟩

end ServiceModel.OpenApi
