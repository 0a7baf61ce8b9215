import ServiceModel.Data.JsonText
import ServiceModel.Data.Yaml.Document
import ServiceModel.Http.Rule
import ServiceModel.Mixin.Basic
import ServiceModel.Model.SymbolTable

/-!
Service configurations.  Only what a model is built from is typed; `authentication` and `backend`
are kept as they are.
-/

namespace ServiceModel

/-- What is said about the entity that a selector names. -/
structure DocumentationRule where
  selector : String
  description : String
  deriving DecidableEq, Repr, Inhabited

structure Documentation where
  summary : String
  overview : String
  rules : List DocumentationRule
  deriving DecidableEq, Repr, Inhabited

/-- How clients treat a method. -/
structure MethodSettings where
  selector : String
  autoPopulatedFields : List String
  deriving DecidableEq, Repr, Inhabited

structure ServiceConfig where
  name : String
  title : String
  /-- The names of the declared APIs, without a dot in front. -/
  apiNames : List String
  documentation : Documentation
  httpRules : List HttpRule
  methodSettings : List MethodSettings
  authentication : Option Json
  backend : Option Json
  deriving Inhabited

namespace ServiceConfig

/-! ### Looking up -/

/-- The first declared API that is not a mixin. -/
def primaryApi? (c : ServiceConfig) : Option String := c.apiNames.find? (!isMixinApi ·)

def httpRule? (c : ServiceConfig) (id : String) : Option HttpRule :=
  c.httpRules.find? fun r => r.selector == selectorOf id

def description? (c : ServiceConfig) (id : String) : Option String :=
  (c.documentation.rules.find? fun r => r.selector == selectorOf id).map (·.description)

/-- The fields that clients may fill in for a method: those of the first settings for it. -/
def autoPopulatedFields (c : ServiceConfig) (id : String) : List String :=
  match c.methodSettings.find? fun s => s.selector == selectorOf id with
  | some s => s.autoPopulatedFields
  | none => []

/-! ### Reading -/

def readApi? (n : Node) : Read String := do
  let f ← n.fields? [["name"]]
  f.orElse 0 Node.text? ""

def readDocumentationRule? (n : Node) : Read DocumentationRule := do
  let f ← n.fields? [["selector"], ["description"]]
  return ⟨← f.orElse 0 Node.text? "", ← f.orElse 1 Node.text? ""⟩

def readDocumentation? (n : Node) : Read Documentation := do
  let f ← n.fields? [["summary"], ["overview"], ["rules"]]
  return ⟨← f.orElse 0 Node.text? "", ← f.orElse 1 Node.text? "",
    ← f.orElse 2 (Node.list? readDocumentationRule?) []⟩

def readHttp? (n : Node) : Read (List HttpRule) := do
  let f ← n.fields? [["rules"]]
  f.orElse 0 (Node.list? HttpRule.ofNode?) []

def readMethodSettings? (n : Node) : Read MethodSettings := do
  let f ← n.fields? [["selector"], ["autoPopulatedFields", "auto_populated_fields"]]
  return ⟨← f.orElse 0 Node.text? "", ← f.orElse 1 (Node.list? Node.text?) []⟩

def readPublishing? (n : Node) : Read (List MethodSettings) := do
  let f ← n.fields? [["methodSettings", "method_settings"]]
  f.orElse 0 (Node.list? readMethodSettings?) []

def ofNode? (n : Node) : Read ServiceConfig := do
  let f ← n.fields? [["name"], ["title"], ["apis"], ["documentation"], ["http"], ["publishing"],
    ["authentication"], ["backend"]]
  return {
    name := ← f.orElse 0 Node.text? ""
    title := ← f.orElse 1 Node.text? ""
    apiNames := ← f.orElse 2 (Node.list? readApi?) []
    documentation := ← f.orElse 3 readDocumentation? ⟨"", "", []⟩
    httpRules := ← f.orElse 4 readHttp? []
    methodSettings := ← f.orElse 5 readPublishing? []
    authentication := ← f.maybe 6 Node.json?
    backend := ← f.maybe 7 Node.json? }

/-- A configuration that was read, or the error that says there is none. -/
def orError : Option ServiceConfig → Except ModelError ServiceConfig
  | some c => .ok c
  | none => .error .serviceConfig

def ofJsonText (text : String) : Except ModelError ServiceConfig :=
  orError (JsonText.read? ofNode? text)

def ofYamlText (text : String) : Except ModelError ServiceConfig :=
  orError (Yaml.read? ofNode? text)

/-! ### Writing -/

def toJson (c : ServiceConfig) : Json :=
  .object [("name", .string c.name), ("title", .string c.title),
    ("apis", .array (c.apiNames.map fun name => .object [("name", .string name)])),
    ("documentation", .object [("summary", .string c.documentation.summary),
      ("overview", .string c.documentation.overview),
      ("rules", .array (c.documentation.rules.map fun r =>
        .object [("selector", .string r.selector), ("description", .string r.description)]))]),
    ("http", .object [("rules", .array (c.httpRules.map HttpRule.toJson))]),
    ("publishing", .object [("methodSettings", .array (c.methodSettings.map fun s =>
      .object [("selector", .string s.selector),
        ("autoPopulatedFields", .strings s.autoPopulatedFields)]))]),
    ("authentication", .option id c.authentication), ("backend", .option id c.backend)]

end ServiceConfig

end ServiceModel
