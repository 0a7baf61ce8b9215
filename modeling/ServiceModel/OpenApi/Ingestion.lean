import ServiceModel.OpenApi.Operation
import ServiceModel.ServiceConfig

/-!
The model of an OpenAPI document: a message for each component that is an object, and one service
with a method for each operation.
-/

namespace ServiceModel.OpenApi

/-! ### Names -/

/-- The package of a model: the one asked for, or else that of the API that the configuration
declares. -/
def packageName (asked : Option String) (config : Option ServiceConfig) : String :=
  match asked.filter (· != "") with
  | some name => name
  | none =>
      match (config.bind (·.primaryApi?)).bind (Text.splitLast? '.') with
      | some (package, _) => package
      | none => "openapi"

/-- The words of a title, which are runs of ASCII letters and digits. -/
def words (title : String) : List String :=
  (Text.split ' ' (title.map fun c => if c.isAlphanum then c else ' ')).filter (· != "")

/-- A service named for a title, each of whose words begins with a capital. -/
def serviceNameOfTitle (title : String) : String :=
  let name := String.join ((words title).map fun w => Text.upperFirst (Text.asciiLower w))
  if name = "" then "Service" else name

/-- The name of the service: that of the API that the configuration declares, or else one for the
title of the document. -/
def serviceName (d : Document) (config : Option ServiceConfig) : String :=
  match config.bind (·.primaryApi?) with
  | some api => Text.lastPiece '.' api
  | none => serviceNameOfTitle d.info.title

/-! ### Models -/

/-- Adds a message for each component that is an object. -/
def addComponents (s : Setting) : List (String × Schema) → Api → Except BuildError Api
  | [], a => .ok a
  | (name, schema) :: rest, a =>
      if schema.isMessage then
        match during (.schema name) (s.addMessage name (s.id name) schema a.table) with
        | .error e => .error e
        | .ok table => addComponents s rest { a with table, messages := a.messages ++ [s.id name] }
      else addComponents s rest a

def addService (s : Setting) (d : Document) (config : Option ServiceConfig) (a : Api) :
    Except BuildError Api :=
  let name := serviceName d config
  let start : Service :=
    { name
      id := s.id name
      package := s.package
      documentation := d.info.description
      defaultHost := d.defaultHost }
  match addEndpoints s d.endpoints start a with
  | .error e => .error e
  | .ok (service, a) =>
      .ok { a with
        table := { a.table with services := a.table.services.insert service.id service }
        services := a.services ++ [service.id] }

/-- The model with its names: those of the configuration, or else of the document. -/
def withNames (d : Document) (config : Option ServiceConfig) (a : Api) : Api :=
  { a with
    name := apiName (config.map (·.name)) a.packageName
    title := ((config.map (·.title)).filter (· != "")).getD d.info.title
    description :=
      ((config.map (·.documentation.summary)).filter (· != "")).getD d.info.description }

/-- The model of a document, in the package asked for. -/
def Document.ingest (d : Document) (asked : Option String) (config : Option ServiceConfig) :
    Except BuildError Api :=
  let package := packageName asked config
  let s : Setting := ⟨d.schemas, package⟩
  match addComponents s d.schemas (Api.new package) with
  | .error e => .error e
  | .ok a =>
      match addService s d config a with
      | .error e => .error e
      | .ok a => .ok (withNames d config a)

end ServiceModel.OpenApi
