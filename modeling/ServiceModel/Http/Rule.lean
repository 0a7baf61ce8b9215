import ServiceModel.Data.Node
import ServiceModel.Text.Uppercase

/-!
HTTP rules: how a method is called over HTTP.  The same rules stand in the annotations of methods
and in service configurations, and in both the members may be spelled in lower camel case or with
underscores.
-/

namespace ServiceModel

structure CustomPattern where
  kind : String
  path : String
  deriving DecidableEq, Repr, Inhabited

structure HttpRule where
  selector : String := ""
  get : Option String := none
  put : Option String := none
  post : Option String := none
  delete : Option String := none
  patch : Option String := none
  custom : Option CustomPattern := none
  /-- The field that goes into the body, `*` for the whole request, or nothing. -/
  body : String := ""
  responseBody : String := ""
  /-- Further ways to call the method. -/
  additionalBindings : List HttpRule := []
  deriving Inhabited

namespace HttpRule

/-- The paths of the plain verbs, in the order in which they count. -/
def plainPatterns (r : HttpRule) : List (String × Option String) :=
  [("GET", r.get), ("PUT", r.put), ("POST", r.post), ("DELETE", r.delete), ("PATCH", r.patch)]

/-- The verb and path of a rule: of the patterns that are set, the first counts. -/
def pattern? (r : HttpRule) : Option (String × String) :=
  match r.plainPatterns.findSome? fun (verb, path) => path.map fun p => (verb, p) with
  | some found => some found
  | none => r.custom.map fun c => (Text.asciiUpper c.kind, c.path)

/-- The field that goes into the body, or `*`; nothing for no body. -/
def bodyField? (r : HttpRule) : Option String := if r.body = "" then none else some r.body

/-! ### Reading -/

def readCustom? (n : Node) : Read CustomPattern := do
  let f ← n.fields? [["kind"], ["path"]]
  return ⟨← f.orElse 0 Node.text? "", ← f.orElse 1 Node.text? ""⟩

def spellings : Node.Spellings :=
  [["selector"], ["get"], ["put"], ["post"], ["delete"], ["patch"], ["custom"], ["body"],
    ["responseBody", "response_body"], ["additionalBindings", "additional_bindings"]]

/-- Reads a rule of at most so many levels. -/
def readWithin? : Nat → Node → Read HttpRule
  | 0, _ => failure
  | levels + 1, n => do
      let f ← n.fields? spellings
      return {
        selector := ← f.orElse 0 Node.text? ""
        get := ← f.maybe 1 Node.text?
        put := ← f.maybe 2 Node.text?
        post := ← f.maybe 3 Node.text?
        delete := ← f.maybe 4 Node.text?
        patch := ← f.maybe 5 Node.text?
        custom := ← f.maybe 6 readCustom?
        body := ← f.orElse 7 Node.text? ""
        responseBody := ← f.orElse 8 Node.text? ""
        additionalBindings := ← f.orElse 9 (Node.list? (readWithin? levels)) [] }

def ofNode? (n : Node) : Read HttpRule := readWithin? n.height n

/-! ### Writing -/

def customJson (c : CustomPattern) : Json :=
  .object [("kind", .string c.kind), ("path", .string c.path)]

mutual

def toJson : HttpRule → Json
  | ⟨selector, get, put, post, delete, patch, custom, body, responseBody, additionalBindings⟩ =>
      .object [("selector", .string selector), ("get", .option .string get),
        ("put", .option .string put), ("post", .option .string post),
        ("delete", .option .string delete), ("patch", .option .string patch),
        ("custom", .option customJson custom), ("body", .string body),
        ("responseBody", .string responseBody),
        ("additionalBindings", .array (toJsonList additionalBindings))]

def toJsonList : List HttpRule → List Json
  | [] => []
  | r :: rs => toJson r :: toJsonList rs

end

end HttpRule

end ServiceModel
