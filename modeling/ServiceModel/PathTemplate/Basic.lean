import ServiceModel.NameSet
import ServiceModel.Text.Split

/-!
Path templates: the paths of HTTP bindings, such as `/v1/{parent=projects/*}/secrets:batchGet`.  A
template is a list of segments: literals, variables bound to a request field, and a verb at the end.
-/

namespace ServiceModel

inductive VariableSegment where
  | literal (text : String)
  /-- `*`, any one segment. -/
  | single
  /-- `**`, any number of segments. -/
  | multi
  deriving DecidableEq, Repr, Inhabited

/-- A variable: the path of a request field, and the pattern its value matches. -/
structure PathVariable where
  fieldPath : List String
  segments : List VariableSegment
  deriving DecidableEq, Repr, Inhabited

inductive PathSegment where
  | literal (text : String)
  | variable (var : PathVariable)
  /-- The part after the colon at the end. -/
  | verb (text : String)
  deriving DecidableEq, Repr, Inhabited

structure PathTemplate where
  segments : List PathSegment
  deriving DecidableEq, Repr, Inhabited

namespace VariableSegment

/-- A segment of a pattern as it is written. -/
def text : VariableSegment → String
  | .literal l => l
  | .single => "*"
  | .multi => "**"

end VariableSegment

namespace PathVariable

/-- The path of the field, with dots. -/
def dottedPath (v : PathVariable) : String := Text.join "." v.fieldPath

/-- The pattern, with slashes. -/
def patternText (v : PathVariable) : String := Text.join "/" (v.segments.map VariableSegment.text)

/-- A variable as it is written; a pattern of one `*` goes without saying. -/
def text (v : PathVariable) : String :=
  if v.segments = [.single] then "\x7b" ++ v.dottedPath ++ "\x7d"
  else "\x7b" ++ v.dottedPath ++ "=" ++ v.patternText ++ "\x7d"

end PathVariable

/-- A segment as it is written, with the mark in front of it. -/
def PathSegment.text : PathSegment → String
  | .literal l => "/" ++ l
  | .variable v => "/" ++ v.text
  | .verb v => ":" ++ v

def PathSegment.boundVariable? : PathSegment → Option PathVariable
  | .variable v => some v
  | _ => none

def PathSegment.verb? : PathSegment → Option String
  | .verb v => some v
  | _ => none

namespace PathTemplate

/-- A template as it is written. -/
def text (t : PathTemplate) : String := Text.join "" (t.segments.map PathSegment.text)

def pathVariables (t : PathTemplate) : List PathVariable :=
  t.segments.filterMap PathSegment.boundVariable?

def verb? (t : PathTemplate) : Option String := t.segments.findSome? PathSegment.verb?

/-- The field paths that the variables bind, with dots, in order. -/
def fieldPaths (t : PathTemplate) : List String := t.pathVariables.map PathVariable.dottedPath

/-- The fields of a request that become query parameters: none when the body takes the whole
request, else all but the body field and the fields that variables bind. -/
def queryParameters (fields : List String) (t : PathTemplate) (body : Option String) : NameSet :=
  if body = some "*" then .empty
  else .ofList (fields.filter fun f => body != some f && !t.fieldPaths.contains f)

end PathTemplate

inductive PathTemplateError where
  | missingLeadingSlash (template : String)
  /-- The text is no template from the byte at `offset` on. -/
  | malformed (template : String) (offset : Nat) (reason : String)
  /-- A variable has `**` in front of other segments. -/
  | misplacedMultiWildcard (template var : String)
  deriving DecidableEq, Repr, Inhabited

def PathTemplateError.message : PathTemplateError → String
  | .missingLeadingSlash t => "path template \x60" ++ t ++ "\x60 must start with \x60/\x60"
  | .malformed t offset reason =>
      "invalid path template \x60" ++ t ++ "\x60 at offset " ++ toString offset ++ ": " ++ reason
  | .misplacedMultiWildcard t v =>
      "path template \x60" ++ t ++ "\x60: \x60**\x60 must be the last segment of variable \x60" ++
        v ++ "\x60"

end ServiceModel
