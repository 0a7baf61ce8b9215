import ServiceModel.PathTemplate.Parser
import ServiceModel.Routing.Basic
import ServiceModel.Text.Blank

/-!
Reading routing rules.

    Template = [ Path "/" ] "{" Body "}" [ "/" Path ]
    Body     = Name [ "=" Path ]
    Path     = Segment { "/" Segment }
    Segment  = "*" | "**" | Literal

`{parent}` is short for `{parent=*}`.  A rule without a template routes the whole field, and a rule
with neither field nor template says that there is no header.
-/

namespace ServiceModel.Routing

open Text (Reader run separated byteLength cutFirst)
open PathTemplate (literal? identifier? failureReason)

/-! ### The grammar -/

def segment? : Reader String
  | '*' :: '*' :: rest => some (RoutingPath.multi, rest)
  | '*' :: rest => some (RoutingPath.single, rest)
  | cs => literal? cs

def path? : Reader RoutingPath := fun cs =>
  (separated '/' segment? cs).map fun (segments, rest) => (⟨segments⟩, rest)

/-- A path and the slash after it, if both are there; else nothing is read. -/
def pathBefore (cs : List Char) : RoutingPath × List Char :=
  match path? cs with
  | some (p, '/' :: rest) => (p, rest)
  | _ => (.empty, cs)

/-- A slash and the path after it, if both are there; else nothing is read. -/
def pathBehind (cs : List Char) : RoutingPath × List Char :=
  match cs with
  | '/' :: rest =>
      match path? rest with
      | some found => found
      | none => (.empty, cs)
  | _ => (.empty, cs)

/-- Whether a character may stand in the body of a variable. -/
def isBodyChar (c : Char) : Bool := c != '\x7b' && c != '\x7d'

/-- The body of a variable between its braces, or the text that is no such thing. -/
def body (cs : List Char) : Except (List Char) (List Char × List Char) :=
  match cs with
  | '\x7b' :: rest =>
      match run isBodyChar rest with
      | none => .error rest
      | some (inner, '\x7d' :: rest) => .ok (inner, rest)
      | some (_, rest) => .error rest
  | _ => .error cs

structure Outline where
  before : RoutingPath
  body : List Char
  behind : RoutingPath

/-- The parts of a template, or the text with which it cannot go on. -/
def outline (cs : List Char) : Except (List Char) Outline :=
  let (before, rest) := pathBefore cs
  match body rest with
  | .error rest => .error rest
  | .ok (inner, rest) =>
      match pathBehind rest with
      | (behind, []) => .ok ⟨before, inner, behind⟩
      | (_, rest) => .error rest

/-! ### Bodies -/

/-- The number of bytes before the first occurrence of `part`, or of the whole text if there is
none. -/
def offsetOf (part : List Char) : List Char → Nat
  | [] => 0
  | c :: cs => if (Text.after? part (c :: cs)).isSome then 0 else c.utf8Size + offsetOf part cs

/-- The error of a template that cannot go on with `rest`. -/
def malformedAt (template : String) (rest : List Char) : RoutingError :=
  .malformed template (byteLength template.toList - byteLength rest) (failureReason rest)

/-- The path that the pattern at the end of a body writes.  Offsets count from the start of the
template. -/
def bodyPath (template : String) (body pattern : List Char) : Except RoutingError RoutingPath :=
  let start := offsetOf body template.toList
  match path? pattern with
  | some (p, []) => .ok p
  | some (_, rest) =>
      let offset :=
        start + (byteLength body - byteLength pattern) + (byteLength pattern - byteLength rest)
      .error (.malformed template offset (failureReason rest))
  | none => .error (.malformed template start "empty variable pattern")

/-- The identifier that some characters are. -/
def name? (cs : List Char) : Option String :=
  match identifier? cs with
  | some (name, []) => some name
  | _ => none

/-- The name that a body without an equals sign stands for. -/
def shorthand? (p : RoutingPath) : Option String :=
  match p.segments with
  | [s] => if s != RoutingPath.single && s != RoutingPath.multi then name? s.toList else none
  | _ => none

/-- The header and the parts of its variant, as a template gives them. -/
structure Template where
  name : String
  before : RoutingPath
  matching : RoutingPath
  behind : RoutingPath

/-- The name in front of the equals sign of a body, if there is one, and the path. -/
def bodyParts (template : String) (body : List Char) :
    Except RoutingError (Option String × RoutingPath) :=
  match cutFirst '=' body with
  | some (name, pattern) =>
      match name? name with
      | none => .error (.missingVariableName template)
      | some name => (bodyPath template body pattern).map fun p => (some name, p)
  | none => (bodyPath template body body).map fun p => (none, p)

def parseTemplate (template : String) : Except RoutingError Template :=
  match outline template.toList with
  | .error rest => .error (malformedAt template rest)
  | .ok o =>
      match bodyParts template o.body with
      | .error e => .error e
      | .ok (name, matching) =>
          if 0 < o.before.multiCount then .error (.multiWildcardBefore template)
          else if 1 < matching.multiCount + o.behind.multiCount then
            .error (.tooManyMultiWildcards template)
          else if !matching.multiOnlyLast || !o.behind.multiOnlyLast then
            .error (.misplacedMultiWildcard template)
          else
            match name with
            | some name => .ok ⟨name, o.before, matching, o.behind⟩
            | none =>
                match shorthand? matching with
                | some name => .ok ⟨name, o.before, ⟨[RoutingPath.single]⟩, o.behind⟩
                | none => .error (.missingVariableName template)

end ServiceModel.Routing

namespace ServiceModel.RoutingRule

/-- The header and variant of a rule; `none` for the rule that says there is no header. -/
def parse (rule : RoutingRule) : Except RoutingError (Option (String × RoutingVariant)) :=
  let field := Text.trim rule.field
  let template := Text.trim rule.pathTemplate
  if field = "" then
    if template = "" then .ok none else .error (.missingField template)
  else
    let fieldPath := Text.split '.' field
    if template = "" then
      .ok (some (field, ⟨fieldPath, .empty, ⟨[RoutingPath.multi]⟩, .empty⟩))
    else
      match Routing.parseTemplate template with
      | .error e => .error e
      | .ok t => .ok (some (t.name, ⟨fieldPath, t.before, t.matching, t.behind⟩))

/-- Adds a variant to the header of its name, which comes last if it is new. -/
def addVariant (name : String) (v : RoutingVariant) : List RoutingHeader → List RoutingHeader
  | [] => [⟨name, [v]⟩]
  | h :: hs =>
      if h.name = name then { h with variants := h.variants ++ [v] } :: hs
      else h :: addVariant name v hs

/-- The headers and errors of some rules, after those found before. -/
def gather : List RoutingHeader → List RoutingError → List RoutingRule →
    List RoutingHeader × List RoutingError
  | headers, errors, [] => (headers, errors)
  | headers, errors, rule :: rules =>
      match rule.parse with
      | .ok (some (name, v)) => gather (addVariant name v headers) errors rules
      | .ok none => gather headers errors rules
      | .error e => gather headers (errors ++ [e]) rules

/-- The headers of a method's rules.  One error is reported as it is, several together. -/
def parseAll (rules : List RoutingRule) : Except RoutingError (List RoutingHeader) :=
  match gather [] [] rules with
  | (headers, []) => .ok headers
  | (_, [e]) => .error e
  | (_, errors) => .error (.several errors)

end ServiceModel.RoutingRule
