import ServiceModel.Text.Split

/-!
Routing headers.  A routing rule names a request field and may give a template that cuts the value
of a header out of it, such as `projects/*/{routing_id=locations/*}/**`.
-/

namespace ServiceModel

/-- A routing rule, as written in the annotation. -/
structure RoutingRule where
  field : String
  pathTemplate : String
  deriving DecidableEq, Repr, Inhabited

/-- Literals and wildcards with slashes between them. -/
structure RoutingPath where
  segments : List String
  deriving DecidableEq, Repr, Inhabited

/-- One way to find the value of a header. -/
structure RoutingVariant where
  /-- The path of the request field. -/
  fieldPath : List String
  /-- What stands before the value. -/
  before : RoutingPath
  /-- What the value matches. -/
  matching : RoutingPath
  /-- What stands after the value. -/
  behind : RoutingPath
  deriving DecidableEq, Repr, Inhabited

/-- A header with the ways to find its value, in the order they are tried. -/
structure RoutingHeader where
  name : String
  variants : List RoutingVariant
  deriving DecidableEq, Repr, Inhabited

namespace RoutingPath

/-- The wildcard for one segment. -/
def single : String := "*"

/-- The wildcard for any number of segments. -/
def multi : String := "**"

def empty : RoutingPath := ⟨[]⟩

def isEmpty (p : RoutingPath) : Bool := p.segments.isEmpty

/-- A path as it is written. -/
def text (p : RoutingPath) : String := Text.join "/" p.segments

def multiCount (p : RoutingPath) : Nat := p.segments.count multi

/-- Whether `**` stands nowhere but at the end. -/
def multiOnlyLast (p : RoutingPath) : Bool := p.segments.dropLast.all (· != multi)

end RoutingPath

/-- Why a routing rule cannot be used. -/
inductive RoutingError where
  | missingField (template : String)
  /-- The text is no template from the byte at `offset` on. -/
  | malformed (template : String) (offset : Nat) (reason : String)
  | missingVariableName (template : String)
  | multiWildcardBefore (template : String)
  | tooManyMultiWildcards (template : String)
  | misplacedMultiWildcard (template : String)
  /-- Several rules of one method. -/
  | several (errors : List RoutingError)
  deriving Repr, Inhabited

namespace RoutingError

/-- The words that introduce the errors of several rules. -/
def severalHeading (count : Nat) : String := toString count ++ " routing rules failed to parse:\n"

mutual

def message : RoutingError → String
  | .missingField t => "routing rule has a path template \x60" ++ t ++ "\x60 but no field"
  | .malformed t offset reason =>
      "invalid routing template \x60" ++ t ++ "\x60 at offset " ++ toString offset ++ ": " ++ reason
  | .missingVariableName t => "routing template \x60" ++ t ++ "\x60 has no variable name"
  | .multiWildcardBefore t =>
      "routing template \x60" ++ t ++ "\x60 uses \x60**\x60 before the variable"
  | .tooManyMultiWildcards t =>
      "routing template \x60" ++ t ++ "\x60 uses \x60**\x60 more than once"
  | .misplacedMultiWildcard t =>
      "routing template \x60" ++ t ++ "\x60 uses \x60**\x60 before the end of a segment list"
  | .several errors =>
      severalHeading errors.length ++ Text.join "\n" (lines errors)

def lines : List RoutingError → List String
  | [] => []
  | e :: es => ("  - " ++ message e) :: lines es

end

end RoutingError

end ServiceModel
