import ServiceModel.PathTemplate.Basic
import ServiceModel.Text.Scan

/-!
Reading path templates.

    Template  = "/" Segments [ ":" Literal ]
    Segments  = Segment { "/" Segment }
    Segment   = Literal | Variable
    Variable  = "{" FieldPath [ "=" Pattern ] "}"
    Pattern   = PatternSegment { "/" PatternSegment }
    PatternSegment = "*" | "**" | Literal
    FieldPath = Identifier { "." Identifier }

A variable without a pattern matches one segment, and `**` may only end a pattern.
-/

namespace ServiceModel.PathTemplate

open Text (Reader run runAfter separated byteLength)

/-! ### The grammar -/

def isLiteralChar (c : Char) : Bool := c.isAlphanum || "-._~%!$&'()+,;=@".toList.contains c

/-- Whether an identifier may start with a character. -/
def isIdentifierStart (c : Char) : Bool := c.isAlpha || c = '_'

/-- Whether an identifier may go on with a character. -/
def isIdentifierChar (c : Char) : Bool := c.isAlphanum || c = '_'

def literal? : Reader String := fun cs =>
  (run isLiteralChar cs).map fun (taken, rest) => (String.ofList taken, rest)

def identifier? : Reader String := fun cs =>
  (runAfter isIdentifierStart isIdentifierChar cs).map fun (taken, rest) =>
    (String.ofList taken, rest)

def patternSegment? : Reader VariableSegment
  | '*' :: '*' :: rest => some (.multi, rest)
  | '*' :: rest => some (.single, rest)
  | cs => (literal? cs).map fun (l, rest) => (.literal l, rest)

/-- A pattern after its equals sign, if there is one; what is no pattern is left alone. -/
def pattern (cs : List Char) : List VariableSegment × List Char :=
  match cs with
  | '=' :: rest =>
      match separated '/' patternSegment? rest with
      | some found => found
      | none => ([.single], cs)
  | _ => ([.single], cs)

def bracedVariable? : Reader PathVariable
  | '\x7b' :: cs =>
      match separated '.' identifier? cs with
      | none => none
      | some (fieldPath, rest) =>
          match pattern rest with
          | (segments, '\x7d' :: rest) => some (⟨fieldPath, segments⟩, rest)
          | _ => none
  | _ => none

def segment? : Reader PathSegment := fun cs =>
  match bracedVariable? cs with
  | some (v, rest) => some (.variable v, rest)
  | none => (literal? cs).map fun (l, rest) => (.literal l, rest)

/-- The verb after a colon, if there is one; what is no verb is left alone. -/
def ending (cs : List Char) : List PathSegment × List Char :=
  match cs with
  | ':' :: rest =>
      match literal? rest with
      | some (v, rest) => ([.verb v], rest)
      | none => ([], cs)
  | _ => ([], cs)

/-- The longest template in front of the text after the first slash. -/
def segments? : Reader (List PathSegment) := fun cs =>
  match separated '/' segment? cs with
  | none => none
  | some (segments, rest) =>
      let (verb, rest) := ending rest
      some (segments ++ verb, rest)

/-! ### Errors -/

/-- Why a template cannot go on with `rest`. -/
def failureReason (rest : List Char) : String :=
  let (slash, after) :=
    match rest with
    | '/' :: cs => (true, cs)
    | cs => (false, cs)
  match after with
  | [] => if slash then "trailing \x60/\x60" else "unexpected end of template"
  | c :: _ =>
      if c = '/' then "empty segment"
      else if c = '\x7b' then
        if after.contains '\x7d' then "malformed variable" else "unbalanced \x60\x7b\x60"
      else if c = '\x7d' then "unbalanced \x60\x7d\x60"
      else if c = '*' then "wildcards are only allowed inside a variable"
      else "unexpected character \x60" ++ String.ofList [c] ++ "\x60"

/-- The error of a template that cannot go on with `rest`. -/
def malformedAt (template : String) (rest : List Char) : PathTemplateError :=
  .malformed template (byteLength template.toList - byteLength rest) (failureReason rest)

/-- Whether `**` stands in front of another segment of the pattern. -/
def hasMisplacedMulti : List VariableSegment → Bool
  | [] => false
  | [_] => false
  | s :: t :: rest => s == .multi || hasMisplacedMulti (t :: rest)

/-- The template that a text writes. -/
def parse (template : String) : Except PathTemplateError PathTemplate :=
  match template.toList with
  | '/' :: cs =>
      match segments? cs with
      | none => .error (malformedAt template cs)
      | some (segments, []) =>
          let t : PathTemplate := ⟨segments⟩
          match t.pathVariables.find? (hasMisplacedMulti ·.segments) with
          | some v => .error (.misplacedMultiWildcard template v.dottedPath)
          | none => .ok t
      | some (_, rest) => .error (malformedAt template rest)
  | _ => .error (.missingLeadingSlash template)

end ServiceModel.PathTemplate
