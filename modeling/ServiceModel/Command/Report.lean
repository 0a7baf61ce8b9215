import ServiceModel.Build.Basic
import ServiceModel.PathTemplate.Parser
import ServiceModel.Routing.Parser

/-!
What commands print: the report on a built model, and templates part by part.  A report is a list of
lines.
-/

namespace ServiceModel.Report

def arrow : String := "  → "

def started (format : SpecificationFormat) (input : String) : String :=
  "Building " ++ format.text ++ " " ++ input

def written (path : String) : String := arrow ++ path

/-! ### Models -/

/-- Words on a method that is more than a plain call. -/
def tags (m : Method) : List String :=
  [(m.isPageable, "pageable"), (m.isLongRunning, "lro"),
    (!m.autoPopulated.isEmpty, "auto-populated"), (m.sourceServiceId.isSome, "mixin"),
    (m.deprecated, "deprecated")].filterMap fun (holds, tag) => if holds then some tag else none

/-- How a method is called first of all. -/
def call (m : Method) : String :=
  match m.http.bindings with
  | [] => "(no http binding)"
  | b :: _ => b.verb ++ " " ++ b.pathTemplate.text

def method (m : Method) : String :=
  let all := tags m
  "    " ++ m.name ++ " " ++ call m ++ if all.isEmpty then "" else " " ++ Text.join "," all

def service (a : Api) (s : Service) : List String :=
  ("  service " ++ s.name ++ if s.defaultHost = "" then "" else " [" ++ s.defaultHost ++ "]") ::
    (a.methodList s).map method

def ingestion (c : Descriptor.IngestionCounts) : String :=
  arrow ++ toString c.files ++ " files (" ++ toString c.targetFiles ++ " targets), " ++
    toString c.droppedMethods ++ " methods dropped"

def composition (c : CompositionCounts) : String :=
  arrow ++ toString c.composedMethods ++ " mixin methods composed"

def enrichment (c : EnrichmentCounts) : String :=
  arrow ++ toString c.pageable ++ " pageable, " ++ toString c.autoPopulated ++
    " auto-populated, " ++ toString c.longRunning ++ " long-running"

def model (a : Api) (r : BuildReport) : List String :=
  ["ok " ++ a.name ++ " (" ++ a.packageName ++ ")"] ++
    (if a.title = "" then [] else ["  " ++ a.title]) ++ a.serviceList.flatMap (service a) ++
    [arrow ++ toString a.messages.length ++ " messages, " ++ toString a.enums.length ++ " enums"] ++
    (r.ingestion.map ingestion).toList ++ (r.composition.map composition).toList ++
    [enrichment r.enrichment]

/-! ### Templates -/

def segment : PathSegment → String
  | .literal l => "  literal " ++ l
  | .variable v =>
      "  variable " ++ v.dottedPath ++ " = " ++
        Text.join "/" (v.segments.map VariableSegment.text)
  | .verb v => "  verb " ++ v

def pathTemplate (t : PathTemplate) : List String :=
  ("ok " ++ t.text) :: t.segments.map segment

/-- The lines on a routing rule, which may be empty. -/
def routingRule : Option (String × RoutingVariant) → List String
  | none => ["ok no routing header"]
  | some (name, v) =>
      ["ok header " ++ name, "  field " ++ Text.join "." v.fieldPath, "  prefix " ++ v.before.text,
        "  matching " ++ v.matching.text, "  suffix " ++ v.behind.text]

end ServiceModel.Report
