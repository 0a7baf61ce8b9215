import ServiceModel.Build.Basic
import ServiceModel.Command.Arguments
import ServiceModel.Command.Help

/-!
The commands of the program: one builds a model and reports on it, two others take a template
apart, and a fourth one gives help on the others.
-/

namespace ServiceModel

inductive Command where
  | build (format : SpecificationFormat) (input : String) (configPath : Option String)
      (options : BuildOptions) (out : Option String)
  | pathTemplate (template : String)
  | routingTemplate (template field : String)

/-- What the program is called for. -/
inductive Invocation where
  | run (c : Command)
  | version
  | help (h : Help)
  | misuse

namespace Command

def buildSignature : Signature where
  options :=
    [⟨"format", none, .oneOf (SpecificationFormat.names.map (·.1)), false⟩,
      ⟨"input", some 'i', .path, false⟩, ⟨"service-config", none, .path, false⟩,
      ⟨"target-prefix", none, .text, false⟩, ⟨"target-file", none, .text, true⟩,
      ⟨"package-name", none, .text, false⟩, ⟨"out", some 'o', .path, false⟩]
  operands := 0

def pathTemplateSignature : Signature := ⟨[], 1⟩

def routingTemplateSignature : Signature := ⟨[⟨"field", none, .text, false⟩], 1⟩

def readBuild (texts : List String) : Except ArgumentStop Command := do
  let arguments ← Argument.ofTexts buildSignature texts
  match (Argument.value? "format" arguments).map SpecificationFormat.ofText,
    Argument.value? "input" arguments with
  | some (.ok format), some input =>
      let targets := ⟨Argument.valuesOf "target-file" arguments,
        Argument.value? "target-prefix" arguments⟩
      .ok (.build format input (Argument.value? "service-config" arguments)
        ⟨targets, Argument.value? "package-name" arguments, none⟩ (Argument.value? "out" arguments))
  | _, _ => .error .misuse

def readPathTemplate (texts : List String) : Except ArgumentStop Command := do
  let arguments ← Argument.ofTexts pathTemplateSignature texts
  match Argument.operands arguments with
  | [template] => .ok (.pathTemplate template)
  | _ => .error .misuse

def readRoutingTemplate (texts : List String) : Except ArgumentStop Command := do
  let arguments ← Argument.ofTexts routingTemplateSignature texts
  match Argument.operands arguments with
  | [template] =>
      .ok (.routingTemplate template ((Argument.value? "field" arguments).getD "name"))
  | _ => .error .misuse

end Command

namespace Invocation

def helpOn (names : List String) : Invocation :=
  match Help.of? names with
  | some h => .help h
  | none => .misuse

/-- The invocation that the arguments of the command with some names make. -/
def ofResult (names : List String) : Except ArgumentStop Command → Invocation
  | .ok c => .run c
  | .error .help => helpOn names
  | .error .misuse => .misuse

def asksHelp (text : String) : Bool := text == "--help" || Text.hasLead "-h" text

def asksVersion (text : String) : Bool := text == "--version" || Text.hasLead "-V" text

/-- What the program is called for, by all its arguments. -/
def ofArguments : List String → Invocation
  | "build" :: rest => ofResult ["build"] (Command.readBuild rest)
  | "template" :: "path" :: rest =>
      ofResult ["template", "path"] (Command.readPathTemplate rest)
  | "template" :: "routing" :: rest =>
      ofResult ["template", "routing"] (Command.readRoutingTemplate rest)
  | "template" :: "help" :: names => helpOn ("template" :: names)
  | "template" :: first :: _ => if asksHelp first then helpOn ["template"] else .misuse
  | "help" :: names => helpOn names
  | first :: _ =>
      if asksHelp first then helpOn []
      else if asksVersion first then .version
      else .misuse
  | [] => .misuse

end Invocation

end ServiceModel
