import ServiceModel.Build.File
import ServiceModel.Command.Basic
import ServiceModel.Command.Report
import ServiceModel.Folder
import ServiceModel.Model.Written

/-!
Running commands.  What a command does is a value: the lines it prints, a file that it may write,
and whether it fails; only then is it carried out, in a folder held in memory or in a real one.
-/

namespace ServiceModel

/-- What a command does. -/
structure Effect where
  lines : List String
  /-- The path and the text of the file to write, once the lines are printed. -/
  file : Option (String × String)
  /-- What is said about a failure, which comes before any file is written. -/
  failure : Option String
  deriving DecidableEq, Repr, Inhabited

namespace Effect

def print (lines : List String) : Effect := ⟨lines, none, none⟩

def fail (lines : List String) (message : String) : Effect := ⟨lines, none, some message⟩

/-- Some lines, each with its end. -/
def textOf (lines : List String) : String := String.join (lines.map (· ++ "\n"))

end Effect

/-- What a command does, in words of its own. -/
def Command.effect (read : Reading) : Command → Effect
  | .build format input configPath options out =>
      let first := Report.started format input
      match buildFile read format input configPath options with
      | .error e => .fail [first] e.message
      | .ok (a, r) => ⟨first :: Report.model a r, out.map fun path => (path, a.toJson.pretty), none⟩
  | .pathTemplate template =>
      match PathTemplate.parse template with
      | .error e => .fail [] e.message
      | .ok t => .print (Report.pathTemplate t)
  | .routingTemplate template field =>
      match RoutingRule.parse ⟨field, template⟩ with
      | .error e => .fail [] e.message
      | .ok r => .print (Report.routingRule r)

def versionLine : String := "apimodel 0.6.0"

/-- How a run of the program has ended. -/
structure Outcome where
  /-- 0 for success, 1 for a failure, 2 for arguments that fit no command. -/
  status : Nat
  printed : String
  folder : Folder

/-- Carries out what a command does, in a folder held in memory. -/
def Effect.carryOut (e : Effect) (f : Folder) : Outcome :=
  match e.failure, e.file with
  | some _, _ => ⟨1, textOf e.lines, f⟩
  | none, none => ⟨0, textOf e.lines, f⟩
  | none, some (path, text) =>
      match f.writeText? path text with
      | none => ⟨1, textOf e.lines, f⟩
      | some f =>
          ⟨0, textOf e.lines ++ Folder.printed path text ++ textOf [Report.written path], f⟩

/-- Runs the program in a folder held in memory. -/
def Invocation.runIn (f : Folder) : Invocation → Outcome
  | .run c => (c.effect f.readText?).carryOut f
  | .version => ⟨0, Effect.textOf [versionLine], f⟩
  | .help h => ⟨0, Effect.textOf h.lines, f⟩
  | .misuse => ⟨2, "", f⟩

end ServiceModel
