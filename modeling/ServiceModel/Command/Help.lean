import ServiceModel.Text.Split

/-!
What the program says about its commands when it is asked for help.  A list has two columns, unless
the second one would be broken: then what an entry means stands on a line of its own.
-/

namespace ServiceModel

/-- An entry of a list: what is written, and what it means. -/
structure HelpEntry where
  form : String
  meaning : String
  deriving DecidableEq, Repr, Inhabited

/-- What is said about a command, or about a group of them. -/
structure Help where
  about : String
  usage : String
  commands : List HelpEntry
  arguments : List HelpEntry
  options : List HelpEntry
  deriving DecidableEq, Repr, Inhabited

namespace Help

/-! ### Layout -/

def blanks (n : Nat) : String := String.ofList (List.replicate n ' ')

def lineWidth : Nat := 100

/-- The width of the first column of a list. -/
def columnWidth (entries : List HelpEntry) : Nat :=
  entries.foldl (fun width e => max width e.form.length) 0

/-- Whether some meaning does not fit beside a first column that takes much of the line. -/
def isWide (entries : List HelpEntry) : Bool :=
  let taken := columnWidth entries + 8
  2 * lineWidth < 5 * taken && entries.any fun e => lineWidth < taken + e.meaning.length

def listLines (entries : List HelpEntry) : List String :=
  if isWide entries then
    entries.flatMap fun e => ["  " ++ e.form, blanks 10 ++ e.meaning]
  else
    entries.map fun e =>
      "  " ++ e.form ++ blanks (columnWidth entries - e.form.length) ++ "  " ++ e.meaning

/-- The lines of a list under its title; none for an empty list. -/
def sectionLines (title : String) (entries : List HelpEntry) : List String :=
  if entries.isEmpty then [] else "" :: title :: listLines entries

def lines (h : Help) : List String :=
  [h.about, "", "Usage: apimodel " ++ h.usage] ++ sectionLines "Commands:" h.commands ++
    sectionLines "Arguments:" h.arguments ++ sectionLines "Options:" h.options

/-! ### Commands -/

def helpOption : HelpEntry := ⟨"-h, --help", "Print help"⟩

/-- The entry of the command that asks for help, in every group of commands. -/
def helpCommand : HelpEntry :=
  ⟨"help", "Print this message or the help of the given subcommand(s)"⟩

def build : Help where
  about := "Build the model, print a summary, optionally write it as JSON"
  usage := "build [OPTIONS] --format <FORMAT> --input <INPUT>"
  commands := []
  arguments := []
  options :=
    [⟨"    --format <FORMAT>", "Input format: `protobuf` (descriptor set JSON) or `openapi`"⟩,
      ⟨"-i, --input <INPUT>", "Descriptor set JSON or OpenAPI document"⟩,
      ⟨"    --service-config <SERVICE_CONFIG>",
        "Service configuration (YAML, or JSON by extension)"⟩,
      ⟨"    --target-prefix <TARGET_PREFIX>",
        "Descriptor files whose name starts with this prefix produce services"⟩,
      ⟨"    --target-file <TARGET_FILES>",
        "Descriptor files that produce services (repeatable)"⟩,
      ⟨"    --package-name <PACKAGE_NAME>",
        "Package for OpenAPI models (default: derived from the service config)"⟩,
      ⟨"-o, --out <OUT>", "Write the model as pretty JSON"⟩, helpOption]

def pathTemplate : Help where
  about := "An HTTP path template, e.g. `/v1/\x7bname=projects/*/secrets/*\x7d:access`"
  usage := "template path <TEMPLATE>"
  commands := []
  arguments := [⟨"<TEMPLATE>", ""⟩]
  options := [helpOption]

def routingTemplate : Help where
  about := "A routing parameter template, e.g. `\x7brouting_id=projects/*\x7d/**`"
  usage := "template routing [OPTIONS] <TEMPLATE>"
  commands := []
  arguments := [⟨"<TEMPLATE>", ""⟩]
  options :=
    [⟨"    --field <FIELD>", "Request field the template is applied to [default: name]"⟩,
      helpOption]

def template : Help where
  about := "Parse a template and print its structure"
  usage := "template <COMMAND>"
  commands := [⟨"path", pathTemplate.about⟩, ⟨"routing", routingTemplate.about⟩, helpCommand]
  arguments := []
  options := [helpOption]

def program : Help where
  about := "Build a validated API model from protobuf or OpenAPI sources"
  usage := "<COMMAND>"
  commands := [⟨"build", build.about⟩, ⟨"template", template.about⟩, helpCommand]
  arguments := []
  options := [helpOption, ⟨"-V, --version", "Print version"⟩]

/-- The command that asks for help, behind the names of its group. -/
def help (group : String) : Help where
  about := helpCommand.meaning
  usage := group ++ "help [COMMAND]..."
  commands := []
  arguments := [⟨"[COMMAND]...", "Print help for the subcommand(s)"⟩]
  options := []

/-- What can be asked about, by the names that lead to it. -/
def topics : List (List String × Help) :=
  [([], program), (["build"], build), (["template"], template), (["help"], help ""),
    (["template", "path"], pathTemplate), (["template", "routing"], routingTemplate),
    (["template", "help"], help "template ")]

def of? (names : List String) : Option Help := topics.lookup names

end Help

end ServiceModel
