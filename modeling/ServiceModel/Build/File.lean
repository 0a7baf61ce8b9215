import ServiceModel.Build.Basic

/-!
Building a model from files.  How files are read is left open: `Reading` gives the text of a file by
its path.
-/

namespace ServiceModel

/-- How files are read: the text of the file at a path, or nothing if it cannot be read. -/
abbrev Reading := String → Option String

/-- The text of a file, which is read during a step. -/
def Reading.text (read : Reading) (step : BuildStep) (path : String) : Except BuildError String :=
  match read path with
  | some text => .ok text
  | none => .error ⟨[step], .inaccessible⟩

/-- What stands behind the last dot of a file's name; nothing if only that dot is in front. -/
def extension? (path : String) : Option String :=
  match Text.splitLast? '.' (Text.lastPiece '/' path) with
  | none => none
  | some (stem, extension) => if stem = "" then none else some extension

/-- Reads a service configuration: JSON by its extension, YAML otherwise. -/
def loadServiceConfig (read : Reading) (path : String) : Except BuildError ServiceConfig :=
  match read.text (.readingConfig path) path with
  | .error e => .error e
  | .ok text =>
      let parsed :=
        if extension? path = some "json" then ServiceConfig.ofJsonText text
        else ServiceConfig.ofYamlText text
      match parsed with
      | .ok c => .ok c
      | .error e => .error ⟨[.parsingConfig path], .model e⟩

/-- The options with the configuration of a file, if there is one. -/
def BuildOptions.load (read : Reading) (configPath : Option String) (o : BuildOptions) :
    Except BuildError BuildOptions :=
  match configPath with
  | none => .ok o
  | some path =>
      match loadServiceConfig read path with
      | .error e => .error e
      | .ok c => .ok { o with config := some c }

/-- Builds the model of a specification in a file.  The configuration is read first, and takes the
place of that of the options. -/
def buildFile (read : Reading) (format : SpecificationFormat) (input : String)
    (configPath : Option String) (o : BuildOptions) : Except BuildError (Api × BuildReport) :=
  match o.load read configPath with
  | .error e => .error e
  | .ok o =>
      match read.text (.reading input) input with
      | .error e => .error e
      | .ok source => during (.building input) (build format source o)

end ServiceModel
