import ServiceModel.Command.Run

/-!
The program on real files.  All files that a command may read are read before its effect is worked
out; whatever is said about failures goes to the error stream.
-/

namespace ServiceModel

/-- The text of a file; nothing if it cannot be read or is not UTF-8. -/
def readFile? (path : String) : IO (Option String) := do
  try
    return String.fromUTF8? (← IO.FS.readBinFile path)
  catch _ => return none

/-- The paths of the files that a command may read. -/
def Command.inputs : Command → List String
  | .build _ input configPath _ _ => input :: configPath.toList
  | _ => []

/-- Carries out what a command does. -/
def Effect.perform (e : Effect) : IO UInt32 := do
  IO.print (textOf e.lines)
  match e.failure, e.file with
  | some message, _ => do
      IO.eprintln ("Error: " ++ message)
      return 1
  | none, none => return 0
  | none, some (path, text) =>
      try
        IO.FS.writeFile path text
        IO.print (textOf [Report.written path])
        return 0
      catch _ => do
        IO.eprintln ("Error: " ++ (BuildStep.writing path).message)
        return 1

def Invocation.perform : Invocation → IO UInt32
  | .run c => do
      let texts ← c.inputs.mapM fun path => do return (path, ← readFile? path)
      (c.effect fun path => (texts.lookup path).join).perform
  | .version => do
      IO.print (Effect.textOf [versionLine])
      return 0
  | .help h => do
      IO.print (Effect.textOf h.lines)
      return 0
  | .misuse => do
      IO.eprint (Effect.textOf Help.program.lines)
      return 2

end ServiceModel

def main (args : List String) : IO UInt32 :=
  (ServiceModel.Invocation.ofArguments args).perform
