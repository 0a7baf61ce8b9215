import ServiceModel.Keyed
import ServiceModel.Text.Split

/-!
A folder of files held in memory.  Paths lead through it as through a real one: a name can only be
looked up in a folder that exists, and neither a name nor a whole path may be too long.  Of all that
lies outside of the folder only some devices are known, and only absolute paths lead to them.
-/

namespace ServiceModel

/-- The files of a folder and of the folders in it, by their paths. -/
structure Folder where
  files : List (String × ByteArray)

/-- A device outside of the folder. -/
inductive Device where
  /-- Holds nothing and takes everything. -/
  | null
  /-- Takes what is printed. -/
  | output
  /-- Takes what is said about failures. -/
  | errors
  deriving DecidableEq, Repr, Inhabited

namespace Folder

/-! ### Paths -/

def pathOf (names : List String) : String := Text.join "/" names

/-- Whether some names lead to the folder itself or to one in it. -/
def isFolder (f : Folder) (names : List String) : Bool :=
  names.isEmpty || f.files.any fun e => Text.hasLead (pathOf names ++ "/") e.1

/-- The number of bytes that a name has at most. -/
def longestName : Nat := 255

/-- The number of bytes that a path has at most. -/
def longestPath : Nat := 4095

/-- Takes one step of a path from a folder.  `atRoot` says whether nothing lies above the top, so
that a step up from it stays in place. -/
def step? (f : Folder) (atRoot : Bool) (here : List String) (name : String) :
    Option (List String) :=
  if !f.isFolder here || longestName < name.utf8ByteSize then none
  else if name = "" || name = "." then some here
  else if name = ".." then if here.isEmpty && !atRoot then none else some here.dropLast
  else some (here ++ [name])

/-- The names that a path leads through from the top, without detours. -/
def walk? (f : Folder) (atRoot : Bool) (path : String) : Option (List String) :=
  if path = "" || longestPath < path.utf8ByteSize then none
  else (Text.split '/' path).foldlM (f.step? atRoot) []

/-- Whether a path starts at the root and not in the folder. -/
def isAbsolute (path : String) : Bool := Text.hasLead "/" path

/-- The names that a path leads through inside the folder. -/
def resolve? (f : Folder) (path : String) : Option (List String) :=
  if isAbsolute path then none else f.walk? false path

/-! ### Devices -/

/-- The devices by their paths from the root. -/
def devices : List (String × Device) :=
  [("dev/null", .null), ("dev/stdout", .output), ("dev/stderr", .errors)]

/-- The root with what is known to lie below it. -/
def root : Folder := ⟨devices.map fun e => (e.1, ByteArray.empty)⟩

def device? (path : String) : Option Device :=
  if isAbsolute path then (root.walk? true path).bind fun names => devices.lookup (pathOf names)
  else none

/-! ### Reading and writing -/

/-- The text of a file; `none` if there is no such file, or it is not UTF-8. -/
def readText? (f : Folder) (path : String) : Option String :=
  match device? path with
  | some .null => some ""
  | some _ => none
  | none =>
      match f.resolve? path with
      | none => none
      | some names =>
          match Keyed.get? (pathOf names) f.files with
          | none => none
          | some bytes => String.fromUTF8? bytes

/-- The folder in which a file has a text; `none` if no such file can be written.  A device takes
the text and leaves the folder as it is. -/
def writeText? (f : Folder) (path text : String) : Option Folder :=
  if (device? path).isSome then some f
  else
    match f.resolve? path with
    | none => none
    | some names =>
        if f.isFolder names then none
        else some ⟨Keyed.put (pathOf names) text.toUTF8 f.files⟩

/-- What is printed of a text that is written to a path. -/
def printed (path text : String) : String := if device? path = some .output then text else ""

/-- The folder with some files, together with the folders that their paths lead through. -/
def ofFiles (files : List (String × ByteArray)) : Folder :=
  ⟨Keyed.ofPairs (files.map fun e =>
    (pathOf ((Text.split '/' e.1).filter fun n => n != "" && n != "."), e.2))⟩

end Folder

end ServiceModel
