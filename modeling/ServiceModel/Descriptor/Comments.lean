import ServiceModel.Descriptor.Basic
import ServiceModel.Text.Blank

/-!
The comments of a file, by the place of the declaration they belong to.
-/

namespace ServiceModel.Descriptor

/-! ### Places -/

/-- The place of a declaration in its file: kinds and positions, from the outside in. -/
abbrev Place := List Int32

namespace Place

def fileMessage : Int32 := 4

def fileEnum : Int32 := 5

def fileService : Int32 := 6

def messageField : Int32 := 2

def messageNested : Int32 := 3

def messageEnum : Int32 := 4

def messageOneOf : Int32 := 8

def enumValue : Int32 := 2

def serviceMethod : Int32 := 2

/-- The place of the declaration at a position among those of its kind. -/
def child (p : Place) (kind : Int32) (index : Nat) : Place := p ++ [kind, Int32.ofNat index]

end Place

/-! ### Comments -/

/-- A line of a comment without the space that follows its mark, and without blanks at its end. -/
def commentLine (cs : List Char) : List Char :=
  match cs with
  | ' ' :: cs => Text.trimEnd cs
  | cs => Text.trimEnd cs

/-- The lines of a text; the empty piece after a final line break is none. -/
def commentLines (text : List Char) : List (List Char) :=
  let lines := Text.pieces '\n' text
  if lines.getLast? = some [] then lines.dropLast else lines

/-- A comment without its frame: each line is stripped, and blank lines around it go. -/
def normalizeComment (text : String) : String :=
  let body := (Text.join "\n" ((commentLines text.toList).map fun l =>
    String.ofList (commentLine l))).toList
  String.ofList (Text.dropEndWhile (· = '\n') (body.dropWhile (· = '\n')))

/-- The comment at a location: the leading one, or else the trailing one; an empty one is none. -/
def Location.comment? (l : Location) : Option String :=
  ((l.leadingComments.toList ++ l.trailingComments.toList).map normalizeComment).find? (· != "")

/-- The comment of the last location at a place that has one; empty if there is none. -/
def commentAt (place : Place) (locations : List Location) : String :=
  match locations.reverse.findSome? fun l => if l.path = place then l.comment? else none with
  | some text => text
  | none => ""

/-- The comment of the declaration at a place of a file. -/
def FileDescriptor.comment (f : FileDescriptor) (place : Place) : String :=
  commentAt place (f.locations.getD [])

end ServiceModel.Descriptor
