import ServiceModel.Data.Node

/-!
The parts of a YAML document as they are written, with aliases that only give the number of an
anchor.  Unfolding makes a node of a part.  An alias may stand for a part that contains it, so a
node ends at the deepest level that can be read.  The node of an anchor in a level is made once and
shared by all aliases of the level.
-/

namespace ServiceModel.Yaml

/-- A part of a document as it is written. -/
inductive Part where
  | scalar (value : Scalar)
  | sequence (items : List Part)
  | record (members : List (Part × Part))
  /-- A collection under the tag of an application. -/
  | tagged (part : Part)
  /-- A part that is written elsewhere, by the number of its anchor. -/
  | alias (number : Nat)
  deriving Inhabited

/-- The nodes that the aliases of a level stand for, by the numbers of their anchors. -/
abbrev Anchored := Array Node

namespace Part

def nothing : Part := .scalar ⟨"", .plain, none⟩

mutual

/-- The node of a part.  `here` is for the aliases of this level, and `deeper` for those of each
level below, the next one first; a collection below the last is illegible. -/
def unfold (here : Anchored) (deeper : List Anchored) : Part → Node
  | .scalar s => .scalar s
  | .sequence items =>
      match deeper with
      | [] => .illegible
      | here :: deeper => .sequence (unfoldItems here deeper items)
  | .record members =>
      match deeper with
      | [] => .illegible
      | here :: deeper => .record (unfoldMembers here deeper members)
  | .tagged p => .tagged (unfold here deeper p)
  | .alias number => .alias (deeper.length + 1) (here.getD number .illegible)

def unfoldItems (here : Anchored) (deeper : List Anchored) : List Part → List Node
  | [] => []
  | p :: ps => unfold here deeper p :: unfoldItems here deeper ps

def unfoldMembers (here : Anchored) (deeper : List Anchored) :
    List (Part × Part) → List (Node × Node)
  | [] => []
  | (k, v) :: ms => (unfold here deeper k, unfold here deeper v) :: unfoldMembers here deeper ms

end

/-- The nodes of the anchored parts in each of so many levels, the outermost first. -/
def levels (anchored : Array Part) : Nat → List Anchored
  | 0 => []
  | n + 1 =>
      let deeper := levels anchored n
      anchored.map (unfold #[] deeper) :: deeper

/-- The deepest level of collections that can be read. -/
def deepest : Nat := 128

/-- The node of a whole document, whose anchored parts are given by their numbers. -/
def toNode (anchored : Array Part) (p : Part) : Node := p.unfold #[] (levels anchored deepest)

end Part

end ServiceModel.Yaml
