import ServiceModel.Data.Json
import ServiceModel.Data.Scalar
import ServiceModel.Keyed

/-!
Nodes: what the notation of a document alone says about a value.  A node is not typed yet; a reader
asks it for what is wanted (a text, a truth value, a list, the fields of a record) and fails where
the node cannot be that.  Parts nobody asks for may be anything, even illegible.  Readers follow
aliases as they meet them, and only so many, since a few aliases can stand for a very long text.
-/

namespace ServiceModel

/-- A value as the notation of a document gives it. -/
inductive Node where
  | null
  | bool (value : Bool)
  | number (value : Number)
  | string (value : String)
  /-- A scalar whose type depends on what is wanted. -/
  | scalar (value : Scalar)
  /-- A list, which may also give the fields of a record in their order. -/
  | array (items : List Node)
  /-- A list that is nothing but a list. -/
  | sequence (items : List Node)
  /-- Members under keys; a key may occur more than once. -/
  | record (members : List (Node × Node))
  /-- A collection under the tag of an application. -/
  | tagged (node : Node)
  /-- A node that is written elsewhere, of at most so many levels. -/
  | alias (levels : Nat) (node : Node)
  /-- Something well formed that no value can be read from. -/
  | illegible
  deriving Inhabited

/-- A step of reading, which may fail.  Its state is the number of aliases that may still be
followed. -/
abbrev Read := StateT Nat Option

namespace Read

/-- Counts an alias that is followed. -/
def follow : Read Unit
  | 0 => none
  | left + 1 => some ((), left)

/-- What has to be there. -/
def given {α : Type} : Option α → Read α
  | some a => pure a
  | none => failure

end Read

namespace Node

/-- What a reader makes of a node, following at most so many aliases. -/
def read? {α : Type} (aliases : Nat) (read : Node → Read α) (n : Node) : Option α :=
  (read n).run' aliases

/-! ### What a node can be read as -/

/-- The node that an alias stands for; any other node is itself. -/
def reach : Node → Read Node
  | .alias _ n => do
      Read.follow
      reach n
  | n => pure n

/-- The node under the tags around it. -/
def bare : Node → Node
  | .tagged n => bare n
  | n => n

def text? (n : Node) : Read String := do
  match ← n.reach with
  | .string s => return s
  | .scalar s => return s.text
  | _ => failure

def flag? (n : Node) : Read Bool := do
  match ← n.reach with
  | .bool b => return b
  | .scalar s => Read.given s.flag?
  | _ => failure

def int32? (n : Node) : Read Int32 := do
  match ← n.reach with
  | .number (.int i) => if -Int.pow 2 31 ≤ i ∧ i < Int.pow 2 31 then return Int32.ofInt i else failure
  | _ => failure

def index? (n : Node) : Read Nat := do
  match ← n.reach with
  | .number (.int i) => if 0 ≤ i then return i.toNat else failure
  | _ => failure

/-- The node as a value that may be missing. -/
def optional? {α : Type} (read : Node → Read α) (n : Node) : Read (Option α) := do
  match ← n.reach with
  | .null => return none
  | .scalar s =>
      if ← Read.given s.absent? then return none else return some (← read (.scalar s))
  | n => return some (← read n)

def items? (n : Node) : Read (List Node) := do
  match (← n.reach).bare with
  | .array items => return items
  | .sequence items => return items
  | .scalar s => if s.isEmpty then return [] else failure
  | _ => failure

def list? {α : Type} (read : Node → Read α) (n : Node) : Read (List α) := do
  (← n.items?).mapM read

def members? (n : Node) : Read (List (Node × Node)) := do
  match (← n.reach).bare with
  | .record members => return members
  | .scalar s => if s.isEmpty then return [] else failure
  | _ => failure

/-- The node as named values in the order of first mention. -/
def dictionary? {α : Type} (read : Node → Read α) (n : Node) : Read (List (String × α)) := do
  let pairs ← (← n.members?).mapM fun m => do
    let name ← m.1.text?
    let value ← read m.2
    return (name, value)
  return Keyed.ofPairs pairs

/-! ### Records -/

/-- The spellings of each field of a record, in the order of the fields. -/
abbrev Spellings := List (List String)

/-- For each field of a record, the node that gives it. -/
abbrev Fields := List (Option Node)

/-- The position of the field with a spelling. -/
def fieldIndex (name : String) : Spellings → Option Nat
  | [] => none
  | names :: rest => if names.contains name then some 0 else (fieldIndex name rest).map (· + 1)

/-- The position of the field that a key names, or `none` for a key of no field.  A number counts
the fields. -/
def keyIndex? (spellings : Spellings) (key : Node) : Read (Option Nat) := do
  match ← key.reach with
  | .string name => return fieldIndex name spellings
  | .scalar s => return fieldIndex s.text spellings
  | .number (.int i) =>
      if 0 ≤ i then return if i.toNat < spellings.length then some i.toNat else none
      else failure
  | _ => failure

/-- The fields with the one at a position given; `none` if it was given before. -/
def give (i : Nat) (n : Node) (fields : Fields) : Option Fields :=
  match fields[i]? with
  | some none => some (fields.set i (some n))
  | _ => none

/-- Takes in the members of a record. -/
def gatherFields (spellings : Spellings) : Fields → List (Node × Node) → Read Fields
  | fields, [] => return fields
  | fields, (key, value) :: members => do
      match ← keyIndex? spellings key with
      | none => gatherFields spellings fields members
      | some i =>
          let fields ← Read.given (give i value fields)
          gatherFields spellings fields members

/-- The fields of a record: each given at most once, under any of its spellings, or by position. -/
def fields? (spellings : Spellings) (n : Node) : Read Fields := do
  match (← n.reach).bare with
  | .array items =>
      if items.length ≤ spellings.length then
        return items.map some ++ List.replicate (spellings.length - items.length) none
      else failure
  | n => gatherFields spellings (spellings.map fun _ => none) (← n.members?)

/-- The fields of a record that are given all together when given by position. -/
def allFields? (spellings : Spellings) (n : Node) : Read Fields := do
  match (← n.reach).bare with
  | .array items =>
      if items.length = spellings.length then return items.map some else failure
  | n => n.fields? spellings

def Fields.node? (f : Fields) (i : Nat) : Option Node := f[i]?.join

/-- A field that has a default. -/
def Fields.orElse {α : Type} (f : Fields) (i : Nat) (read : Node → Read α) (default : α) :
    Read α :=
  match f.node? i with
  | none => pure default
  | some n => read n

/-- A field that may be missing. -/
def Fields.maybe {α : Type} (f : Fields) (i : Nat) (read : Node → Read α) : Read (Option α) :=
  match f.node? i with
  | none => pure none
  | some n => n.optional? read

/-- A field that has to be given. -/
def Fields.need {α : Type} (f : Fields) (i : Nat) (read : Node → Read α) : Read α :=
  match f.node? i with
  | none => failure
  | some n => read n

/-! ### Enumerations and variants -/

/-- The variant that a node names, with the node of what it carries: a name alone, or a record of
one member. -/
def variant? (n : Node) : Read (String × Option Node) := do
  match ← n.reach with
  | .string name => return (name, none)
  | .record [(.string name, payload)] => return (name, some payload)
  | _ => failure

def choice? {α : Type} (choices : List (String × α)) (n : Node) : Read α := do
  match ← n.variant? with
  | (name, none) => Read.given (Keyed.get? name choices)
  | (name, some .null) => Read.given (Keyed.get? name choices)
  | _ => failure

/-! ### Values of their own type -/

def ofAtom : Atom → Node
  | .null => .null
  | .bool b => .bool b
  | .number n => .number n
  | .string s => .string s

mutual

/-- The node with every alias followed and every scalar typed by its spelling; lists become open to
stand for records.  No part may be illegible or carry the tag of an application. -/
def settle? : Node → Read Node
  | .null => return .null
  | .bool b => return .bool b
  | .number n => return .number n
  | .string s => return .string s
  | .scalar s => do return ofAtom (← Read.given s.atom?)
  | .array items => do return .array (← settleItems? items)
  | .sequence items => do return .array (← settleItems? items)
  | .record members => do return .record (← settleMembers? members)
  | .tagged _ => failure
  | .alias _ n => do
      Read.follow
      settle? n
  | .illegible => failure

def settleItems? : List Node → Read (List Node)
  | [] => return []
  | n :: ns => do
      let n ← settle? n
      return n :: (← settleItems? ns)

def settleMembers? : List (Node × Node) → Read (List (Node × Node))
  | [] => return []
  | (k, v) :: ms => do
      let k ← settle? k
      let v ← settle? v
      return (k, v) :: (← settleMembers? ms)

end

/-- A number as JSON has it: a double that is no number, or infinite, is null. -/
def jsonNumber : Number → Json
  | .int i => .number (.int i)
  | .real bits =>
      if bits.toNat / Nat.pow 2 52 % Nat.pow 2 11 = 2047 then .null else .number (.real bits)

def jsonAtom : Atom → Json
  | .null => .null
  | .bool b => .bool b
  | .number n => jsonNumber n
  | .string s => .string s

mutual

/-- The node as a value of any type: keys are texts, of equal keys the last counts, and members are
in the order of their names. -/
def json? : Node → Read Json
  | .null => return .null
  | .bool b => return .bool b
  | .number n => return jsonNumber n
  | .string s => return .string s
  | .scalar s => do return jsonAtom (← Read.given s.atom?)
  | .array items => do return .array (← jsonItems? items)
  | .sequence items => do return .array (← jsonItems? items)
  | .record members => do return .object (Catalog.ofList (← jsonMembers? members)).entries
  | .tagged _ => failure
  | .alias _ n => do
      Read.follow
      json? n
  | .illegible => failure

def jsonItems? : List Node → Read (List Json)
  | [] => return []
  | n :: ns => do
      let j ← json? n
      return j :: (← jsonItems? ns)

def jsonMembers? : List (Node × Node) → Read (List (String × Json))
  | [] => return []
  | (k, v) :: ms => do
      let k ← text? k
      let j ← json? v
      return (k, j) :: (← jsonMembers? ms)

end

mutual

def ofJson : Json → Node
  | .null => .null
  | .bool b => .bool b
  | .number n => .number n
  | .string s => .string s
  | .array items => .array (ofJsonItems items)
  | .object members => .record (ofJsonMembers members)

def ofJsonItems : List Json → List Node
  | [] => []
  | j :: js => ofJson j :: ofJsonItems js

def ofJsonMembers : List (String × Json) → List (Node × Node)
  | [] => []
  | (k, j) :: ms => (.string k, ofJson j) :: ofJsonMembers ms

end

/-! ### Depth -/

mutual

/-- The node with every collection more than `levels` levels deep made illegible. -/
def prune : Nat → Node → Node
  | 0, .array _ => .illegible
  | 0, .sequence _ => .illegible
  | 0, .record _ => .illegible
  | levels + 1, .array items => .array (pruneItems levels items)
  | levels + 1, .sequence items => .sequence (pruneItems levels items)
  | levels + 1, .record members => .record (pruneMembers levels members)
  | levels, .tagged n => .tagged (prune levels n)
  | _, n => n

def pruneItems : Nat → List Node → List Node
  | _, [] => []
  | levels, n :: ns => prune levels n :: pruneItems levels ns

def pruneMembers : Nat → List (Node × Node) → List (Node × Node)
  | _, [] => []
  | levels, (k, v) :: ms => (prune levels k, prune levels v) :: pruneMembers levels ms

end

mutual

/-- The number of levels of a node; a node without parts has one. -/
def height : Node → Nat
  | .array items => heightItems items + 1
  | .sequence items => heightItems items + 1
  | .record members => heightMembers members + 1
  | .tagged n => height n
  | .alias levels _ => levels
  | _ => 1

def heightItems : List Node → Nat
  | [] => 0
  | n :: ns => max (height n) (heightItems ns)

def heightMembers : List (Node × Node) → Nat
  | [] => 0
  | (k, v) :: ms => max (max (height k) (height v)) (heightMembers ms)

end

end Node

end ServiceModel
