import ServiceModel.Data.Yaml.Part
import ServiceModel.Data.Yaml.Token

/-!
The only document of a YAML text, composed from its tokens.  Anchors are numbered by the names known
before them, so that two may share a number, and then the later one counts for all aliases of both.
An empty text holds the empty scalar.
-/

namespace ServiceModel.Yaml

/-- What composing a document keeps track of. -/
structure Composing where
  tokens : List Token
  /-- What each tag handle stands for. -/
  handles : List (String × List UInt8)
  /-- The number of the last anchor under each name. -/
  numbers : List (String × Nat)
  /-- The anchored parts in the order in which they start, each under the number of its anchor; an
  incomplete one is empty. -/
  anchored : Array (Nat × Part)
  /-- The number of scalars, aliases, and starts and ends of collections. -/
  events : Nat

/-- A step of composing, which may fail. -/
abbrev Compose := StateT Composing Option

namespace Compose

def peek : Compose (Option Token) := do return (← get).tokens.head?

def skip : Compose Unit := modify fun s => { s with tokens := s.tokens.drop 1 }

def count (n : Nat) : Compose Unit := modify fun s => { s with events := s.events + n }

/-- The empty scalar, where nothing is written. -/
def nothing : Compose Part := do
  count 1
  return .nothing

/-- Puts an anchor on the part that comes next, and gives the place of the part among the anchored
ones. -/
def place (anchor : Option String) : Compose (Option Nat) := do
  match anchor with
  | none => return none
  | some name =>
      let s ← get
      let number := s.numbers.length
      set { s with
        numbers := Keyed.put name number s.numbers
        anchored := s.anchored.push (number, .nothing) }
      return some s.anchored.size

/-- Completes the part at a place among the anchored ones. -/
def settle (place : Option Nat) (p : Part) : Compose Part := do
  match place with
  | none => return p
  | some k =>
      modify fun s => { s with anchored := s.anchored.modify k fun (number, _) => (number, p) }
      return p

/-- An alias of the last anchor under a name. -/
def resolve (name : String) : Compose Part := do
  count 1
  let number ← (Keyed.get? name (← get).numbers : Option Nat)
  return .alias number

/-- The name of the anchor and the tag in front of a part, in either order. -/
def properties : Compose (Option String × Option TagForm) := do
  match ← peek with
  | some (.anchor name) =>
      skip
      match ← peek with
      | some (.tag form) =>
          skip
          return (some name, some form)
      | _ => return (some name, none)
  | some (.tag form) =>
      skip
      match ← peek with
      | some (.anchor name) =>
          skip
          return (some name, some form)
      | _ => return (none, some form)
  | _ => return (none, none)

/-- What a tag says. -/
def tagOf (form : Option TagForm) : Compose (Option Tag) := do
  match form with
  | none => return none
  | some ⟨none, whole⟩ => return some (.ofBytes whole)
  | some ⟨some handle, suffix⟩ =>
      let lead ← (Keyed.get? handle (← get).handles : Option (List UInt8))
      return some (.ofBytes (lead ++ suffix))

/-- A collection under its tag. -/
def wear (tag : Option Tag) (p : Part) : Part := if tag = some .named then .tagged p else p

def endsEntry (inMapping : Bool) : Option Token → Bool
  | some .blockEnd => true
  | some .blockEntry => !inMapping
  | some .key => inMapping
  | some .value => inMapping
  | _ => false

/-- Whether a token ends an entry of a block sequence without indentation. -/
def endsFlatEntry : Option Token → Bool
  | some .blockEntry => true
  | t => endsEntry true t

mutual

/-- A part.  `block` says whether it may be a block collection, and `flat` whether it may be a block
sequence without indentation. -/
def part : Nat → (block flat : Bool) → Compose Part
  | 0, _, _ => failure
  | steps + 1, block, flat => do
      match ← peek with
      | some (.alias name) =>
          skip
          resolve name
      | _ =>
          let (anchor, form) ← properties
          let tag ← tagOf form
          let k ← place anchor
          match ← peek with
          | some (.scalar text style) =>
              skip
              count 1
              settle k (.scalar ⟨text, style, tag⟩)
          | some .flowSequenceStart =>
              skip
              count 2
              let items ← flowItems steps true []
              settle k (wear tag (.sequence items))
          | some .flowMappingStart =>
              skip
              count 2
              let members ← flowMembers steps true []
              settle k (wear tag (.record members))
          | t =>
              if flat && t == some .blockEntry then do
                count 2
                let items ← flatItems steps []
                settle k (wear tag (.sequence items))
              else if block && t == some .blockSequenceStart then do
                skip
                count 2
                let items ← blockItems steps []
                settle k (wear tag (.sequence items))
              else if block && t == some .blockMappingStart then do
                skip
                count 2
                let members ← blockMembers steps []
                settle k (wear tag (.record members))
              else if anchor.isSome || tag.isSome then do
                count 1
                settle k (.scalar ⟨"", .plain, tag⟩)
              else failure

/-- The items of a block sequence, added in front of `done`. -/
def blockItems : Nat → List Part → Compose (List Part)
  | 0, _ => failure
  | steps + 1, done => do
      match ← peek with
      | some .blockEntry =>
          skip
          let item ← if endsEntry false (← peek) then nothing else part steps true false
          blockItems steps (item :: done)
      | some .blockEnd =>
          skip
          return done.reverse
      | _ => failure

/-- The items of a block sequence without indentation, added in front of `done`. -/
def flatItems : Nat → List Part → Compose (List Part)
  | 0, _ => failure
  | steps + 1, done => do
      match ← peek with
      | some .blockEntry =>
          skip
          let item ← if endsFlatEntry (← peek) then nothing else part steps true false
          flatItems steps (item :: done)
      | _ => return done.reverse

/-- The members of a block mapping, added in front of `done`. -/
def blockMembers : Nat → List (Part × Part) → Compose (List (Part × Part))
  | 0, _ => failure
  | steps + 1, done => do
      match ← peek with
      | some .key =>
          skip
          let k ← if endsEntry true (← peek) then nothing else part steps true true
          let v ← blockValue steps
          blockMembers steps ((k, v) :: done)
      | some .blockEnd =>
          skip
          return done.reverse
      | _ => failure

def blockValue : Nat → Compose Part
  | 0 => failure
  | steps + 1 => do
      match ← peek with
      | some .value =>
          skip
          if endsEntry true (← peek) then nothing else part steps true true
      | _ => nothing

/-- The items of a flow sequence, added in front of `done`. -/
def flowItems : Nat → (first : Bool) → List Part → Compose (List Part)
  | 0, _, _ => failure
  | steps + 1, first, done => do
      let t ← peek
      if t == some .flowSequenceEnd then do
        skip
        return done.reverse
      else do
        if !first then
          if t == some .flowEntry then skip else failure
        match ← peek with
        | some .flowSequenceEnd =>
            skip
            return done.reverse
        | some .key =>
            skip
            count 2
            let pair ← flowPair steps
            flowItems steps false (pair :: done)
        | _ =>
            let item ← part steps false false
            flowItems steps false (item :: done)

/-- A single member written as an item of a flow sequence. -/
def flowPair : Nat → Compose Part
  | 0 => failure
  | steps + 1 => do
      let ends := fun t => t == some .flowEntry || t == some .flowSequenceEnd
      let t ← peek
      let k ←
        if t == some .value || ends t then do
          skip
          nothing
        else part steps false false
      let v ←
        if (← peek) == some .value then do
          skip
          if ends (← peek) then nothing else part steps false false
        else nothing
      return .record [(k, v)]

/-- The members of a flow mapping, added in front of `done`. -/
def flowMembers :
    Nat → (first : Bool) → List (Part × Part) → Compose (List (Part × Part))
  | 0, _, _ => failure
  | steps + 1, first, done => do
      let ends := fun t => t == some .flowEntry || t == some .flowMappingEnd
      let t ← peek
      if t == some .flowMappingEnd then do
        skip
        return done.reverse
      else do
        if !first then
          if t == some .flowEntry then skip else failure
        match ← peek with
        | some .flowMappingEnd =>
            skip
            return done.reverse
        | some .key =>
            skip
            let t ← peek
            let k ← if t == some .value || ends t then nothing else part steps false false
            let v ←
              if (← peek) == some .value then do
                skip
                if ends (← peek) then nothing else part steps false false
              else nothing
            flowMembers steps false ((k, v) :: done)
        | _ =>
            let k ← part steps false false
            let v ← nothing
            flowMembers steps false ((k, v) :: done)

end

/-! ### Documents -/

/-- The shorthands for tags that need no directive. -/
def usualHandles : List (String × List UInt8) := [("!", bytesOf ['!']), ("!!", Tag.coreLead)]

/-- Reads the directives in front of a document: whether a version was given, and the handles. -/
def directives :
    Nat → Bool → List (String × List UInt8) → Compose (List (String × List UInt8))
  | 0, _, _ => failure
  | steps + 1, versioned, handles => do
      match ← peek with
      | some (.version major minor) =>
          skip
          if versioned || major != 1 || (minor != 1 && minor != 2) then failure
          directives steps true handles
      | some (.tagShorthand handle lead) =>
          skip
          if (Keyed.get? handle handles).isSome then failure
          directives steps versioned (handles ++ [(handle, lead)])
      | _ => return handles

/-- Whether a token can follow a document. -/
def endsDocument : Option Token → Bool
  | none => true
  | some .documentStart => true
  | some .documentEnd => true
  | some (.version ..) => true
  | some (.tagShorthand ..) => true
  | _ => false

/-- The whole of the only document of a text. -/
def document (steps : Nat) : Compose Part := do
  let explicit :=
    match ← peek with
    | some .documentStart => true
    | some (.version ..) => true
    | some (.tagShorthand ..) => true
    | _ => false
  let p ←
    if explicit then do
      let handles ← directives steps false []
      if (← peek) != some .documentStart then failure
      skip
      modify fun s => { s with handles := handles ++ usualHandles }
      if endsDocument (← peek) then nothing else part steps true false
    else if (← peek).isNone then nothing
    else part steps true false
  let rest := (← get).tokens
  if rest.all (· == .documentEnd) then return p else failure

end Compose

/-- What the numbers of anchors stand for: each for the last part under it.  Numbers come up in
order. -/
def latest (anchored : Array (Nat × Part)) : Array Part :=
  anchored.foldl (fun done (number, p) =>
    if number < done.size then done.modify number fun _ => p else done.push p) #[]

/-- The greatest number of aliases followed in reading a document, for each of its events. -/
def aliasesPerEvent : Nat := 100

/-- The node that a text writes, and the number of aliases that may be followed in reading it. -/
def parse? (text : String) : Option (Node × Nat) := do
  let tokens ← Token.ofText? text.toList
  let steps := 2 * tokens.length + 4
  let (p, s) ← (Compose.document steps).run ⟨tokens, Compose.usualHandles, [], #[], 0⟩
  some (p.toNode (latest s.anchored), aliasesPerEvent * s.events)

/-- What a reader makes of the node that a text writes. -/
def read? {α : Type} (read : Node → Read α) (text : String) : Option α :=
  (parse? text).bind fun (n, aliases) => n.read? aliases read

end ServiceModel.Yaml
