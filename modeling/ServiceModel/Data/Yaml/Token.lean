import ServiceModel.Data.Yaml.Scalar
import ServiceModel.Data.Yaml.Tag

/-!
The tokens of a YAML text.  Indentation is turned into tokens that open and close block
collections.  A key that is only recognised by the colon after it is marked afterwards, in front of
the tokens it is made of.
-/

namespace ServiceModel.Yaml

inductive Token where
  | version (major minor : Nat)
  /-- A shorthand for tags: the handle and what it stands for. -/
  | tagShorthand (handle : String) (lead : List UInt8)
  | documentStart
  | documentEnd
  | blockSequenceStart
  | blockMappingStart
  | blockEnd
  | flowSequenceStart
  | flowSequenceEnd
  | flowMappingStart
  | flowMappingEnd
  | blockEntry
  | flowEntry
  | key
  | value
  | alias (name : String)
  | anchor (name : String)
  | tag (form : TagForm)
  | scalar (text : String) (style : ScalarStyle)
  deriving DecidableEq, Repr

/-- A place where a key may have started. -/
structure KeyStart where
  /-- Whether nothing else can stand there. -/
  required : Bool
  /-- The number of tokens before it. -/
  token : Nat
  index : Nat
  line : Nat
  column : Nat

/-- What has been read of a text: the place, the tokens, the indentation, and where keys may have
started, for each flow collection the place is in and for the block around them. -/
structure Reading where
  cursor : Cursor
  /-- The tokens so far, the last first. -/
  tokens : List Token
  count : Nat
  /-- The column of the innermost block collection; `-1` outside all of them. -/
  indent : Int
  outer : List Int
  keyAllowed : Bool
  keyStart : Option KeyStart
  /-- The key starts of the collections around the innermost flow collection. -/
  around : List (Option KeyStart)

namespace Reading

def start (cs : List Char) : Reading := ⟨Cursor.start cs, [], 0, -1, [], true, none, []⟩

/-- Whether the place is inside a flow collection. -/
def inFlow (r : Reading) : Bool := !r.around.isEmpty

def column (r : Reading) : Int := r.cursor.column

def push (t : Token) (r : Reading) : Reading :=
  { r with tokens := t :: r.tokens, count := r.count + 1 }

/-- Adds a token in front of all but the first `before`. -/
def pushAt (before : Nat) (t : Token) (r : Reading) : Reading :=
  { r with tokens := r.tokens.insertIdx (r.count - before) t, count := r.count + 1 }

/-- Moves the place over some characters of a line. -/
def skip (k : Nat) (r : Reading) : Reading := { r with cursor := r.cursor.skipMany k }

/-! ### Indentation -/

/-- Opens a block collection at a column, if it is deeper than the one around; its token stands in
front of all but the first `before` tokens. -/
def openBlock (column : Int) (before : Nat) (t : Token) (r : Reading) : Reading :=
  if !r.inFlow && r.indent < column then
    { r with outer := r.indent :: r.outer, indent := column }.pushAt before t
  else r

/-- The block collections deeper than a column, closed. -/
def closeFrom (column : Int) : List Int → Reading → Reading
  | [], r => r
  | i :: is, r =>
      if column < r.indent then
        closeFrom column is { r.push .blockEnd with indent := i, outer := is }
      else r

/-- Closes the block collections deeper than a column. -/
def closeBlocks (column : Int) (r : Reading) : Reading :=
  if r.inFlow then r else closeFrom column r.outer r

/-! ### Keys -/

/-- Forgets a key start that is no longer needed; one that is required cannot be given up. -/
def dropKey? (r : Reading) : Option Reading :=
  match r.keyStart with
  | some k => if k.required then none else some { r with keyStart := none }
  | none => some r

/-- Remembers that a key may start here. -/
def markKey? (r : Reading) : Option Reading :=
  if r.keyAllowed then
    let c := r.cursor
    let start : KeyStart := ⟨!r.inFlow && r.indent == r.column, r.count, c.index, c.line, c.column⟩
    (r.dropKey?).map fun r => { r with keyStart := some start }
  else some r

/-- The greatest number of bytes between the start of a key and its colon. -/
def longestKey : Nat := 1024

/-- A key start that may still count; a key stays on one line. -/
def freshKey? (c : Cursor) : Option KeyStart → Option (Option KeyStart)
  | none => some none
  | some k =>
      if k.line < c.line ∨ k.index + longestKey < c.index then
        if k.required then none else some none
      else some (some k)

/-- Forgets the key start if it has become stale.  Those of the collections around are looked at
when the place is back in them. -/
def dropStaleKey? (r : Reading) : Option Reading :=
  (freshKey? r.cursor r.keyStart).map fun keyStart => { r with keyStart }

/-- Enters a flow collection. -/
def enterFlow (r : Reading) : Reading :=
  { r with around := r.keyStart :: r.around, keyStart := none }

/-- Leaves a flow collection. -/
def leaveFlow (r : Reading) : Reading :=
  match r.around with
  | k :: ks => { r with keyStart := k, around := ks }
  | [] => r

/-! ### Space -/

/-- Moves to the next token, over blanks, comments and line ends. -/
def skipSpace : Nat → Reading → Reading
  | 0, r => r
  | steps + 1, r =>
      let c := r.cursor
      let c := if c.column == 0 && (c.peek 0).any isByteOrderMark then c.skip else c
      let tabs := r.inFlow || !r.keyAllowed
      let c := (c.skipWhile fun d => d = ' ' || (tabs && d = '\t')).skipComment
      if c.breakAt 0 then
        skipSpace steps
          { r with cursor := c.takeBreak.2, keyAllowed := r.keyAllowed || !r.inFlow }
      else { r with cursor := c }

/-! ### Directives -/

/-- The longest number in a version. -/
def longestVersion : Nat := 9

def versionNumber? (c : Cursor) : Option (Nat × Cursor) := do
  let (ds, c) := c.takeWhile Char.isDigit
  if longestVersion < ds.length then none
  let n ← Scalar.natural? 10 ds
  some (n, c)

/-- The end of the line after a directive. -/
def directiveEnd? (c : Cursor) : Option Cursor :=
  let c := (c.skipWhile isBlank).skipComment
  if c.lineEndAt 0 then some c.takeBreak.2 else none

/-- A directive after its percent sign. -/
def directive? (c : Cursor) : Option (Token × Cursor) := do
  let (name, c) := c.takeWhile isWord
  if !c.gapAt 0 then none
  if name = "YAML".toList then
    let (major, c) ← versionNumber? (c.skipWhile isBlank)
    if !c.sees 0 '.' then none
    let (minor, c) ← versionNumber? c.skip
    let c ← directiveEnd? c
    some (.version major minor, c)
  else if name = "TAG".toList then
    let (handle, c) ← tagHandle? true (c.skipWhile isBlank)
    if !c.blankAt 0 then none
    let (lead, c) ← tagPart? true [] (c.skipWhile isBlank)
    if !c.gapAt 0 then none
    let c ← directiveEnd? c
    some (.tagShorthand handle lead, c)
  else none

/-! ### Anchors -/

/-- The name of an anchor, after its mark. -/
def anchorName? (c : Cursor) : Option (String × Cursor) :=
  let (name, c) := c.takeWhile isWord
  if name ≠ [] && (c.gapAt 0 || (c.peek 0).any ("?:,]\x7d%@\x60".toList.contains ·)) then
    some (String.ofList name, c)
  else none

/-! ### Tokens -/

def finish? (r : Reading) : Option Reading := (r.closeBlocks (-1)).dropKey?

def marker? (t : Token) (r : Reading) : Option Reading := do
  let r ← (r.closeBlocks (-1)).dropKey?
  some ({ r with keyAllowed := false }.skip 3 |>.push t)

def directiveToken? (r : Reading) : Option Reading := do
  let r ← (r.closeBlocks (-1)).dropKey?
  let (t, c) ← directive? r.cursor.skip
  some ({ r with keyAllowed := false, cursor := c }.push t)

def flowStart? (t : Token) (r : Reading) : Option Reading := do
  let r ← r.markKey?
  some ({ r.enterFlow with keyAllowed := true }.skip 1 |>.push t)

def flowEnd? (t : Token) (r : Reading) : Option Reading := do
  let r ← r.dropKey?
  some ({ r.leaveFlow with keyAllowed := false }.skip 1 |>.push t)

def flowEntry? (r : Reading) : Option Reading := do
  let r ← r.dropKey?
  some ({ r with keyAllowed := true }.skip 1 |>.push .flowEntry)

def blockEntry? (r : Reading) : Option Reading := do
  if !r.inFlow && !r.keyAllowed then none
  let r ← (r.openBlock r.column r.count .blockSequenceStart).dropKey?
  some ({ r with keyAllowed := true }.skip 1 |>.push .blockEntry)

/-- The mark of a key that is written out. -/
def keyToken? (r : Reading) : Option Reading := do
  if !r.inFlow && !r.keyAllowed then none
  let r ← (r.openBlock r.column r.count .blockMappingStart).dropKey?
  some ({ r with keyAllowed := !r.inFlow }.skip 1 |>.push .key)

/-- The colon before a value. -/
def valueToken? (r : Reading) : Option Reading :=
  match r.keyStart with
  | some k =>
      let r := (r.pushAt k.token .key).openBlock k.column k.token .blockMappingStart
      some ({ r with keyStart := none, keyAllowed := false }.skip 1 |>.push .value)
  | none => do
      if !r.inFlow && !r.keyAllowed then none
      let r := r.openBlock r.column r.count .blockMappingStart
      some ({ r with keyAllowed := !r.inFlow }.skip 1 |>.push .value)

def anchorToken? (make : String → Token) (r : Reading) : Option Reading := do
  let r ← r.markKey?
  let (name, c) ← anchorName? r.cursor.skip
  some ({ r with keyAllowed := false, cursor := c }.push (make name))

def tagToken? (r : Reading) : Option Reading := do
  let r ← r.markKey?
  let (form, c) ← tag? r.inFlow r.cursor
  some ({ r with keyAllowed := false, cursor := c }.push (.tag form))

def blockToken? (literal : Bool) (steps : Nat) (r : Reading) : Option Reading := do
  let r ← r.dropKey?
  let (cs, c) ← block? literal r.indent steps r.cursor.skip
  let style := if literal then ScalarStyle.literal else .other
  some ({ r with keyAllowed := true, cursor := c }.push (.scalar (String.ofList cs) style))

def quotedToken? (single : Bool) (steps : Nat) (r : Reading) : Option Reading := do
  let r ← r.markKey?
  let (cs, c) ← quoted? single steps [] r.cursor.skip
  some ({ r with keyAllowed := false, cursor := c }.push (.scalar (String.ofList cs) .other))

def plainToken? (steps : Nat) (r : Reading) : Option Reading := do
  let r ← r.markKey?
  let (cs, c, broken) ← plain? r.inFlow (r.indent + 1) steps [] Gap.none r.cursor
  some ({ r with keyAllowed := broken, cursor := c }.push (.scalar (String.ofList cs) .plain))

/-- Whether a plain scalar may start here. -/
def startsPlain (r : Reading) (d : Char) : Bool :=
  let c := r.cursor
  !(c.gapAt 0 || "-?:,[]\x7b\x7d#&*!|>'\"%@\x60".toList.contains d) ||
    (d == '-' && !c.blankAt 1) ||
    (!r.inFlow && (d == '?' || d == ':') && !c.gapAt 1)

/-- Reads the token that starts with a character. -/
def token? (steps : Nat) (d : Char) (r : Reading) : Option Reading :=
  let c := r.cursor
  if c.column == 0 && d == '%' then r.directiveToken?
  else if c.markerOf '-' then r.marker? .documentStart
  else if c.markerOf '.' then r.marker? .documentEnd
  else if d = '[' then r.flowStart? .flowSequenceStart
  else if d = '\x7b' then r.flowStart? .flowMappingStart
  else if d = ']' then r.flowEnd? .flowSequenceEnd
  else if d = '\x7d' then r.flowEnd? .flowMappingEnd
  else if d = ',' then r.flowEntry?
  else if d == '-' && c.gapAt 1 then r.blockEntry?
  else if d == '?' && (r.inFlow || c.gapAt 1) then r.keyToken?
  else if d == ':' && (r.inFlow || c.gapAt 1) then r.valueToken?
  else if d = '*' then r.anchorToken? .alias
  else if d = '&' then r.anchorToken? .anchor
  else if d = '!' then r.tagToken?
  else if d == '|' && !r.inFlow then r.blockToken? true steps
  else if d == '>' && !r.inFlow then r.blockToken? false steps
  else if d = '\'' then r.quotedToken? true steps
  else if d = '"' then r.quotedToken? false steps
  else if r.startsPlain d then r.plainToken? steps
  else none

/-- Reads all tokens, with more steps than there are characters to come. -/
def all? : Nat → Reading → Option Reading
  | 0, _ => none
  | steps + 1, r => do
      let r ← (r.skipSpace (steps + 1)).dropStaleKey?
      let r := r.closeBlocks r.column
      match r.cursor.rest with
      | [] => r.finish?
      | d :: _ =>
          let r ← r.token? (steps + 1) d
          all? steps r

end Reading

/-- The tokens of a text; `none` if it has none. -/
def Token.ofText? (cs : List Char) : Option (List Token) :=
  if cs.all isAllowed then
    ((Reading.start cs).all? (cs.length + 1)).map fun r => r.tokens.reverse
  else none

end ServiceModel.Yaml
