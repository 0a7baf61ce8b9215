import ServiceModel.Text.Split

/-!
A place in a YAML text: the characters still to come, with the line and column they start at, and
the classes of characters that the notation distinguishes.
-/

namespace ServiceModel.Yaml

/-- Whether a text may hold a character at all. -/
def isAllowed (c : Char) : Bool :=
  let n := c.toNat
  n == 0x09 || n == 0x0A || n == 0x0D || (0x20 ≤ n && n ≤ 0x7E) || n == 0x85 ||
    (0xA0 ≤ n && n ≤ 0xD7FF) || (0xE000 ≤ n && n ≤ 0xFFFD) || (0x10000 ≤ n && n ≤ 0x10FFFF)

def isBreak (c : Char) : Bool :=
  c = '\n' || c = '\r' || c.toNat == 0x85 || c.toNat == 0x2028 || c.toNat == 0x2029

def isBlank (c : Char) : Bool := c = ' ' || c = '\t'

/-- Whether a character may stand in the name of an anchor. -/
def isWord (c : Char) : Bool := c.isAlphanum || c = '_' || c = '-'

/-- The mark that may stand at the start of a line and means nothing. -/
def isByteOrderMark (c : Char) : Bool := c.toNat == 0xFEFF

/-- A place in a text. -/
structure Cursor where
  rest : List Char
  /-- The number of bytes before it. -/
  index : Nat
  line : Nat
  column : Nat
  deriving Inhabited

namespace Cursor

def start (cs : List Char) : Cursor := ⟨cs, 0, 0, 0⟩

def peek (c : Cursor) (k : Nat) : Option Char := c.rest[k]?

/-- Whether `d` stands `k` places ahead. -/
def sees (c : Cursor) (k : Nat) (d : Char) : Bool := c.peek k == some d

def blankAt (c : Cursor) (k : Nat) : Bool := (c.peek k).any isBlank

def breakAt (c : Cursor) (k : Nat) : Bool := (c.peek k).any isBreak

/-- Whether a line or the text ends `k` places ahead. -/
def lineEndAt (c : Cursor) (k : Nat) : Bool :=
  match c.peek k with
  | none => true
  | some d => isBreak d

/-- Whether a space, a tab, or the end of a line or of the text stands `k` places ahead. -/
def gapAt (c : Cursor) (k : Nat) : Bool := c.blankAt k || c.lineEndAt k

/-- The place after `k` characters of a line. -/
def skipMany (c : Cursor) (k : Nat) : Cursor :=
  ⟨c.rest.drop k, c.index + Text.byteLength (c.rest.take k), c.line, c.column + k⟩

def skip (c : Cursor) : Cursor := c.skipMany 1

/-- The place after the end of a line, and the line break that a scalar keeps of it. -/
def takeBreak (c : Cursor) : List Char × Cursor :=
  match c.rest with
  | '\r' :: '\n' :: cs => (['\n'], ⟨cs, c.index + 2, c.line + 1, 0⟩)
  | d :: cs =>
      if isBreak d then
        (if d.toNat == 0x2028 || d.toNat == 0x2029 then [d] else ['\n'],
          ⟨cs, c.index + d.utf8Size, c.line + 1, 0⟩)
      else ([], c)
  | [] => ([], c)

/-- The characters in front that satisfy `p`, and the place after them. -/
def takeWhile (p : Char → Bool) (c : Cursor) : List Char × Cursor :=
  let taken := c.rest.takeWhile p
  (taken, c.skipMany taken.length)

/-- The place after the characters in front that satisfy `p`. -/
def skipWhile (p : Char → Bool) (c : Cursor) : Cursor := (c.takeWhile p).2

/-- The place of the next line end, if a comment starts here. -/
def skipComment (c : Cursor) : Cursor :=
  if c.sees 0 '#' then c.skipWhile (fun d => !isBreak d) else c

/-- Whether a document marker made of `d` three times stands here. -/
def markerOf (c : Cursor) (d : Char) : Bool :=
  c.column == 0 && c.sees 0 d && c.sees 1 d && c.sees 2 d && c.gapAt 3

def atMarker (c : Cursor) : Bool := c.markerOf '-' || c.markerOf '.'

end Cursor

end ServiceModel.Yaml
