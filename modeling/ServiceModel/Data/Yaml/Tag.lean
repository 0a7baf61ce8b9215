import ServiceModel.Data.Scalar
import ServiceModel.Data.Yaml.Cursor

/-!
Tags: how they are written, and what they say.  A tag is made of bytes, because its percent escapes
need not spell a text, and every part of a tag ends at its first zero byte.
-/

namespace ServiceModel

namespace Yaml

/-! ### Bytes -/

def bytesOf (cs : List Char) : List UInt8 := cs.map fun c => UInt8.ofNat c.toNat

def untilZero (bytes : List UInt8) : List UInt8 := bytes.takeWhile (· != 0)

/-- Whether some bytes are the UTF-8 form of a text. -/
def isText (bytes : List UInt8) : Bool := (String.fromUTF8? (ByteArray.mk bytes.toArray)).isSome

/-! ### How tags are written -/

/-- A tag as written: with a handle, which stands for the front of the tag, or in full. -/
structure TagForm where
  handle : Option String
  suffix : List UInt8
  deriving DecidableEq, Repr, Inhabited

/-- The tag that is an exclamation mark and no more. -/
def TagForm.mark : TagForm := ⟨none, bytesOf ['!']⟩

/-- Whether a character may stand in a tag; commas and brackets only where nothing can be taken for
a flow collection. -/
def isTagChar (verbatim : Bool) (c : Char) : Bool :=
  isWord c || ";/?:@&=+$.!~*'()%".toList.contains c || (verbatim && ",[]".toList.contains c)

/-- The number of bytes of the character whose first byte is given. -/
def characterWidth? (b : Nat) : Option Nat :=
  if b < 0x80 then some 1
  else if b / 0x20 = 6 then some 2
  else if b / 0x10 = 14 then some 3
  else if b / 0x08 = 30 then some 4
  else none

/-- The bytes of part of a tag, its percent escapes undone.  `further` is the number of escapes that
the character before still needs; of these, only their two highest bits matter. -/
def tagBytes? : (further : Nat) → List Char → Option (List UInt8)
  | 0, [] => some []
  | 0, '%' :: a :: b :: cs => do
      let n ← Scalar.natural? 16 [a, b]
      let width ← characterWidth? n
      let bytes ← tagBytes? (width - 1) cs
      some (UInt8.ofNat n :: bytes)
  | 0, c :: cs => if c = '%' then none else (tagBytes? 0 cs).map (UInt8.ofNat c.toNat :: ·)
  | further + 1, '%' :: a :: b :: cs => do
      let n ← Scalar.natural? 16 [a, b]
      if n / 0x40 != 2 then none
      let bytes ← tagBytes? further cs
      some (UInt8.ofNat n :: bytes)
  | _ + 1, _ => none

/-- Part of a tag, of which `lead` has been read already; there has to be something. -/
def tagPart? (verbatim : Bool) (lead : List Char) (c : Cursor) :
    Option (List UInt8 × Cursor) := do
  let (taken, c) := c.takeWhile (isTagChar verbatim)
  if lead = [] ∧ taken = [] then none
  let bytes ← tagBytes? 0 taken
  some (untilZero (bytesOf lead ++ bytes), c)

/-- The handle of a tag: an exclamation mark, and a word with a second one after it if there is
one. -/
def tagHandle? (directive : Bool) (c : Cursor) : Option (String × Cursor) :=
  if !c.sees 0 '!' then none
  else
    let (word, after) := c.skip.takeWhile isWord
    if after.sees 0 '!' then some ("!" ++ String.ofList word ++ "!", after.skip)
    else if directive && word ≠ [] then none
    else some ("!" ++ String.ofList word, after)

/-- A tag, from its exclamation mark.  What looks like a handle without its second mark belongs to
the suffix. -/
def tag? (inFlow : Bool) (c : Cursor) : Option (TagForm × Cursor) := do
  let (form, c) ←
    if c.sees 1 '<' then do
      let (suffix, c) ← tagPart? true [] (c.skipMany 2)
      if !c.sees 0 '>' then none
      some (TagForm.mk none suffix, c.skip)
    else do
      let (handle, after) ← tagHandle? false c
      if handle.length ≥ 2 && handle.endsWith "!" then
        let (suffix, c) ← tagPart? false [] after
        some (TagForm.mk (some handle) suffix, c)
      else
        let (whole, c) ← tagPart? false handle.toList after
        let suffix := whole.drop 1
        some (if suffix = [] then TagForm.mark else TagForm.mk (some "!") suffix, c)
  if c.gapAt 0 || (inFlow && c.sees 0 ',') then some (form, c) else none

end Yaml

/-! ### What tags say -/

namespace Tag

/-- What stands in front of the names of the types of the core schema. -/
def coreLead : List UInt8 := Yaml.bytesOf "tag:yaml.org,2002:".toList

def core (name : String) : List UInt8 := coreLead ++ Yaml.bytesOf name.toList

/-- What a tag says; the types of an application start with an exclamation mark. -/
def ofBytes (bytes : List UInt8) : Tag :=
  if bytes.head? = some 0x21 then if Yaml.isText bytes then .named else .garbled
  else if bytes = core "null" then .null
  else if bytes = core "bool" then .bool
  else if bytes = core "int" then .int
  else if bytes = core "float" then .float
  else .other

end Tag

end ServiceModel
