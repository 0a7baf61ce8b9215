import ServiceModel.Data.Number
import ServiceModel.Text.Split

/-!
Scalars as YAML spells them.  What a plain scalar stands for depends on who asks: where a text is
wanted it is the text as spelled, and only where nothing is said about the type does its spelling
decide between null, a truth value, a number and a text.
-/

namespace ServiceModel

/-- How a scalar is written. -/
inductive ScalarStyle where
  | plain
  | literal
  /-- Quoted or folded. -/
  | other
  deriving DecidableEq, Repr, Inhabited

/-- The tag of a scalar, as far as it bears on what the scalar stands for. -/
inductive Tag where
  | null
  | bool
  | int
  | float
  /-- A type of an application. -/
  | named
  /-- A type of an application whose name is no text. -/
  | garbled
  /-- Any other type, among them that of texts. -/
  | other
  deriving DecidableEq, Repr, Inhabited

/-- A scalar: its text, how it was written, and its tag if it has one. -/
structure Scalar where
  text : String
  style : ScalarStyle
  tag : Option Tag
  deriving DecidableEq, Repr, Inhabited

/-- What a scalar stands for by itself. -/
inductive Atom where
  | null
  | bool (value : Bool)
  | number (value : Number)
  | string (value : String)
  deriving DecidableEq, Repr

namespace Scalar

def isNull (s : String) : Bool := s == "null" || s == "Null" || s == "NULL" || s == "~"

def bool? (s : String) : Option Bool :=
  if s == "true" || s == "True" || s == "TRUE" then some true
  else if s == "false" || s == "False" || s == "FALSE" then some false
  else none

/-! ### Integers -/

/-- The value of a digit in any base up to sixteen. -/
def digitValue (c : Char) : Nat :=
  if '0' ≤ c ∧ c ≤ '9' then c.toNat - '0'.toNat
  else if 'a' ≤ c ∧ c ≤ 'f' then c.toNat - 'a'.toNat + 10
  else if 'A' ≤ c ∧ c ≤ 'F' then c.toNat - 'A'.toNat + 10
  else 16

/-- The number that some digits spell in a base; there has to be one. -/
def natural? (base : Nat) (cs : List Char) : Option Nat :=
  if cs ≠ [] ∧ cs.all (digitValue · < base) then
    some (cs.foldl (fun n c => base * n + digitValue c) 0)
  else none

/-- The spelling without one `+` or `-` in front. -/
def dropSign : List Char → List Char
  | '+' :: cs => cs
  | '-' :: cs => cs
  | cs => cs

/-- Whether a spelling is a zero followed by further digits, which no number starts with. -/
def hasLeadingZero (cs : List Char) : Bool :=
  match dropSign cs with
  | '0' :: d :: ds => (d :: ds).all Char.isDigit
  | _ => false

/-- A natural number in any of the four bases. -/
def magnitude? : List Char → Option Nat
  | '0' :: 'x' :: cs => natural? 16 cs
  | '0' :: 'o' :: cs => natural? 8 cs
  | '0' :: 'b' :: cs => natural? 2 cs
  | cs => natural? 10 cs

def integer? (cs : List Char) : Option Int :=
  if hasLeadingZero cs then none
  else
    match cs with
    | '-' :: cs => (magnitude? cs).map fun n => -(n : Int)
    | '+' :: cs => (magnitude? cs).map fun n => (n : Int)
    | cs => (magnitude? cs).map fun n => (n : Int)

/-! ### Doubles -/

def leadingDigits (cs : List Char) : List Nat × List Char :=
  ((cs.takeWhile Char.isDigit).map digitValue, cs.dropWhile Char.isDigit)

/-- The exponent at the end of a numeral: its sign and digits, or nothing. -/
def exponent? (cs : List Char) : Option (Option (Bool × List Nat)) :=
  match cs with
  | [] => some none
  | c :: cs =>
      if c = 'e' ∨ c = 'E' then
        let (down, cs) :=
          match cs with
          | '-' :: cs => (true, cs)
          | '+' :: cs => (false, cs)
          | cs => (false, cs)
        let (ds, rest) := leadingDigits cs
        if ds ≠ [] ∧ rest = [] then some (some (down, ds)) else none
      else none

/-- A decimal numeral without a sign: digits, a point and digits, an exponent.  Digits may be
missing on one side of the point. -/
def numeral? (negative : Bool) (cs : List Char) : Option Number.Numeral :=
  let (whole, rest) := leadingDigits cs
  let (fraction, rest) :=
    match rest with
    | '.' :: cs =>
        let (ds, rest) := leadingDigits cs
        (some ds, rest)
    | rest => (none, rest)
  if whole = [] ∧ fraction.getD [] = [] then none
  else (exponent? rest).map fun e => ⟨negative, whole, fraction, e⟩

def infinityBits : UInt64 := 0x7FF0000000000000

def negativeInfinityBits : UInt64 := 0xFFF0000000000000

def nanBits : UInt64 := 0x7FF8000000000000

def double? (cs : List Char) : Option Number :=
  let s := String.ofList cs
  if s == ".nan" || s == ".NaN" || s == ".NAN" then some (.real nanBits)
  else if s == "-.inf" || s == "-.Inf" || s == "-.INF" then some (.real negativeInfinityBits)
  else
    match cs with
    | '+' :: cs =>
        let s := String.ofList cs
        if s == ".inf" || s == ".Inf" || s == ".INF" then some (.real infinityBits)
        else (numeral? false cs).bind Number.ofNumeralExact
    | '-' :: cs => (numeral? true cs).bind Number.ofNumeralExact
    | cs =>
        if s == ".inf" || s == ".Inf" || s == ".INF" then some (.real infinityBits)
        else (numeral? false cs).bind Number.ofNumeralExact

/-! ### Types -/

/-- The number that an integer becomes where words of 64 bits are wanted; `none` for one that only
a longer word holds. -/
def word? (i : Int) : Option Number :=
  if -Int.pow 2 63 ≤ i ∧ i < Int.pow 2 64 then some (.int i) else none

def fitsLongWord (i : Int) : Bool := -Int.pow 2 127 ≤ i && i < Int.pow 2 128

/-- What an untagged plain spelling stands for; `none` for an integer that only a word of 128 bits
holds. -/
def plainAtom? (s : String) : Option Atom :=
  if s == "" || isNull s then some .null
  else
    match bool? s with
    | some b => some (.bool b)
    | none =>
        let asDouble : Atom :=
          if hasLeadingZero s.toList then .string s
          else ((double? s.toList).map Atom.number).getD (.string s)
        match integer? s.toList with
        | some i => if fitsLongWord i then (word? i).map .number else some asDouble
        | none => some asDouble

/-- What a scalar without a tag that counts stands for: a plain one is typed by its spelling. -/
def untaggedAtom? (s : Scalar) : Option Atom :=
  if s.style = .plain then plainAtom? s.text else some (.string s.text)

/-- What a scalar stands for where nothing is said about its type; `none` where its tag and its
text disagree, or the tag names a type of an application. -/
def atom? (s : Scalar) : Option Atom :=
  match s.tag with
  | none => s.untaggedAtom?
  | some .null => if isNull s.text then some .null else none
  | some .bool => (bool? s.text).map .bool
  | some .int => ((integer? s.text.toList).bind word?).map .number
  | some .float => (double? s.text.toList).map .number
  | some .named => none
  | some .garbled => s.untaggedAtom?
  | some .other => some (.string s.text)

/-- Whether a scalar is the empty one, which also stands for an empty collection. -/
def isEmpty (s : Scalar) : Bool := s.style = .plain && s.text == ""

/-- The truth value of a scalar where one is wanted. -/
def flag? (s : Scalar) : Option Bool :=
  match s.style, s.tag with
  | .plain, _ => bool? s.text
  | .literal, some .bool => bool? s.text
  | _, _ => none

/-- Where a value may be missing: `some true` for a scalar that says so, `none` where its tag and
its text disagree. -/
def absent? (s : Scalar) : Option Bool :=
  if s.style ≠ .plain then some false
  else
    match s.tag with
    | none => some (s.text == "" || isNull s.text)
    | some .null => if isNull s.text then some true else none
    | some _ => some false

end Scalar

end ServiceModel
