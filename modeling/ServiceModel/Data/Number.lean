/-!
Numbers as documents write them.  An integer stays an integer while it fits a machine word, signed
or unsigned; every other number is a double, kept by its bit pattern.
-/

namespace ServiceModel

/-- A number of a document. -/
inductive Number where
  /-- An integer that fits 64 bits, signed or unsigned. -/
  | int (value : Int)
  /-- A double, by its bits. -/
  | real (bits : UInt64)
  deriving DecidableEq, Repr, Inhabited

namespace Number

/-! ### Writing -/

/-- The decimal digits of a natural number, padded in front to at least `width`. -/
def paddedDigits (width n : Nat) : List Char :=
  let ds := (Nat.toDigits 10 n)
  List.replicate (width - ds.length) '0' ++ ds

/-- Digits after the point without the zeros at their end, of which one stays. -/
def trimFraction (ds : List Char) : List Char :=
  match (ds.reverse.dropWhile (· = '0')).reverse with
  | [] => ['0']
  | ds => ds

/-- A double written out exactly: every digit of its value, with a point.  A pattern that is no
number has no such text. -/
def realText? (bits : UInt64) : Option String :=
  let n := bits.toNat
  let lead := if n / Nat.pow 2 63 = 1 then "-" else ""
  let biased := n / Nat.pow 2 52 % Nat.pow 2 11
  let stored := n % Nat.pow 2 52
  if biased = 2047 then none
  else
    -- the value is m · 2 ^ (e - 1075)
    let m := if biased = 0 then stored else stored + Nat.pow 2 52
    let e := if biased = 0 then 1 else biased
    if 1075 ≤ e then some (lead ++ toString (m * Nat.pow 2 (e - 1075)) ++ ".0")
    else
      let k := 1075 - e
      let scaled := m * Nat.pow 5 k
      let fraction := trimFraction (paddedDigits k (scaled % Nat.pow 10 k))
      some (lead ++ toString (scaled / Nat.pow 10 k) ++ "." ++ String.ofList fraction)

def text : Number → String
  | .int value => toString value
  | .real bits => (realText? bits).getD "null"

/-! ### Reading decimal numerals -/

def maxWord : Nat := Nat.pow 2 64 - 1

/-- A decimal numeral: digits before the point, digits after it, and a power of ten. -/
structure Numeral where
  negative : Bool
  whole : List Nat
  fraction : Option (List Nat)
  /-- The sign of the exponent (`true` for a negative one) and its digits. -/
  exponent : Option (Bool × List Nat)

/-- The number that some digits spell. -/
def ofDigits (ds : List Nat) : Nat := ds.foldl (fun n d => 10 * n + d) 0

/-- Takes digits in while the significand fits a word: the significand, how many digits were taken,
and how many were left. -/
def gather (significand : Nat) : List Nat → Nat × Nat × Nat
  | [] => (significand, 0, 0)
  | d :: ds =>
      if 10 * significand + d ≤ maxWord then
        let (s, taken, left) := gather (10 * significand + d) ds
        (s, taken + 1, left)
      else (significand, 0, ds.length + 1)

/-- `significand · 10 ^ exponent` as a double, rounded when the significand is converted and again
at each product or quotient by a power of ten; `none` beyond the greatest double. -/
def scale (significand : Nat) (exponent : Int) : Option Float :=
  go 4 significand.toUInt64.toFloat exponent
where
  go : Nat → Float → Int → Option Float
    | 0, f, _ => some f
    | steps + 1, f, e =>
        if e.natAbs ≤ 308 then
          let power := Float.ofScientific 1 false e.natAbs
          if 0 ≤ e then
            let p := f * power
            if p.isInf then none else some p
          else some (f / power)
        else if f == 0.0 then some f
        else if 0 ≤ e then none
        else go steps (f / Float.ofScientific 1 false 308) (e + 308)

def signed (negative : Bool) (f : Float) : Number := .real (if negative then -f else f).toBits

/-- The greatest exponent that is computed with. -/
def maxExponent : Nat := Nat.pow 2 31 - 1

/-- An exponent kept within a signed 32-bit word. -/
def clampExponent (e : Int) : Int := max (-Int.pow 2 31) (min e maxExponent)

/-- The value of a numeral; `none` beyond the greatest double. -/
def ofNumeral (n : Numeral) : Option Number :=
  let (whole, _, dropped) := gather 0 n.whole
  match n.fraction, n.exponent with
  | none, none =>
      if 0 < dropped then (scale whole dropped).map (signed n.negative)
      else if !n.negative then some (.int whole)
      else if 0 < whole ∧ whole ≤ Nat.pow 2 63 then some (.int (-whole))
      else some (signed true whole.toUInt64.toFloat)
  | fraction, exponent =>
      let (significand, taken, _) := gather whole (fraction.getD [])
      let start : Int := dropped - taken
      match exponent with
      | none => (scale significand start).map (signed n.negative)
      | some (down, ds) =>
          let e := ofDigits ds
          if maxExponent < e then
            if significand ≠ 0 ∧ !down then none else some (signed n.negative 0.0)
          else
            let e := clampExponent (if down then start - e else start + e)
            (scale significand e).map (signed n.negative)

/-- The value of a numeral rounded once; `none` beyond the greatest double. -/
def ofNumeralExact (n : Numeral) : Option Number :=
  let fraction := n.fraction.getD []
  let digits := n.whole ++ fraction
  let power : Int :=
    match n.exponent with
    | none => 0
    | some (down, ds) => if down then -(ofDigits ds : Int) else ofDigits ds
  let e := power - fraction.length
  let significand := ofDigits digits
  -- a first digit so far left or right of the point decides the value
  let magnitude : Int := e + (digits.dropWhile (· = 0)).length
  if significand = 0 ∨ magnitude < -400 then some (signed n.negative 0.0)
  else if 400 < magnitude then none
  else
    let f := Float.ofScientific significand (e < 0) e.natAbs
    if f.isInf then none else some (signed n.negative f)

end Number

end ServiceModel
