import ServiceModel.Data.Node

/-!
Reading JSON text into nodes.  The whole text has to be one value.  What is well formed but cannot
be read (a lone surrogate, a number beyond the greatest double, a collection below the deepest
level) becomes an illegible node, so that it matters only where somebody asks for it.
-/

namespace ServiceModel.JsonText

/-! ### Texts between quotes -/

/-- Part of a quoted text: a character, or a 16-bit unit written as an escape. -/
inductive Piece where
  | char (c : Char)
  | unit (code : Nat)
  deriving DecidableEq, Repr

def unit? (a b c d : Char) : Option Nat := Scalar.natural? 16 [a, b, c, d]

/-- The character that a one-letter escape stands for. -/
def escaped? (c : Char) : Option Char :=
  if c = '"' ∨ c = '\\' ∨ c = '/' then some c
  else if c = 'b' then some (Char.ofNat 8)
  else if c = 'f' then some (Char.ofNat 12)
  else if c = 'n' then some '\n'
  else if c = 'r' then some '\r'
  else if c = 't' then some '\t'
  else none

/-- The pieces up to the closing quote, added in front of `done`, and what follows the quote. -/
def scanPieces (done : List Piece) : List Char → Option (List Piece × List Char)
  | [] => none
  | '"' :: cs => some (done.reverse, cs)
  | '\\' :: 'u' :: a :: b :: c :: d :: cs =>
      match unit? a b c d with
      | some code => scanPieces (.unit code :: done) cs
      | none => none
  | '\\' :: c :: cs =>
      match escaped? c with
      | some e => scanPieces (.char e :: done) cs
      | none => none
  | c :: cs => if c.toNat < 32 ∨ c = '\\' then none else scanPieces (.char c :: done) cs

/-- Whether a unit is the first half of a pair. -/
def isHighHalf (u : Nat) : Bool := 0xD800 ≤ u && u < 0xDC00

/-- Whether a unit is the second half of a pair. -/
def isLowHalf (u : Nat) : Bool := 0xDC00 ≤ u && u < 0xE000

/-- The characters of some pieces; `none` if half of a pair stands alone. -/
def joinPieces : List Piece → Option (List Char)
  | [] => some []
  | .char c :: ps => (joinPieces ps).map (c :: ·)
  | .unit h :: .unit l :: ps =>
      if isHighHalf h then
        if isLowHalf l then
          (joinPieces ps).map (Char.ofNat (0x10000 + (h - 0xD800) * 0x400 + (l - 0xDC00)) :: ·)
        else none
      else if isLowHalf h then none
      else (joinPieces (.unit l :: ps)).map (Char.ofNat h :: ·)
  | .unit u :: ps =>
      if isHighHalf u || isLowHalf u then none else (joinPieces ps).map (Char.ofNat u :: ·)

/-- A quoted text after its opening quote, as a node. -/
def quoted? (cs : List Char) : Option (Node × List Char) :=
  (scanPieces [] cs).map fun (ps, rest) =>
    match joinPieces ps with
    | some cs => (.string (String.ofList cs), rest)
    | none => (.illegible, rest)

/-! ### Numbers -/

/-- The digits in front of a text; there has to be one. -/
def digits? (cs : List Char) : Option (List Nat × List Char) :=
  match Scalar.leadingDigits cs with
  | ([], _) => none
  | (ds, rest) => some (ds, rest)

/-- The digits before the point: a zero alone, or digits that start with none. -/
def whole? (cs : List Char) : Option (List Nat × List Char) :=
  match digits? cs with
  | some ([0], rest) => some ([0], rest)
  | some (0 :: _, _) => none
  | found => found

/-- The point and its digits, if there is a point. -/
def fraction? : List Char → Option (Option (List Nat) × List Char)
  | '.' :: cs => (digits? cs).map fun (ds, rest) => (some ds, rest)
  | cs => some (none, cs)

/-- The exponent, if there is one. -/
def exponent? (cs : List Char) : Option (Option (Bool × List Nat) × List Char) :=
  match cs with
  | [] => some (none, [])
  | c :: rest =>
      if c = 'e' ∨ c = 'E' then
        match rest with
        | '-' :: cs => (digits? cs).map fun (ds, rest) => (some (true, ds), rest)
        | '+' :: cs => (digits? cs).map fun (ds, rest) => (some (false, ds), rest)
        | cs => (digits? cs).map fun (ds, rest) => (some (false, ds), rest)
      else some (none, cs)

def unsigned? (negative : Bool) (cs : List Char) : Option (Node × List Char) := do
  let (whole, cs) ← whole? cs
  let (fraction, cs) ← fraction? cs
  let (exponent, cs) ← exponent? cs
  match Number.ofNumeral ⟨negative, whole, fraction, exponent⟩ with
  | some n => some (.number n, cs)
  | none => some (.illegible, cs)

def number? : List Char → Option (Node × List Char)
  | '-' :: cs => unsigned? true cs
  | cs => unsigned? false cs

/-! ### Values -/

/-- Whether a character may stand between the parts of a value. -/
def isSpace (c : Char) : Bool := c = ' ' || c = '\n' || c = '\t' || c = '\r'

def skipSpace (cs : List Char) : List Char := cs.dropWhile isSpace

mutual

/-- A value in front of a text, and what follows it.  The first argument bounds the steps; the
length of the text is enough. -/
def value? : Nat → List Char → Option (Node × List Char)
  | 0, _ => none
  | steps + 1, cs =>
      match skipSpace cs with
      | 'n' :: 'u' :: 'l' :: 'l' :: rest => some (.null, rest)
      | 't' :: 'r' :: 'u' :: 'e' :: rest => some (.bool true, rest)
      | 'f' :: 'a' :: 'l' :: 's' :: 'e' :: rest => some (.bool false, rest)
      | '"' :: rest => quoted? rest
      | '[' :: rest =>
          match skipSpace rest with
          | ']' :: rest => some (.array [], rest)
          | rest => items? steps [] rest
      | '\x7b' :: rest =>
          match skipSpace rest with
          | '\x7d' :: rest => some (.record [], rest)
          | rest => members? steps [] rest
      | rest => number? rest

/-- The items up to the closing bracket, added in front of `done`. -/
def items? : Nat → List Node → List Char → Option (Node × List Char)
  | 0, _, _ => none
  | steps + 1, done, cs =>
      match value? steps cs with
      | none => none
      | some (item, rest) =>
          match skipSpace rest with
          | ',' :: rest => items? steps (item :: done) rest
          | ']' :: rest => some (.array (item :: done).reverse, rest)
          | _ => none

/-- The members up to the closing brace, added in front of `done`. -/
def members? : Nat → List (Node × Node) → List Char → Option (Node × List Char)
  | 0, _, _ => none
  | steps + 1, done, cs =>
      match skipSpace cs with
      | '"' :: rest =>
          match quoted? rest with
          | none => none
          | some (key, rest) =>
              match skipSpace rest with
              | ':' :: rest =>
                  match value? steps rest with
                  | none => none
                  | some (value, rest) =>
                      match skipSpace rest with
                      | ',' :: rest => members? steps ((key, value) :: done) rest
                      | '\x7d' :: rest => some (.record ((key, value) :: done).reverse, rest)
                      | _ => none
              | _ => none
      | _ => none

end

/-- The deepest level of collections that can be read. -/
def deepest : Nat := 127

def parse? (text : String) : Option Node :=
  let cs := text.toList
  match value? (cs.length + 1) cs with
  | some (node, rest) => if skipSpace rest = [] then some (node.prune deepest) else none
  | none => none

/-- What a reader makes of the node that a text writes. -/
def read? {α : Type} (read : Node → Read α) (text : String) : Option α :=
  (parse? text).bind (Node.read? 0 read)

end ServiceModel.JsonText
