import ServiceModel.Data.Scalar
import ServiceModel.Data.Yaml.Cursor

/-!
Reading the scalars of a YAML text: plain ones, quoted ones, and blocks.  Each reader starts at the
first character of the scalar and gives its text and the place after it.  Lines of a scalar are
folded: one line break becomes a space, and of several the first is dropped.  A number of steps
greater than that of the characters to come is enough for every reader.
-/

namespace ServiceModel.Yaml

/-! ### Folding -/

/-- Space met inside a scalar and not yet written: blanks within a line, or line breaks. -/
structure Gap where
  /-- Blanks of the current line. -/
  blanks : List Char
  /-- The first line break, if a line ended. -/
  first : List Char
  /-- Further line breaks. -/
  further : List Char
  broken : Bool

namespace Gap

def none : Gap := ⟨[], [], [], false⟩

/-- A line that was ended by an escape, which leaves nothing. -/
def escaped : Gap := ⟨[], [], [], true⟩

/-- The text that the space becomes. -/
def fold (g : Gap) : List Char :=
  if g.broken then
    if g.first = ['\n'] then if g.further = [] then [' '] else g.further
    else g.first ++ g.further
  else g.blanks

/-- Reads blanks and line breaks.  Inside a plain scalar a tab in the indentation, to the left of
column `indent`, is refused. -/
def read (indent : Option Int) : Nat → Gap → Cursor → Option (Gap × Cursor)
  | 0, _, _ => Option.none
  | steps + 1, g, c =>
      match c.rest with
      | d :: _ =>
          if isBlank d then
            if g.broken && d == '\t' && indent.any (fun i => (c.column : Int) < i) then Option.none
            else if g.broken then read indent steps g c.skip
            else read indent steps { g with blanks := g.blanks ++ [d] } c.skip
          else if isBreak d then
            let (br, c) := c.takeBreak
            if g.broken then read indent steps { g with further := g.further ++ br } c
            else read indent steps ⟨[], br, [], true⟩ c
          else some (g, c)
      | [] => some (g, c)

end Gap

/-! ### Quoted scalars -/

/-- The character that a one-letter escape stands for. -/
def escaped? (c : Char) : Option Nat :=
  if c = '0' then some 0
  else if c = 'a' then some 7
  else if c = 'b' then some 8
  else if c = 't' ∨ c = '\t' then some 9
  else if c = 'n' then some 10
  else if c = 'v' then some 11
  else if c = 'f' then some 12
  else if c = 'r' then some 13
  else if c = 'e' then some 27
  else if c = ' ' ∨ c = '"' ∨ c = '/' ∨ c = '\\' then some c.toNat
  else if c = 'N' then some 0x85
  else if c = '_' then some 0xA0
  else if c = 'L' then some 0x2028
  else if c = 'P' then some 0x2029
  else none

/-- The number of digits after an escape that gives a code. -/
def escapeDigits? (c : Char) : Option Nat :=
  if c = 'x' then some 2 else if c = 'u' then some 4 else if c = 'U' then some 8 else none

/-- The character with a code; halves of surrogate pairs have none. -/
def charOfCode? (n : Nat) : Option Char :=
  if (0xD800 ≤ n ∧ n ≤ 0xDFFF) ∨ 0x10FFFF < n then none else some (Char.ofNat n)

/-- The escape that starts here, after its backslash. -/
def escape? (c : Cursor) : Option (Char × Cursor) := do
  let d ← c.peek 0
  match escaped? d with
  | some n => some (Char.ofNat n, c.skip)
  | none =>
      let width ← escapeDigits? d
      let digits := (c.rest.drop 1).take width
      if digits.length < width then none
      else
        let n ← Scalar.natural? 16 digits
        let e ← charOfCode? n
        some (e, c.skipMany (width + 1))

/-- A quoted scalar after its opening quote; `done` holds its characters so far, the last first. -/
def quoted? (single : Bool) : Nat → List Char → Cursor → Option (List Char × Cursor)
  | 0, _, _ => none
  | steps + 1, done, c =>
      if c.atMarker then none
      else
        match c.rest with
        | [] => none
        | d :: _ =>
            if isBlank d || isBreak d then
              match Gap.read none (steps + 1) Gap.none c with
              | some (g, c) => quoted? single steps (g.fold.reverse ++ done) c
              | none => none
            else if single then
              if d = '\'' then
                if c.sees 1 '\'' then quoted? single steps ('\'' :: done) (c.skipMany 2)
                else some (done.reverse, c.skip)
              else quoted? single steps (d :: done) c.skip
            else if d = '"' then some (done.reverse, c.skip)
            else if d = '\\' then
              if c.breakAt 1 then
                let (_, c) := c.skip.takeBreak
                match Gap.read none (steps + 1) Gap.escaped c with
                | some (g, c) => quoted? single steps (g.fold.reverse ++ done) c
                | none => none
              else
                match escape? c.skip with
                | some (e, c) => quoted? single steps (e :: done) c
                | none => none
            else quoted? single steps (d :: done) c.skip

/-! ### Plain scalars -/

/-- Whether a character separates the items of a flow collection. -/
def isFlowMark (c : Char) : Bool := c = ',' || c = '[' || c = ']' || c = '\x7b' || c = '\x7d'

/-- Whether a plain scalar ends before the character here. -/
def endsPlain (inFlow : Bool) (c : Cursor) : Bool :=
  (c.sees 0 ':' && c.gapAt 1) || (inFlow && (c.peek 0).any isFlowMark)

/-- Whether a colon inside a flow collection stands where it can mean nothing. -/
def strayColon (inFlow : Bool) (c : Cursor) : Bool :=
  inFlow && c.sees 0 ':' && (c.peek 1).any fun d => isFlowMark d || d == '?'

/-- The characters of a plain scalar up to the next gap or the end of the scalar. -/
def plainRun (inFlow : Bool) : Nat → List Char → Cursor → Option (List Char × Cursor)
  | 0, _, _ => none
  | steps + 1, done, c =>
      if c.gapAt 0 then some (done, c)
      else if strayColon inFlow c then none
      else if endsPlain inFlow c then some (done, c)
      else
        match c.rest with
        | d :: _ => plainRun inFlow steps (d :: done) c.skip
        | [] => some (done, c)

/-- A plain scalar whose continuation lines have to be indented to column `indent`.  The gap is the
space before the place, and the last component of the result says whether the scalar was left at
the end of a line. -/
def plain? (inFlow : Bool) (indent : Int) :
    Nat → List Char → Gap → Cursor → Option (List Char × Cursor × Bool)
  | 0, _, _, _ => none
  | steps + 1, done, g, c =>
      if c.atMarker || c.sees 0 '#' then some (done.reverse, c, g.broken)
      else
        let start := if endsPlain inFlow c || c.gapAt 0 then done else g.fold.reverse ++ done
        match plainRun inFlow (steps + 1) start c with
        | none => none
        | some (read, c') =>
            -- the space before is only written when a character follows it
            let g := if c'.index = c.index then g else Gap.none
            if c'.blankAt 0 || c'.breakAt 0 then
              match Gap.read (some indent) (steps + 1) g c' with
              | none => none
              | some (g, c) =>
                  if !inFlow && (c.column : Int) < indent then some (read.reverse, c, g.broken)
                  else plain? inFlow indent steps read g c
            else some (read.reverse, c', g.broken)

/-! ### Blocks -/

/-- What happens to the line breaks at the end of a block. -/
inductive Chomping where
  | strip
  | clip
  | keep
  deriving DecidableEq

/-- The chomping that an indicator asks for. -/
def chomping? (c : Char) : Option Chomping :=
  if c = '+' then some .keep else if c = '-' then some .strip else none

/-- The indentation that an indicator asks for; zero is none. -/
def increment? (c : Char) : Option Nat :=
  if c.isDigit && c ≠ '0' then some (c.toNat - '0'.toNat) else none

/-- The header of a block: indicators of chomping and indentation in either order. -/
def blockHeader? (c : Cursor) : Option (Chomping × Nat × Cursor) :=
  match c.peek 0 with
  | none => some (.clip, 0, c)
  | some d =>
      match chomping? d with
      | some chomping =>
          match c.peek 1 with
          | some e =>
              if e.isDigit then (increment? e).map fun n => (chomping, n, c.skipMany 2)
              else some (chomping, 0, c.skip)
          | none => some (chomping, 0, c.skip)
      | none =>
          if d.isDigit then
            match increment? d with
            | none => none
            | some n =>
                match (c.peek 1).bind chomping? with
                | some chomping => some (chomping, n, c.skipMany 2)
                | none => some (.clip, n, c.skip)
          else some (.clip, 0, c)

/-- Eats indentation and empty lines of a block.  While `indent` is zero the indentation is still
open, and the deepest one seen is found out.  The line breaks met are added to `breaks`. -/
def blockBreaks (indent : Nat) : Nat → Nat → List Char → Cursor → Option (List Char × Nat × Cursor)
  | 0, _, _, _ => none
  | steps + 1, deepest, breaks, c =>
      let spaces := (c.rest.takeWhile (· = ' ')).length
      let c := c.skipMany (if indent = 0 then spaces else min spaces (indent - c.column))
      let deepest := max deepest c.column
      if (indent = 0 || c.column < indent) && c.sees 0 '\t' then none
      else if c.breakAt 0 then
        let (br, c) := c.takeBreak
        blockBreaks indent steps deepest (breaks ++ br) c
      else some (breaks, deepest, c)

/-- The lines of a block whose indentation is known.  `first` is the break after the last line,
`further` those of empty lines after it, and `blankLead` says whether that line began with a
blank. -/
def blockLines (literal : Bool) (indent : Nat) :
    Nat → List Char → List Char → List Char → Bool → Cursor →
      Option (List Char × List Char × List Char × Cursor)
  | 0, _, _, _, _, _ => none
  | steps + 1, done, first, further, blankLead, c =>
      if c.column = indent ∧ c.rest ≠ [] then
        let blank := c.blankAt 0
        let joint :=
          if !literal && first == ['\n'] && !blankLead && !blank then
            if further = [] then [' '] else further
          else first ++ further
        let (line, c) := c.takeWhile fun d => !isBreak d
        let (br, c) := c.takeBreak
        match blockBreaks indent (steps + 1) 0 [] c with
        | none => none
        | some (breaks, _, c) =>
            let done := line.reverse ++ joint.reverse ++ done
            blockLines literal indent steps done br breaks blank c
      else some (done, first, further, c)

/-- A block after its `|` or `>`, inside a collection indented to column `outer`. -/
def block? (literal : Bool) (outer : Int) (steps : Nat) (c : Cursor) :
    Option (List Char × Cursor) := do
  let (chomping, increment, c) ← blockHeader? c
  let c := (c.skipWhile isBlank).skipComment
  if !c.lineEndAt 0 then none
  let (_, c) := c.takeBreak
  let given := if increment = 0 then 0 else (max outer 0 + increment).toNat
  let (breaks, deepest, c) ← blockBreaks given steps 0 [] c
  let indent := if given = 0 then max (max deepest (outer + 1).toNat) 1 else given
  let (done, first, further, c) ← blockLines literal indent steps [] [] breaks false c
  let tail :=
    match chomping with
    | .strip => []
    | .clip => first
    | .keep => first ++ further
  some (done.reverse ++ tail, c)

end ServiceModel.Yaml
