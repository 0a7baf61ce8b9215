import ServiceModel.Catalog
import ServiceModel.Data.Number

/-!
JSON values and their two written forms: the compact one, and the one laid out over lines with two
blanks for each level.  Members are written in the order they are held.
-/

namespace ServiceModel

inductive Json where
  | null
  | bool (value : Bool)
  | number (value : Number)
  | string (value : String)
  | array (items : List Json)
  | object (members : List (String × Json))
  deriving Inhabited

namespace Json

def int (n : Int) : Json := .number (.int n)

def nat (n : Nat) : Json := .number (.int n)

def strings (ss : List String) : Json := .array (ss.map .string)

/-- A value that may be missing; `null` when it is. -/
def option {α : Type} (write : α → Json) : Option α → Json
  | none => .null
  | some a => write a

/-- A catalog as an object, in the order of its names. -/
def catalog {α : Type} (write : α → Json) (c : Catalog α) : Json :=
  .object (c.entries.map fun e => (e.1, write e.2))

/-! ### Reading members -/

def member? (name : String) : Json → Option Json
  | .object ms => Catalog.seek name ms
  | _ => none

def string? : Json → Option String
  | .string s => some s
  | _ => none

def bool? : Json → Option Bool
  | .bool b => some b
  | _ => none

/-! ### Writing -/

def hexDigit (n : Nat) : Char := Nat.digitChar (n % 16)

/-- How a character stands inside a quoted text. -/
def escape (c : Char) : List Char :=
  if c = '"' then ['\\', '"']
  else if c = '\\' then ['\\', '\\']
  else if c = '\n' then ['\\', 'n']
  else if c = '\r' then ['\\', 'r']
  else if c = '\t' then ['\\', 't']
  else if c.toNat = 8 then ['\\', 'b']
  else if c.toNat = 12 then ['\\', 'f']
  else if c.toNat < 32 then ['\\', 'u', '0', '0', hexDigit (c.toNat / 16), hexDigit c.toNat]
  else [c]

def quote (s : String) : String := "\"" ++ String.ofList (s.toList.flatMap escape) ++ "\""

mutual

def compact : Json → String
  | .null => "null"
  | .bool true => "true"
  | .bool false => "false"
  | .number n => n.text
  | .string s => quote s
  | .array items => "[" ++ compactItems items ++ "]"
  | .object ms => "\x7b" ++ compactMembers ms ++ "\x7d"

def compactItems : List Json → String
  | [] => ""
  | [j] => compact j
  | j :: k :: js => compact j ++ "," ++ compactItems (k :: js)

def compactMembers : List (String × Json) → String
  | [] => ""
  | [(k, j)] => quote k ++ ":" ++ compact j
  | (k, j) :: e :: es => quote k ++ ":" ++ compact j ++ "," ++ compactMembers (e :: es)

end

/-- A new line with two blanks for each of `level` levels. -/
def newLine (level : Nat) : String := "\n" ++ String.ofList (List.replicate (2 * level) ' ')

mutual

/-- A value laid out over lines, `level` levels deep. -/
def prettyAt (level : Nat) : Json → String
  | .null => "null"
  | .bool true => "true"
  | .bool false => "false"
  | .number n => n.text
  | .string s => quote s
  | .array [] => "[]"
  | .array (j :: js) =>
      "[" ++ newLine (level + 1) ++ prettyAt (level + 1) j ++ prettyItems (level + 1) js ++
        newLine level ++ "]"
  | .object [] => "\x7b\x7d"
  | .object ((k, j) :: ms) =>
      "\x7b" ++ newLine (level + 1) ++ quote k ++ ": " ++ prettyAt (level + 1) j ++
        prettyMembers (level + 1) ms ++ newLine level ++ "\x7d"

/-- Further values, each on a line of its own after a comma. -/
def prettyItems (level : Nat) : List Json → String
  | [] => ""
  | j :: js => "," ++ newLine level ++ prettyAt level j ++ prettyItems level js

/-- Further members, each on a line of its own after a comma. -/
def prettyMembers (level : Nat) : List (String × Json) → String
  | [] => ""
  | (k, j) :: ms =>
      "," ++ newLine level ++ quote k ++ ": " ++ prettyAt level j ++ prettyMembers level ms

end

/-- A value laid out over lines. -/
def pretty (j : Json) : String := prettyAt 0 j

end Json

end ServiceModel
