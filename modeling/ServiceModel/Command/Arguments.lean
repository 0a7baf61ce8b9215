import ServiceModel.Text.Split
import ServiceModel.Text.Uppercase

/-!
Arguments of a command: options with values, and operands.  An option is named by a word behind two
dashes or by a letter behind one, and its value is the next argument or is attached to its name.
Behind the argument `--` all arguments are operands.  Arguments are read in their order, so that of
a mistake and a request for help the first counts.
-/

namespace ServiceModel

/-- What values an option takes. -/
inductive ValueKind where
  | text
  /-- A path, which is not empty. -/
  | path
  /-- One of some words, in capitals or not. -/
  | oneOf (words : List String)
  deriving DecidableEq, Repr, Inhabited

def ValueKind.accepts : ValueKind → String → Bool
  | .text, _ => true
  | .path, value => value != ""
  | .oneOf words, value => words.contains (Text.asciiLower value)

structure OptionName where
  word : String
  letter : Option Char
  kind : ValueKind
  /-- Whether it may be given any number of times. -/
  repeats : Bool
  deriving DecidableEq, Repr, Inhabited

/-- The arguments that a command takes: options, and so many operands at most. -/
structure Signature where
  options : List OptionName
  operands : Nat
  deriving DecidableEq, Repr, Inhabited

/-- An argument, with the value that belongs to it. -/
inductive Argument where
  | option (word value : String)
  | operand (text : String)
  deriving DecidableEq, Repr, Inhabited

/-- Why arguments are not those of a command. -/
inductive ArgumentStop where
  | help
  | misuse
  deriving DecidableEq, Repr, Inhabited

namespace Argument

/-! ### Single arguments -/

/-- What an argument is on its own. -/
inductive Shape where
  /-- Nothing but two dashes. -/
  | divider
  /-- A word behind two dashes, and the value behind an equals sign. -/
  | word (name : String) (attached : Option String)
  /-- A letter behind one dash, and what follows it. -/
  | letter (name : Char) (attached : Option String)
  | plain (text : String)
  deriving DecidableEq, Repr

/-- What follows the letter of an option: nothing, or a value with or without an equals sign. -/
def attachedValue : List Char → Option String
  | [] => none
  | '=' :: cs => some (String.ofList cs)
  | cs => some (String.ofList cs)

/-- The shape of an argument; a single dash is a plain text. -/
def shapeOf (text : String) : Shape :=
  match text.toList with
  | ['-', '-'] => .divider
  | '-' :: '-' :: cs =>
      match Text.cutFirst '=' cs with
      | some (name, value) => .word (String.ofList name) (some (String.ofList value))
      | none => .word (String.ofList cs) none
  | '-' :: c :: cs => .letter c (attachedValue cs)
  | _ => .plain text

/-- Whether an argument can be the value of the option before it. -/
def isValue (text : String) : Bool :=
  match shapeOf text with
  | .plain _ => true
  | _ => false

/-! ### Looking up -/

def valuesOf (word : String) (arguments : List Argument) : List String :=
  arguments.filterMap fun
    | .option w value => if w = word then some value else none
    | .operand _ => none

/-- The value of an option that is given at most once. -/
def value? (word : String) (arguments : List Argument) : Option String :=
  (valuesOf word arguments).head?

def operands (arguments : List Argument) : List String :=
  arguments.filterMap fun
    | .operand text => some text
    | .option _ _ => none

/-! ### All arguments -/

/-- The option that a shape names; help is asked for by a name of its own. -/
def optionOf (options : List OptionName) :
    Shape → Except ArgumentStop (OptionName × Option String)
  | .word name attached =>
      match options.find? (·.word == name) with
      | some o => .ok (o, attached)
      | none => .error (if name = "help" && attached.isNone then .help else .misuse)
  | .letter name attached =>
      match options.find? (·.letter == some name) with
      | some o => .ok (o, attached)
      | none => .error (if name = 'h' then .help else .misuse)
  | _ => .error .misuse

/-- Some arguments with the value of an option behind them: one of its kind, and only one unless
the option may be repeated. -/
def addValue (o : OptionName) (value : String) (before : List Argument) :
    Except ArgumentStop (List Argument) :=
  if o.kind.accepts value && (o.repeats || (valuesOf o.word before).isEmpty) then
    .ok (before ++ [.option o.word value])
  else .error .misuse

/-- Some arguments with an operand behind them, if one more is wanted. -/
def addOperand (s : Signature) (before : List Argument) (text : String) :
    Except ArgumentStop (List Argument) :=
  if (operands before).length < s.operands then .ok (before ++ [.operand text])
  else .error .misuse

/-- The arguments that some texts stand for, behind those before them. -/
def readFrom (s : Signature) (before : List Argument) :
    List String → Except ArgumentStop (List Argument)
  | [] => .ok before
  | text :: rest =>
      match shapeOf text with
      | .divider => rest.foldlM (addOperand s) before
      | .plain t =>
          match addOperand s before t with
          | .error stop => .error stop
          | .ok arguments => readFrom s arguments rest
      | shape =>
          match optionOf s.options shape, rest with
          | .error stop, _ => .error stop
          | .ok (o, some value), rest =>
              match addValue o value before with
              | .error stop => .error stop
              | .ok arguments => readFrom s arguments rest
          | .ok (_, none), [] => .error .misuse
          | .ok (o, none), value :: rest =>
              if isValue value then
                match addValue o value before with
                | .error stop => .error stop
                | .ok arguments => readFrom s arguments rest
              else .error .misuse

/-- The arguments of a command that some texts stand for. -/
def ofTexts (s : Signature) (texts : List String) : Except ArgumentStop (List Argument) :=
  readFrom s [] texts

end Argument

end ServiceModel
