import ServiceModel.Data.JsonText

/-!
Descriptor sets: compiled declarations of messages, enums and services, file by file.  Options,
annotations among them, are kept as values under their names.  Members may be spelled in lower
camel case or with underscores.
-/

namespace ServiceModel.Descriptor

/-- The options of a declaration, under their names. -/
abbrev Options := Catalog Json

structure Location where
  /-- The place of the declaration in its file. -/
  path : List Int32
  leadingComments : Option String
  trailingComments : Option String
  deriving DecidableEq, Repr, Inhabited

structure FieldDescriptor where
  name : String
  number : Int32
  label : String
  typeName : String
  /-- The message or enum of the field. -/
  refersTo : String
  jsonName : String
  options : Options
  /-- The position of the group the field belongs to. -/
  oneOfIndex : Option Nat
  proto3Optional : Bool
  deriving Inhabited

namespace FieldDescriptor

def isRepeated (f : FieldDescriptor) : Bool := f.label == "LABEL_REPEATED"

/-- Whether the field is labelled optional, or not at all. -/
def isLabelOptional (f : FieldDescriptor) : Bool := f.label == "LABEL_OPTIONAL" || f.label == ""

end FieldDescriptor

structure EnumValueDescriptor where
  name : String
  number : Int32
  options : Options
  deriving Inhabited

structure EnumDescriptor where
  name : String
  values : List EnumValueDescriptor
  options : Options
  deriving Inhabited

/-- A message, with those declared inside it. -/
structure MessageDescriptor where
  name : String
  fields : List FieldDescriptor
  nested : List MessageDescriptor
  enums : List EnumDescriptor
  oneOfs : List String
  options : Options
  deriving Inhabited

structure MethodDescriptor where
  name : String
  inputType : String
  outputType : String
  clientStreaming : Bool
  serverStreaming : Bool
  options : Options
  deriving Inhabited

structure ServiceDescriptor where
  name : String
  methods : List MethodDescriptor
  options : Options
  deriving Inhabited

structure FileDescriptor where
  name : String
  package : String
  messages : List MessageDescriptor
  enums : List EnumDescriptor
  services : List ServiceDescriptor
  options : Options
  /-- What the source says at each place. -/
  locations : Option (List Location)
  edition : String
  deriving Inhabited

/-- Whether fields tell unset from default unless their label says otherwise; so in every edition
but `proto3`. -/
def FileDescriptor.hasExplicitPresence (f : FileDescriptor) : Bool := f.edition != "proto3"

structure DescriptorSet where
  files : List FileDescriptor
  deriving Inhabited

/-- The first file with a name. -/
def DescriptorSet.file? (s : DescriptorSet) (name : String) : Option FileDescriptor :=
  s.files.find? (·.name == name)

/-! ### Reading -/

/-- Reads options; of two with one name the last counts. -/
def readOptions? (n : Node) : Read Options := do
  return Catalog.ofList (← n.dictionary? Node.json?)

def Location.ofNode? (n : Node) : Read Location := do
  let f ← n.fields? [["path"], ["leadingComments", "leading_comments"],
    ["trailingComments", "trailing_comments"]]
  return ⟨← f.orElse 0 (Node.list? Node.int32?) [], ← f.maybe 1 Node.text?, ← f.maybe 2 Node.text?⟩

def readLocations? (n : Node) : Read (List Location) := do
  let f ← n.fields? [["location"]]
  f.orElse 0 (Node.list? Location.ofNode?) []

def readOneOf? (n : Node) : Read String := do
  let f ← n.fields? [["name"]]
  f.orElse 0 Node.text? ""

def FieldDescriptor.ofNode? (n : Node) : Read FieldDescriptor := do
  let f ← n.fields? [["name"], ["number"], ["label"], ["type"], ["typeName", "type_name"],
    ["jsonName", "json_name"], ["options"], ["oneofIndex", "oneof_index"],
    ["proto3Optional", "proto3_optional"]]
  return {
    name := ← f.orElse 0 Node.text? ""
    number := ← f.orElse 1 Node.int32? 0
    label := ← f.orElse 2 Node.text? ""
    typeName := ← f.orElse 3 Node.text? ""
    refersTo := ← f.orElse 4 Node.text? ""
    jsonName := ← f.orElse 5 Node.text? ""
    options := ← f.orElse 6 readOptions? .empty
    oneOfIndex := ← f.maybe 7 Node.index?
    proto3Optional := ← f.orElse 8 Node.flag? false }

def EnumValueDescriptor.ofNode? (n : Node) : Read EnumValueDescriptor := do
  let f ← n.fields? [["name"], ["number"], ["options"]]
  return ⟨← f.orElse 0 Node.text? "", ← f.orElse 1 Node.int32? 0, ← f.orElse 2 readOptions? .empty⟩

def EnumDescriptor.ofNode? (n : Node) : Read EnumDescriptor := do
  let f ← n.fields? [["name"], ["value"], ["options"]]
  return ⟨← f.orElse 0 Node.text? "", ← f.orElse 1 (Node.list? EnumValueDescriptor.ofNode?) [],
    ← f.orElse 2 readOptions? .empty⟩

/-- Reads a message of at most so many levels. -/
def MessageDescriptor.readWithin? : Nat → Node → Read MessageDescriptor
  | 0, _ => failure
  | levels + 1, n => do
      let f ← n.fields? [["name"], ["field"], ["nestedType", "nested_type"],
        ["enumType", "enum_type"], ["oneofDecl", "oneof_decl"], ["options"]]
      return {
        name := ← f.orElse 0 Node.text? ""
        fields := ← f.orElse 1 (Node.list? FieldDescriptor.ofNode?) []
        nested := ← f.orElse 2 (Node.list? (readWithin? levels)) []
        enums := ← f.orElse 3 (Node.list? EnumDescriptor.ofNode?) []
        oneOfs := ← f.orElse 4 (Node.list? readOneOf?) []
        options := ← f.orElse 5 readOptions? .empty }

def MessageDescriptor.ofNode? (n : Node) : Read MessageDescriptor := readWithin? n.height n

def MethodDescriptor.ofNode? (n : Node) : Read MethodDescriptor := do
  let f ← n.fields? [["name"], ["inputType", "input_type"], ["outputType", "output_type"],
    ["clientStreaming", "client_streaming"], ["serverStreaming", "server_streaming"], ["options"]]
  return {
    name := ← f.orElse 0 Node.text? ""
    inputType := ← f.orElse 1 Node.text? ""
    outputType := ← f.orElse 2 Node.text? ""
    clientStreaming := ← f.orElse 3 Node.flag? false
    serverStreaming := ← f.orElse 4 Node.flag? false
    options := ← f.orElse 5 readOptions? .empty }

def ServiceDescriptor.ofNode? (n : Node) : Read ServiceDescriptor := do
  let f ← n.fields? [["name"], ["method"], ["options"]]
  return ⟨← f.orElse 0 Node.text? "", ← f.orElse 1 (Node.list? MethodDescriptor.ofNode?) [],
    ← f.orElse 2 readOptions? .empty⟩

def FileDescriptor.ofNode? (n : Node) : Read FileDescriptor := do
  let f ← n.fields? [["name"], ["package"], ["messageType", "message_type"],
    ["enumType", "enum_type"], ["service"], ["options"], ["sourceCodeInfo", "source_code_info"],
    ["syntax"]]
  return {
    name := ← f.orElse 0 Node.text? ""
    package := ← f.orElse 1 Node.text? ""
    messages := ← f.orElse 2 (Node.list? MessageDescriptor.ofNode?) []
    enums := ← f.orElse 3 (Node.list? EnumDescriptor.ofNode?) []
    services := ← f.orElse 4 (Node.list? ServiceDescriptor.ofNode?) []
    options := ← f.orElse 5 readOptions? .empty
    locations := ← f.maybe 6 readLocations?
    edition := ← f.orElse 7 Node.text? "" }

def DescriptorSet.ofNode? (n : Node) : Read DescriptorSet := do
  let f ← n.fields? [["file"]]
  return ⟨← f.orElse 0 (Node.list? FileDescriptor.ofNode?) []⟩

def DescriptorSet.parse? (text : String) : Option DescriptorSet :=
  JsonText.read? DescriptorSet.ofNode? text

end ServiceModel.Descriptor
