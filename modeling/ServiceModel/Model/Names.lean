import ServiceModel.Model.Basic
import ServiceModel.Text.Uppercase

/-!
The names that entities go by elsewhere: a field's name in JSON, the short name of an API, and the
spellings of types, behaviors and formats in declarations.
-/

namespace ServiceModel

/-! ### Texts -/

/-- The characters of a name in lower camel case; `raise` says whether an underscore was just
left out. -/
def lowerCamelChars : (raise : Bool) → List Char → List Char
  | _, [] => []
  | raise, c :: cs =>
      if c = '_' then lowerCamelChars true cs
      else if raise then Text.upperChar c ++ lowerCamelChars false cs
      else c :: lowerCamelChars false cs

def lowerCamel (name : String) : String := String.ofList (lowerCamelChars false name.toList)

/-- Whether a part of a package is a version, such as `v1beta2`. -/
def isVersionPart (part : String) : Bool :=
  match part.toList with
  | 'v' :: c :: _ => c.isDigit
  | _ => false

/-- The short name of an API: the first label of its service name, or else the last part of the
package that is not a version. -/
def apiName (serviceName : Option String) (package : String) : String :=
  match serviceName with
  | some name =>
      if name = "" then ofPackage
      else
        let short := (Text.dropTail? ".googleapis.com" name).getD name
        (Text.split '.' short).headD short
  | none => ofPackage
where
  /-- The last part of the package that is not a version. -/
  ofPackage : String :=
    ((Text.split '.' package).reverse.find? fun part => part != "" && !isVersionPart part).getD
      package

/-- An ID without the dot in front, as selectors name it. -/
def selectorOf (id : String) : String := (Text.dropLead? "." id).getD id

/-! ### Spellings in declarations -/

namespace WireType

def ofDescriptorNames : List (String × WireType) :=
  [("TYPE_DOUBLE", .double), ("TYPE_FLOAT", .float), ("TYPE_INT64", .int64),
    ("TYPE_UINT64", .uint64), ("TYPE_INT32", .int32), ("TYPE_FIXED64", .fixed64),
    ("TYPE_FIXED32", .fixed32), ("TYPE_BOOL", .bool), ("TYPE_STRING", .string),
    ("TYPE_GROUP", .group), ("TYPE_MESSAGE", .message), ("TYPE_BYTES", .bytes),
    ("TYPE_UINT32", .uint32), ("TYPE_ENUM", .enum), ("TYPE_SFIXED32", .sfixed32),
    ("TYPE_SFIXED64", .sfixed64), ("TYPE_SINT32", .sint32), ("TYPE_SINT64", .sint64)]

def ofDescriptor? (name : String) : Option WireType := ofDescriptorNames.lookup name

/-- The keyword of the type in declarations. -/
def keyword : WireType → String
  | .double => "double"
  | .float => "float"
  | .int64 => "int64"
  | .uint64 => "uint64"
  | .int32 => "int32"
  | .fixed64 => "fixed64"
  | .fixed32 => "fixed32"
  | .bool => "bool"
  | .string => "string"
  | .group => "group"
  | .message => "message"
  | .bytes => "bytes"
  | .uint32 => "uint32"
  | .enum => "enum"
  | .sfixed32 => "sfixed32"
  | .sfixed64 => "sfixed64"
  | .sint32 => "sint32"
  | .sint64 => "sint64"

end WireType

def Behavior.ofAnnotation? (name : String) : Option Behavior :=
  [("OPTIONAL", Behavior.optional), ("REQUIRED", .required), ("OUTPUT_ONLY", .outputOnly),
    ("INPUT_ONLY", .inputOnly), ("IMMUTABLE", .immutable), ("UNORDERED_LIST", .unorderedList),
    ("NON_EMPTY_DEFAULT", .nonEmptyDefault), ("IDENTIFIER", .identifier)].lookup name

def TextFormat.ofAnnotation? (name : String) : Option TextFormat :=
  [("UUID4", TextFormat.uuid4), ("IPV4", .ipv4), ("IPV6", .ipv6),
    ("IPV4_OR_IPV6", .ipv4OrIpv6)].lookup name

/-! ### New entities -/

/-- A field whose name in JSON follows from its name. -/
def Field.new (name id : String) (wireType : WireType) : Field :=
  { name, id, jsonName := lowerCamel name, wireType }

end ServiceModel
