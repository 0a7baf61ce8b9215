import ServiceModel.BuildError
import ServiceModel.Descriptor.Annotation
import ServiceModel.Descriptor.Site

/-!
Messages and enums of a descriptor set.  First every message and enum is registered, messages
without their fields.  Then the fields are resolved, so that they may name what is declared later or
in other files.
-/

namespace ServiceModel

namespace SymbolTable

/-- Puts a message into a table that takes entries. -/
def putMessage (m : Message) (t : SymbolTable) : SymbolTable :=
  { t with messages := t.messages.insert m.id m }

/-- Puts an enum into a table that takes entries. -/
def putEnum (e : Enum) (t : SymbolTable) : SymbolTable :=
  { t with enums := t.enums.insert e.id e }

end SymbolTable

namespace Descriptor

/-! ### Registering -/

/-- The message of a site, without its fields. -/
def MessageSite.outline (f : FileDescriptor) (s : MessageSite) : Message :=
  { name := s.descriptor.name
    id := s.id
    package := f.package
    documentation := f.comment s.place
    parent := s.parent
    messages := s.descriptor.nested.map fun d => memberId s.id d.name
    enums := s.descriptor.enums.map fun d => memberId s.id d.name
    isMap := isMapEntry s.descriptor.options
    deprecated := isDeprecated s.descriptor.options }

def EnumSite.values (f : FileDescriptor) (s : EnumSite) : List EnumValue :=
  s.descriptor.values.zipIdx.map fun (v, i) =>
    { name := v.name
      id := memberId s.id v.name
      number := v.number
      documentation := f.comment (s.place.child Place.enumValue i)
      deprecated := isDeprecated v.options }

def EnumSite.enum (f : FileDescriptor) (s : EnumSite) : Enum :=
  { name := s.descriptor.name
    id := s.id
    package := f.package
    documentation := f.comment s.place
    parent := s.parent
    values := s.values f
    deprecated := isDeprecated s.descriptor.options }

def FileDescriptor.register (f : FileDescriptor) (t : SymbolTable) : SymbolTable :=
  let t := f.messageSites.foldl (fun t s => t.putMessage (s.outline f)) t
  f.enumSites.foldl (fun t s => t.putEnum (s.enum f)) t

/-! ### Fields -/

/-- The ID that a type name stands for; the dot in front may be left out. -/
def typeIdOf (name : String) : String := if Text.hasLead "." name then name else "." ++ name

/-- Whether a type always tells unset from default. -/
def hasOwnPresence (w : WireType) : Bool := w == .message || w == .group

/-- The field of a message, without its comment and its group. -/
def resolveField (t : SymbolTable) (f : FileDescriptor) (messageId : String)
    (d : FieldDescriptor) : Except BuildError Field :=
  match WireType.ofDescriptor? d.typeName with
  | none => .error (.of (.unsupportedFieldType d.typeName))
  | some w =>
      let typeId := if w.isReference then typeIdOf d.refersTo else ""
      let isMap := w == .message && d.isRepeated && (t.message? typeId).any (·.isMap)
      let plain := Field.new d.name (memberId messageId d.name) w
      .ok { plain with
        jsonName := if d.jsonName = "" then plain.jsonName else d.jsonName
        typeId
        isMap
        repeated := d.isRepeated && !isMap
        optional :=
          !d.isRepeated &&
            (d.proto3Optional || hasOwnPresence w || (f.hasExplicitPresence && d.isLabelOptional))
        behavior := behaviors d.options
        format := format? d.options
        deprecated := isDeprecated d.options }

/-- The position of the group that a field belongs to, among `count` groups.  An optional field of
`proto3` has a group of its own, which is none. -/
def groupOf (count : Nat) (d : FieldDescriptor) : Option Nat :=
  if d.proto3Optional then none else d.oneOfIndex.filter (· < count)

/-- The fields of a site, from a position on. -/
def resolveFields (t : SymbolTable) (f : FileDescriptor) (s : MessageSite) :
    Nat → List FieldDescriptor → Except BuildError (List Field)
  | _, [] => .ok []
  | i, d :: ds =>
      match during (.field (memberId s.id d.name)) (resolveField t f s.id d) with
      | .error e => .error e
      | .ok field =>
          match resolveFields t f s (i + 1) ds with
          | .error e => .error e
          | .ok fields =>
              .ok ({ field with
                documentation := f.comment (s.place.child Place.messageField i)
                isOneOf := (groupOf s.descriptor.oneOfs.length d).isSome } :: fields)

/-- The groups of a site that have members. -/
def MessageSite.groups (f : FileDescriptor) (s : MessageSite) : List OneOf :=
  let count := s.descriptor.oneOfs.length
  (s.descriptor.oneOfs.zipIdx.map fun (name, i) =>
    { name
      id := memberId s.id name
      documentation := f.comment (s.place.child Place.messageOneOf i)
      fields := (s.descriptor.fields.filter fun d => groupOf count d == some i).map (·.name) :
      OneOf }).filter fun o => !o.fields.isEmpty

/-- Resolves the message of a site. -/
def MessageSite.resolve (f : FileDescriptor) (s : MessageSite) (t : SymbolTable) :
    Except BuildError SymbolTable :=
  match resolveFields t f s 0 s.descriptor.fields with
  | .error e => .error e
  | .ok fields =>
      let m := (t.message? s.id).getD (s.outline f)
      .ok (t.putMessage { m with fields, oneOfs := s.groups f })

def resolveSites (f : FileDescriptor) :
    List MessageSite → SymbolTable → Except BuildError SymbolTable
  | [], t => .ok t
  | s :: ss, t =>
      match s.resolve f t with
      | .error e => .error e
      | .ok t => resolveSites f ss t

end Descriptor

end ServiceModel
