import ServiceModel.Descriptor.Comments

/-!
Sites: the messages and enums of a file at every depth, each with its ID, the message around it and
its place.  What is declared inside a message comes before the message itself.
-/

namespace ServiceModel.Descriptor

structure MessageSite where
  id : String
  parent : Option String
  place : Place
  descriptor : MessageDescriptor
  deriving Inhabited

structure EnumSite where
  id : String
  parent : Option String
  place : Place
  descriptor : EnumDescriptor
  deriving Inhabited

/-- The ID of what is declared in a scope. -/
def memberId (scope name : String) : String := scope ++ "." ++ name

def packageScope (package : String) : String := if package = "" then "" else "." ++ package

mutual

/-- The messages of a declaration, itself the last. -/
def messageSites (scope : String) (parent : Option String) (place : Place) :
    MessageDescriptor → List MessageSite
  | ⟨name, fields, nested, enums, oneOfs, options⟩ =>
      let id := memberId scope name
      nestedSites id place 0 nested ++
        [⟨id, parent, place, ⟨name, fields, nested, enums, oneOfs, options⟩⟩]

/-- The messages declared in the message with an ID, from a position on. -/
def nestedSites (id : String) (place : Place) (index : Nat) :
    List MessageDescriptor → List MessageSite
  | [] => []
  | d :: ds =>
      messageSites id (some id) (place.child Place.messageNested index) d ++
        nestedSites id place (index + 1) ds

end

def enumSitesOf (scope : String) (parent : Option String) (place : Place) (kind : Int32)
    (enums : List EnumDescriptor) : List EnumSite :=
  enums.zipIdx.map fun (d, i) => ⟨memberId scope d.name, parent, place.child kind i, d⟩

def MessageSite.enumSites (s : MessageSite) : List EnumSite :=
  enumSitesOf s.id (some s.id) s.place Place.messageEnum s.descriptor.enums

namespace FileDescriptor

def scope (f : FileDescriptor) : String := packageScope f.package

/-- The messages of the file at every depth. -/
def messageSites (f : FileDescriptor) : List MessageSite :=
  f.messages.zipIdx.flatMap fun (d, i) =>
    Descriptor.messageSites f.scope none (Place.child [] Place.fileMessage i) d

/-- The enums of the file at every depth. -/
def enumSites (f : FileDescriptor) : List EnumSite :=
  f.messageSites.flatMap MessageSite.enumSites ++
    enumSitesOf f.scope none [] Place.fileEnum f.enums

def messageIds (f : FileDescriptor) : List String :=
  f.messages.map fun d => memberId f.scope d.name

def enumIds (f : FileDescriptor) : List String := f.enums.map fun d => memberId f.scope d.name

end FileDescriptor

end ServiceModel.Descriptor
