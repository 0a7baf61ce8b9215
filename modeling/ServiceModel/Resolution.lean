import ServiceModel.Model.SymbolTable

/-!
Resolution: every ID that a model mentions has to be that of an entity in its table.  All that is
missing is reported together.
-/

namespace ServiceModel

/-- A mention of an entity: who mentions it, what kind it has, and its ID. -/
structure Mention where
  source : String
  kind : EntityKind
  target : String
  deriving DecidableEq, Repr, Inhabited

namespace SymbolTable

/-- Whether an entity of a kind has an ID. -/
def resolves (t : SymbolTable) (kind : EntityKind) (id : String) : Bool :=
  match kind with
  | .message => t.messages.contains id
  | .enum => t.enums.contains id
  | .service => t.services.contains id
  | .method => t.methods.contains id

end SymbolTable

namespace Mention

def ofField (f : Field) : List Mention :=
  match f.wireType with
  | .message => [⟨f.id, .message, f.typeId⟩]
  | .group => [⟨f.id, .message, f.typeId⟩]
  | .enum => [⟨f.id, .enum, f.typeId⟩]
  | _ => []

/-- What a message mentions: the types of its fields, and its parent. -/
def ofMessage (m : Message) : List Mention :=
  m.fields.flatMap ofField ++ m.parent.toList.map fun p => ⟨m.id, .message, p⟩

/-- What a method mentions: its service, its types, and those of its operation. -/
def ofMethod (m : Method) : List Mention :=
  [⟨m.id, .service, m.serviceId⟩, ⟨m.id, .message, m.inputTypeId⟩,
    ⟨m.id, .message, m.outputTypeId⟩] ++
    m.operation.toList.flatMap fun o =>
      [⟨m.id, .message, o.responseTypeId⟩, ⟨m.id, .message, o.metadataTypeId⟩]

/-- What a service mentions: its methods. -/
def ofService (s : Service) : List Mention := s.methods.map fun id => ⟨s.id, .method, id⟩

def ofLists (a : Api) : List Mention :=
  a.services.map (⟨a.name, .service, ·⟩) ++ a.messages.map (⟨a.name, .message, ·⟩) ++
    a.enums.map (⟨a.name, .enum, ·⟩)

/-- All mentions of a model: messages, methods and services in the order of their IDs, then its
lists. -/
def ofApi (a : Api) : List Mention :=
  a.table.messages.values.flatMap ofMessage ++ a.table.methods.values.flatMap ofMethod ++
    a.table.services.values.flatMap ofService ++ ofLists a

def error (m : Mention) : ModelError := .unresolved m.source m.kind m.target

end Mention

namespace Api

/-- The mentions that do not resolve. -/
def dangling (a : Api) : List Mention :=
  (Mention.ofApi a).filter fun m => !a.table.resolves m.kind m.target

def checkMentions (a : Api) : Except ModelError Unit :=
  ModelError.collect (a.dangling.map Mention.error)

/-- Checks a model and freezes its table. -/
def finalize (a : Api) : Except ModelError Api :=
  match a.checkMentions with
  | .error e => .error e
  | .ok () => .ok { a with table := a.table.freeze }

/-- The same in place: checks the model at hand, then freezes its table. -/
def finalizing : ExceptT ModelError (StateM Api) Unit := do
  let a ← get
  MonadExcept.ofExcept a.checkMentions
  modify fun a => { a with table := a.table.freeze }

end Api

end ServiceModel
