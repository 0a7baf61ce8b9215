import ServiceModel.Model.SymbolTable

/-!
Calls on a symbol table.  A call works on the table in place: it looks at what is there, changes it
step by step, and may be refused on its way.  A refused call ends where it was refused and is not
undone, so what it left behind is a matter of the order of its steps.
-/

namespace ServiceModel

/-- A change of entities that leaves their IDs as they are. -/
structure Edit {α : Type} (id : α → String) where
  change : α → α
  keeps : ∀ a, id (change a) = id a

/-- A call on a symbol table. -/
inductive TableCall where
  | insertMessage (m : Message)
  | insertEnum (e : Enum)
  | insertService (s : Service)
  | insertMethod (m : Method)
  | removeMethod (id : String)
  | editMessage (id : String) (edit : Edit Message.id)
  | editEnum (id : String) (edit : Edit Enum.id)
  | editService (id : String) (edit : Edit Service.id)
  | editMethod (id : String) (edit : Edit Method.id)
  | freeze

/-- What a call answers when it is not refused. -/
inductive TableAnswer where
  | done
  /-- The method that was removed, if there was one. -/
  | removed (m : Option Method)
  /-- Whether there was an entity to edit. -/
  | edited (found : Bool)

namespace TableCall

/-- Work on the table at hand, which may be refused. -/
abbrev Work := ExceptT ModelError (StateM SymbolTable)

def refuseIf (bad : SymbolTable → Bool) (e : ModelError) : Work Unit := do
  if bad (← get) then throw e

/-- Refuses everything once the table is frozen. -/
def checkOpen (id : String) : Work Unit := refuseIf (·.frozen) (.frozen id)

/-- Registers an entity; `put` says where. -/
def register (id : String) (put : SymbolTable → SymbolTable) : Work TableAnswer := do
  checkOpen id
  modify put
  return .done

/-- Edits an entity, if `find` finds it; a frozen table shows none. -/
def editFound (find : SymbolTable → Bool) (change : SymbolTable → SymbolTable) :
    Work TableAnswer := do
  let t ← get
  if t.frozen then return .edited false
  if !find t then return .edited false
  modify change
  return .edited true

def perform : TableCall → Work TableAnswer
  | insertMessage m => register m.id fun t => { t with messages := t.messages.insert m.id m }
  | insertEnum e => register e.id fun t => { t with enums := t.enums.insert e.id e }
  | insertService s => register s.id fun t => { t with services := t.services.insert s.id s }
  | insertMethod m => do
      checkOpen m.id
      refuseIf (·.methods.contains m.id) (.duplicate m.id)
      modify fun t => { t with methods := t.methods.insert m.id m }
      return .done
  | removeMethod id => do
      checkOpen id
      let found := (← get).method? id
      modify fun t => { t with methods := t.methods.erase id }
      return .removed found
  | editMessage id edit =>
      editFound (·.messages.contains id) fun t =>
        { t with messages := t.messages.modify id edit.change }
  | editEnum id edit =>
      editFound (·.enums.contains id) fun t => { t with enums := t.enums.modify id edit.change }
  | editService id edit =>
      editFound (·.services.contains id) fun t =>
        { t with services := t.services.modify id edit.change }
  | editMethod id edit =>
      editFound (·.methods.contains id) fun t =>
        { t with methods := t.methods.modify id edit.change }
  | freeze => do
      modify SymbolTable.freeze
      return .done

/-- What a call answers, and the table that it leaves behind. -/
def on (c : TableCall) (t : SymbolTable) : Except ModelError TableAnswer × SymbolTable :=
  c.perform.run.run t

def answer (c : TableCall) (t : SymbolTable) : Except ModelError TableAnswer := (c.on t).1

def after (c : TableCall) (t : SymbolTable) : SymbolTable := (c.on t).2

/-- The table after some calls.  A refused call does not keep those behind it from being made. -/
def run (calls : List TableCall) (t : SymbolTable) : SymbolTable :=
  calls.foldl (fun t c => c.after t) t

end TableCall

end ServiceModel
