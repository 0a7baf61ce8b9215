import ServiceModel.ServiceConfig

/-!
Enrichment: facts about a model that follow from conventions.  List methods are recognised by the
fields of their request and response, clients fill in the request fields that the configuration
allows, and long-running methods are counted.
-/

namespace ServiceModel

structure EnrichmentCounts where
  pageable : Nat
  autoPopulated : Nat
  longRunning : Nat
  deriving DecidableEq, Repr, Inhabited

namespace EnrichmentCounts

def zero : EnrichmentCounts := ⟨0, 0, 0⟩

def add (a b : EnrichmentCounts) : EnrichmentCounts :=
  ⟨a.pageable + b.pageable, a.autoPopulated + b.autoPopulated, a.longRunning + b.longRunning⟩

end EnrichmentCounts

namespace Enrichment

/-! ### Pagination -/

def pageSizeNames : List String := ["page_size", "pageSize"]

/-- The older names of a field for the size of a page. -/
def maxResultsNames : List String := ["max_results", "maxResults"]

def pageTokenNames : List String := ["page_token", "pageToken"]

def nextPageTokenNames : List String := ["next_page_token", "nextPageToken"]

/-- The messages that wrap the size of a page. -/
def sizeWrappers : List String :=
  [SymbolTable.wellKnownId "Int32Value", SymbolTable.wellKnownId "UInt32Value"]

def isSmallInteger (f : Field) : Bool := f.wireType == .int32 || f.wireType == .uint32

def isPageSize (f : Field) : Bool :=
  if f.repeated || f.isMap then false
  else if pageSizeNames.contains f.name then isSmallInteger f
  else if maxResultsNames.contains f.name then
    isSmallInteger f || (f.wireType == .message && sizeWrappers.contains f.typeId)
  else false

def isPageToken (f : Field) : Bool := pageTokenNames.contains f.name && f.isSingularString

def isNextPageToken (f : Field) : Bool := nextPageTokenNames.contains f.name && f.isSingularString

def isItemList (f : Field) : Bool := f.repeated && !f.isMap && f.wireType == .message

/-- What a response is paged by: the token for the next page, and the first list of messages. -/
def pageFields? (response : Message) : Option PageFields := do
  let next ← response.fields.find? isNextPageToken
  let item ← response.fields.find? isItemList
  some ⟨next.name, item.name⟩

/-- The page token of a request that also gives the size of a page. -/
def requestToken? (request : Message) : Option String :=
  if request.fields.any isPageSize then (request.fields.find? isPageToken).map Field.name else none

/-- The request's page token and the response's page fields, for a method that lists something. -/
def pagination? (t : SymbolTable) (m : Method) : Option (String × PageFields) := do
  let request ← t.message? m.inputTypeId
  let response ← t.message? m.outputTypeId
  let token ← requestToken? request
  let page ← pageFields? response
  some (token, page)

/-! ### Steps -/

/-- Records what the list method with an ID and its response are paged by. -/
def recordPagination (id responseId token : String) (page : PageFields) (t : SymbolTable) :
    SymbolTable :=
  let t := (t.editMessage? responseId fun r => { r with pagination := some page }).getD t
  (t.editMethod? id fun m => { m with pagination := some token }).getD t

/-- The fields of a request that clients may fill in. -/
def populatedFields (allowed : List String) (request : Message) : List String :=
  (request.fields.filter fun f => f.isAutoPopulateCandidate && allowed.contains f.name).map
    Field.name

/-- A request whose allowed fields are marked as filled in by clients. -/
def markPopulated (allowed : List String) (request : Message) : Message :=
  { request with
    fields := request.fields.map fun f =>
      if f.isAutoPopulateCandidate && allowed.contains f.name then { f with autoPopulated := true }
      else f }

/-- The fields that the configuration allows clients to fill in for a method. -/
def allowedFields (config : Option ServiceConfig) (id : String) : List String :=
  match config with
  | some c => c.autoPopulatedFields id
  | none => []

/-- Records which fields of its request clients fill in for the method with an ID; a frozen table
has none. -/
def recordPopulated (allowed : List String) (id requestId : String) (t : SymbolTable) :
    Nat × SymbolTable :=
  let found :=
    if t.frozen then [] else ((t.message? requestId).map (populatedFields allowed)).getD []
  let t := (t.editMessage? requestId (markPopulated allowed)).getD t
  (found.length, (t.editMethod? id fun m => { m with autoPopulated := found }).getD t)

def operationResolves (t : SymbolTable) (m : Method) : Bool :=
  match m.operation with
  | some o => t.messages.contains o.responseTypeId && t.messages.contains o.metadataTypeId
  | none => false

/-- Enriches the method with an ID. -/
def step (config : Option ServiceConfig) (id : String) (t : SymbolTable) :
    EnrichmentCounts × SymbolTable :=
  match t.method? id with
  | none => (.zero, t)
  | some m =>
      let (pageable, t) :=
        match pagination? t m with
        | some (token, page) => (1, recordPagination id m.outputTypeId token page t)
        | none => (0, t)
      let (populated, t) := recordPopulated (allowedFields config id) id m.inputTypeId t
      (⟨pageable, populated, if operationResolves t m then 1 else 0⟩, t)

def run (config : Option ServiceConfig) :
    List String → SymbolTable → EnrichmentCounts × SymbolTable
  | [], t => (.zero, t)
  | id :: ids, t =>
      let (here, t) := step config id t
      let (there, t) := run config ids t
      (here.add there, t)

end Enrichment

namespace Api

/-- The IDs of the methods of all services, in order. -/
def methodIds (a : Api) : List String := a.serviceList.flatMap (·.methods)

/-- Enriches every method of every service. -/
def enrich (config : Option ServiceConfig) (a : Api) : EnrichmentCounts × Api :=
  let (counts, table) := Enrichment.run config a.methodIds a.table
  (counts, { a with table })

end Api

end ServiceModel
