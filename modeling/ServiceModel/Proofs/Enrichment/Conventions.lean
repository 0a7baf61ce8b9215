import ServiceModel.Proofs.Enrichment

/-!
The conventions that enrichment looks for, told without the order in which it looks: when a method
lists something page by page (AIP-4233), what its response is paged by, and which fields of its
request clients fill in.  None of them reads a mark that enrichment leaves.
-/

namespace ServiceModel

/-- The first member of a list that a condition holds of. -/
def First {α : Type} (P : α → Prop) (xs : List α) (x : α) : Prop :=
  ∃ before after, xs = before ++ x :: after ∧ P x ∧ ∀ y ∈ before, ¬ P y

theorem find?_eq_some_iff_first {α : Type} {p : α → Bool} {P : α → Prop} (hp : ∀ x, p x = true ↔ P x)
    {xs : List α} {x : α} : xs.find? p = some x ↔ First P xs x := by
  rw [List.find?_eq_some_iff_append]
  constructor
  · rintro ⟨hx, before, after, hxs, hbefore⟩
    refine ⟨before, after, hxs, (hp x).1 hx, fun y hy hP => ?_⟩
    have hy := hbefore y hy
    rw [(hp y).2 hP] at hy
    cases hy
  · rintro ⟨before, after, hxs, hx, hbefore⟩
    refine ⟨(hp x).2 hx, before, after, hxs, fun y hy => ?_⟩
    rw [Bool.not_eq_true', Bool.eq_false_iff]
    exact fun hpy => hbefore y hy ((hp y).1 hpy)

/-! ### Fields -/

namespace Field

/-- A single string: neither a list nor a map. -/
structure SingularString (f : Field) : Prop where
  string : f.wireType = .string
  single : f.repeated = false
  plain : f.isMap = false

/-- A field for the size of a page: a small integer, or under the older names also a wrapped one. -/
structure SizesPages (f : Field) : Prop where
  single : f.repeated = false
  plain : f.isMap = false
  named : (f.name ∈ ["page_size", "pageSize"] ∧ (f.wireType = .int32 ∨ f.wireType = .uint32)) ∨
    f.name ∈ ["max_results", "maxResults"] ∧ (f.wireType = .int32 ∨ f.wireType = .uint32 ∨
      f.wireType = .message ∧
        f.typeId ∈ [".google.protobuf.Int32Value", ".google.protobuf.UInt32Value"])

def RequestsPage (f : Field) : Prop := f.name ∈ ["page_token", "pageToken"] ∧ f.SingularString

def AnnouncesPage (f : Field) : Prop :=
  f.name ∈ ["next_page_token", "nextPageToken"] ∧ f.SingularString

structure ListsItems (f : Field) : Prop where
  list : f.repeated = true
  plain : f.isMap = false
  message : f.wireType = .message

/-- A single string in the UUID format that need not be given. -/
structure MayBeFilled (f : Field) : Prop where
  string : f.SingularString
  uuid : f.format = some .uuid4
  free : .required ∉ f.behavior

variable {f : Field}

theorem isSingularString_iff : f.isSingularString = true ↔ f.SingularString := by
  simp only [isSingularString, Bool.and_eq_true, beq_iff_eq, Bool.not_eq_true']
  constructor
  · rintro ⟨⟨hstring, hsingle⟩, hplain⟩
    exact ⟨hstring, hsingle, hplain⟩
  · rintro ⟨hstring, hsingle, hplain⟩
    exact ⟨⟨hstring, hsingle⟩, hplain⟩

theorem isAutoPopulateCandidate_iff : f.isAutoPopulateCandidate = true ↔ f.MayBeFilled := by
  simp only [isAutoPopulateCandidate, Bool.and_eq_true, isSingularString_iff, beq_iff_eq,
    Bool.not_eq_true', isRequired, ← Bool.not_eq_true, List.contains_iff_mem]
  constructor
  · rintro ⟨⟨hstring, huuid⟩, hfree⟩
    exact ⟨hstring, huuid, hfree⟩
  · rintro ⟨hstring, huuid, hfree⟩
    exact ⟨⟨hstring, huuid⟩, hfree⟩

end Field

namespace Enrichment

variable {f : Field}

theorem isSmallInteger_iff :
    isSmallInteger f = true ↔ f.wireType = .int32 ∨ f.wireType = .uint32 := by
  simp [isSmallInteger]

theorem sizeWrappers_eq :
    sizeWrappers = [".google.protobuf.Int32Value", ".google.protobuf.UInt32Value"] := by
  decide

theorem not_mem_maxResultsNames {name : String} (h : name ∈ pageSizeNames) :
    name ∉ maxResultsNames := by
  simp only [pageSizeNames, List.mem_cons, List.not_mem_nil, or_false] at h
  rcases h with rfl | rfl <;> decide

theorem isPageSize_iff : isPageSize f = true ↔ f.SizesPages := by
  -- The names of the two kinds are apart, so each kind excludes what the other admits.
  have hwrapped : (isSmallInteger f || (f.wireType == .message && sizeWrappers.contains f.typeId)) =
      true ↔ f.wireType = .int32 ∨ f.wireType = .uint32 ∨ f.wireType = .message ∧
        f.typeId ∈ [".google.protobuf.Int32Value", ".google.protobuf.UInt32Value"] := by
    rw [Bool.or_eq_true, isSmallInteger_iff, Bool.and_eq_true, beq_iff_eq, List.contains_iff_mem,
      sizeWrappers_eq, or_assoc]
  rw [isPageSize]
  split
  next hlist =>
    refine ⟨nofun, fun h => ?_⟩
    rw [h.single, h.plain] at hlist
    cases hlist
  next hlist =>
    obtain ⟨hsingle, hplain⟩ : f.repeated = false ∧ f.isMap = false := by simpa using hlist
    split
    next hname =>
      rw [List.contains_iff_mem] at hname
      rw [isSmallInteger_iff]
      constructor
      · intro h
        exact ⟨hsingle, hplain, Or.inl ⟨hname, h⟩⟩
      · rintro ⟨-, -, ⟨-, h⟩ | ⟨holder, -⟩⟩
        · exact h
        · exact absurd holder (not_mem_maxResultsNames hname)
    next hname =>
      rw [List.contains_iff_mem] at hname
      split
      next holder =>
        rw [List.contains_iff_mem] at holder
        rw [hwrapped]
        constructor
        · intro h
          exact ⟨hsingle, hplain, Or.inr ⟨holder, h⟩⟩
        · rintro ⟨-, -, ⟨hnew, -⟩ | ⟨-, h⟩⟩
          · exact absurd hnew hname
          · exact h
      next holder =>
        rw [List.contains_iff_mem] at holder
        refine ⟨nofun, ?_⟩
        rintro ⟨-, -, ⟨hnew, -⟩ | ⟨hold, -⟩⟩
        · exact absurd hnew hname
        · exact absurd hold holder

theorem isPageToken_iff : isPageToken f = true ↔ f.RequestsPage := by
  rw [isPageToken, Bool.and_eq_true, Field.isSingularString_iff, List.contains_iff_mem]
  rfl

theorem isNextPageToken_iff : isNextPageToken f = true ↔ f.AnnouncesPage := by
  rw [isNextPageToken, Bool.and_eq_true, Field.isSingularString_iff, List.contains_iff_mem]
  rfl

theorem isItemList_iff : isItemList f = true ↔ f.ListsItems := by
  simp only [isItemList, Bool.and_eq_true, Bool.not_eq_true', beq_iff_eq]
  constructor
  · rintro ⟨⟨hlist, hplain⟩, hmessage⟩
    exact ⟨hlist, hplain, hmessage⟩
  · rintro ⟨hlist, hplain, hmessage⟩
    exact ⟨⟨hlist, hplain⟩, hmessage⟩

end Enrichment

/-! ### Messages and methods -/

/-- What a response is paged by: its token for the next page, and its first list of messages. -/
def Message.PagedBy (response : Message) (page : PageFields) : Prop :=
  ∃ next item, First Field.AnnouncesPage response.fields next ∧
    First Field.ListsItems response.fields item ∧ page = ⟨next.name, item.name⟩

/-- A request gives the size of a page, and has a token. -/
def Message.PagesBy (request : Message) (token : String) : Prop :=
  (∃ f ∈ request.fields, f.SizesPages) ∧
    ∃ f, First Field.RequestsPage request.fields f ∧ token = f.name

/-- The method lists something page by page, with a token of its request. -/
def Method.Lists (t : SymbolTable) (m : Method) (token : String) : Prop :=
  ∃ request response page, t.message? m.inputTypeId = some request ∧
    t.message? m.outputTypeId = some response ∧ request.PagesBy token ∧ response.PagedBy page

/-- The configuration lets clients fill in a field of the method with an ID: the first settings for
the method say so. -/
def Allows (config : Option ServiceConfig) (id name : String) : Prop :=
  ∃ c s, config = some c ∧ First (fun s : MethodSettings => s.selector = selectorOf id)
    c.methodSettings s ∧ name ∈ s.autoPopulatedFields

def Field.FilledFor (config : Option ServiceConfig) (id : String) (f : Field) : Prop :=
  f.MayBeFilled ∧ Allows config id f.name

inductive Field.Picked (P : Field → Prop) : List Field → List String → Prop
  | nil : Picked P [] []
  | take {f : Field} {fs : List Field} {names : List String} (hf : P f) (hfs : Picked P fs names) :
      Picked P (f :: fs) (f.name :: names)
  | skip {f : Field} {fs : List Field} {names : List String} (hf : ¬ P f)
      (hfs : Picked P fs names) : Picked P (f :: fs) names

/-- The fields of its request that clients fill in for the method with an ID; of a request that is
not there, none. -/
def Method.Fills (t : SymbolTable) (config : Option ServiceConfig) (id : String) (m : Method)
    (names : List String) : Prop :=
  (∃ request, t.message? m.inputTypeId = some request ∧
    Field.Picked (Field.FilledFor config id) request.fields names) ∨
  (t.message? m.inputTypeId = none ∧ names = [])

/-- The types of the method's operation are there. -/
def Method.Runs (t : SymbolTable) (m : Method) : Prop :=
  ∃ o, m.operation = some o ∧ (∃ r, t.message? o.responseTypeId = some r) ∧
    ∃ r, t.message? o.metadataTypeId = some r

namespace Enrichment

variable {t : SymbolTable} {m : Method} {f : Field} {config : Option ServiceConfig} {id : String}

theorem pageFields?_eq_some_iff {response : Message} {page : PageFields} :
    pageFields? response = some page ↔ response.PagedBy page := by
  simp only [pageFields?, Option.bind_eq_bind, Option.bind_eq_some_iff,
    find?_eq_some_iff_first fun _ => isNextPageToken_iff,
    find?_eq_some_iff_first fun _ => isItemList_iff, Option.some.injEq]
  constructor
  · rintro ⟨next, hnext, item, hitem, rfl⟩
    exact ⟨next, item, hnext, hitem, rfl⟩
  · rintro ⟨next, item, hnext, hitem, rfl⟩
    exact ⟨next, hnext, item, hitem, rfl⟩

theorem requestToken?_eq_some_iff {request : Message} {token : String} :
    requestToken? request = some token ↔ request.PagesBy token := by
  have hsize : request.fields.any isPageSize = true ↔ ∃ f ∈ request.fields, f.SizesPages := by
    simp only [List.any_eq_true, isPageSize_iff]
  rw [requestToken?, Message.PagesBy, ← hsize]
  split
  next hany =>
    rw [Option.map_eq_some_iff, and_iff_right hany]
    refine exists_congr fun f => ?_
    rw [find?_eq_some_iff_first fun _ => isPageToken_iff, eq_comm (a := f.name)]
  next hany =>
    constructor
    · intro h
      cases h
    · intro h
      exact absurd h.1 hany

theorem pagination?_eq_some_iff {token : String} {page : PageFields} :
    pagination? t m = some (token, page) ↔
      ∃ request response, t.message? m.inputTypeId = some request ∧
        t.message? m.outputTypeId = some response ∧ request.PagesBy token ∧
          response.PagedBy page := by
  simp only [pagination?, Option.bind_eq_bind, Option.bind_eq_some_iff, requestToken?_eq_some_iff,
    pageFields?_eq_some_iff, Option.some.injEq, Prod.mk.injEq]
  constructor
  · rintro ⟨request, hrequest, response, hresponse, token, htoken, page, hpage, rfl, rfl⟩
    exact ⟨request, response, hrequest, hresponse, htoken, hpage⟩
  · rintro ⟨request, response, hrequest, hresponse, htoken, hpage⟩
    exact ⟨request, hrequest, response, hresponse, token, htoken, page, hpage, rfl, rfl⟩

theorem lists_iff {token : String} :
    m.Lists t token ↔ ∃ page, pagination? t m = some (token, page) := by
  simp only [pagination?_eq_some_iff]
  constructor
  · rintro ⟨request, response, page, h⟩
    exact ⟨page, request, response, h⟩
  · rintro ⟨page, request, response, h⟩
    exact ⟨request, response, page, h⟩

theorem contains_allowedFields_iff {name : String} :
    (allowedFields config id).contains name = true ↔ Allows config id name := by
  rw [List.contains_iff_mem]
  cases config with
  | none => simp [allowedFields, Allows]
  | some c =>
      have hfirst : ∀ s, c.methodSettings.find? (fun s => s.selector == selectorOf id) = some s ↔
          First (fun s => s.selector = selectorOf id) c.methodSettings s :=
        fun s => find?_eq_some_iff_first fun s => beq_iff_eq
      simp only [allowedFields, ServiceConfig.autoPopulatedFields, Allows]
      cases hfind : c.methodSettings.find? fun s => s.selector == selectorOf id with
      | none =>
          constructor
          · intro h
            cases h
          · rintro ⟨c', s, hc, hs, -⟩
            cases hc
            rw [← hfirst, hfind] at hs
            cases hs
      | some s =>
          constructor
          · intro h
            exact ⟨c, s, rfl, (hfirst s).1 hfind, h⟩
          · rintro ⟨c', s', hc, hs, h⟩
            cases hc
            rw [← hfirst, hfind] at hs
            cases hs
            exact h

theorem filledFor_iff : (f.isAutoPopulateCandidate && (allowedFields config id).contains f.name) =
    true ↔ f.FilledFor config id := by
  rw [Bool.and_eq_true, Field.isAutoPopulateCandidate_iff, contains_allowedFields_iff]
  rfl

theorem picked_iff {p : Field → Bool} {P : Field → Prop} (hp : ∀ f, p f = true ↔ P f)
    {fs : List Field} {names : List String} :
    Field.Picked P fs names ↔ (fs.filter p).map Field.name = names := by
  induction fs generalizing names with
  | nil =>
      constructor
      · rintro ⟨⟩
        rfl
      · rintro rfl
        exact .nil
  | cons f fs ih =>
      constructor
      · rintro (_ | ⟨hf, hfs⟩ | ⟨hf, hfs⟩)
        · rw [List.filter_cons_of_pos ((hp f).2 hf), List.map_cons, ih.1 hfs]
        · rw [List.filter_cons_of_neg (fun h => hf ((hp f).1 h)), ih.1 hfs]
      · rintro rfl
        by_cases hf : p f = true
        · rw [List.filter_cons_of_pos hf]
          exact .take ((hp f).1 hf) (ih.2 rfl)
        · rw [List.filter_cons_of_neg hf]
          exact .skip (fun h => hf ((hp f).2 h)) (ih.2 rfl)

theorem fills_iff {names : List String} :
    m.Fills t config id names ↔
      ((t.message? m.inputTypeId).map (populatedFields (allowedFields config id))).getD [] =
        names := by
  unfold Method.Fills
  cases hrequest : t.message? m.inputTypeId with
  | none => simp [eq_comm]
  | some request =>
      simp only [Option.some.injEq, exists_eq_left', picked_iff fun _ => filledFor_iff]
      simp [populatedFields]

end Enrichment

end ServiceModel
