import ServiceModel.Enrichment
import ServiceModel.Proofs.Coherence
import ServiceModel.Proofs.Resolution

/-!
What enrichment keeps.  It only ever writes down what lists are paged by and which fields clients fill
in, so below these marks every entity stays what it was: a closed model stays closed.  The marks
themselves name fields that were found, so a coherent table stays coherent.
-/

namespace ServiceModel

/-! ### Skeletons -/

/-- A message without the marks of enrichment. -/
def Message.skeleton (m : Message) : Message :=
  { m with
    pagination := none
    fields := m.fields.map fun f => { f with autoPopulated := false } }

/-- A method without the marks of enrichment. -/
def Method.skeleton (m : Method) : Method := { m with pagination := none, autoPopulated := [] }

theorem Message.fieldNames_skeleton (m : Message) : m.skeleton.fieldNames = m.fieldNames := by
  rw [fieldNames, skeleton, List.map_map]
  rfl

/-- Messages with the same skeleton name the same declarations, members and fields. -/
theorem Message.eq_of_skeleton {m m' : Message} (h : m'.skeleton = m.skeleton) :
    m'.messages = m.messages ∧ m'.enums = m.enums ∧ m'.oneOfs = m.oneOfs ∧
      m'.fieldNames = m.fieldNames := by
  have hnames : m'.fieldNames = m.fieldNames := by
    rw [← fieldNames_skeleton, h, fieldNames_skeleton]
  simp only [skeleton, Message.mk.injEq] at h
  obtain ⟨-, -, -, -, -, -, hmessages, henums, honeOfs, -, -, -⟩ := h
  exact ⟨hmessages, henums, honeOfs, hnames⟩

/-- Methods with the same skeleton have the same source and request. -/
theorem Method.eq_of_skeleton {m m' : Method} (h : m'.skeleton = m.skeleton) :
    m'.sourceServiceId = m.sourceServiceId ∧ m'.inputTypeId = m.inputTypeId := by
  simp only [skeleton, Method.mk.injEq] at h
  exact ⟨h.2.2.2.2.2.2.2.2.2.2.2.2.2.1, h.2.2.2.2.1⟩

theorem Message.resolves_skeleton {t : SymbolTable} {m : Message} :
    m.skeleton.Resolves t ↔ m.Resolves t := by
  constructor
  · rintro ⟨htypes, hparent⟩
    exact ⟨fun f hf => htypes { f with autoPopulated := false } (List.mem_map.2 ⟨f, hf, rfl⟩),
      hparent⟩
  · rintro ⟨htypes, hparent⟩
    refine ⟨fun g hg => ?_, hparent⟩
    obtain ⟨f, hf, rfl⟩ := List.mem_map.1 hg
    exact htypes f hf

theorem Method.resolves_skeleton {t : SymbolTable} {m : Method} :
    m.skeleton.Resolves t ↔ m.Resolves t :=
  ⟨fun ⟨h₁, h₂, h₃, h₄⟩ => ⟨h₁, h₂, h₃, h₄⟩, fun ⟨h₁, h₂, h₃, h₄⟩ => ⟨h₁, h₂, h₃, h₄⟩⟩

namespace SymbolTable

/-- Two tables that differ in the marks of enrichment alone. -/
structure Alike (t t' : SymbolTable) : Prop where
  messages : ∀ id, (t'.message? id).map Message.skeleton = (t.message? id).map Message.skeleton
  methods : ∀ id, (t'.method? id).map Method.skeleton = (t.method? id).map Method.skeleton
  enums : t'.enums = t.enums
  services : t'.services = t.services

namespace Alike

variable {t t' t'' : SymbolTable}

theorem refl (t : SymbolTable) : t.Alike t := ⟨fun _ => rfl, fun _ => rfl, rfl, rfl⟩

theorem trans (h : t.Alike t') (h' : t'.Alike t'') : t.Alike t'' where
  messages := fun id => (h'.messages id).trans (h.messages id)
  methods := fun id => (h'.methods id).trans (h.methods id)
  enums := h'.enums.trans h.enums
  services := h'.services.trans h.services

theorem contains_message (h : t.Alike t') (id : String) :
    t'.messages.contains id = t.messages.contains id := by
  have hsome := congrArg Option.isSome (h.messages id)
  rw [Option.isSome_map, Option.isSome_map] at hsome
  exact hsome

theorem contains_method (h : t.Alike t') (id : String) :
    t'.methods.contains id = t.methods.contains id := by
  have hsome := congrArg Option.isSome (h.methods id)
  rw [Option.isSome_map, Option.isSome_map] at hsome
  exact hsome

/-- Behind each message stands one with the same skeleton. -/
theorem exists_message (h : t.Alike t') {id : String} {m' : Message}
    (hm : t'.message? id = some m') :
    ∃ m, t.message? id = some m ∧ m.skeleton = m'.skeleton := by
  have hid := h.messages id
  rw [hm] at hid
  exact Option.map_eq_some_iff.1 hid.symm

/-- Behind each method stands one with the same skeleton. -/
theorem exists_method (h : t.Alike t') {id : String} {m' : Method}
    (hm : t'.method? id = some m') :
    ∃ m, t.method? id = some m ∧ m.skeleton = m'.skeleton := by
  have hid := h.methods id
  rw [hm] at hid
  exact Option.map_eq_some_iff.1 hid.symm

theorem symm (h : t.Alike t') : t'.Alike t where
  messages := fun id => (h.messages id).symm
  methods := fun id => (h.methods id).symm
  enums := h.enums.symm
  services := h.services.symm

theorem message_resolves (h : t.Alike t') {m : Message} (hm : m.Resolves t) : m.Resolves t' := by
  refine ⟨fun f hf => ⟨fun hwire => ?_, fun hwire => ?_⟩, fun p hp => ?_⟩
  · rw [h.contains_message]
    exact (hm.types f hf).1 hwire
  · rw [h.enums]
    exact (hm.types f hf).2 hwire
  · rw [h.contains_message]
    exact hm.parent p hp

theorem method_resolves (h : t.Alike t') {m : Method} (hm : m.Resolves t) : m.Resolves t' := by
  refine ⟨?_, ?_, ?_, fun o ho => ?_⟩
  · rw [h.services]
    exact hm.service
  · rw [h.contains_message]
    exact hm.input
  · rw [h.contains_message]
    exact hm.output
  · rw [h.contains_message, h.contains_message]
    exact hm.operation o ho

/-- The fields of a request keep their names. -/
theorem hasRequestField (h : t.Alike t') {m : Method} {name : String}
    (hm : m.HasRequestField t name) : m.HasRequestField t' name := by
  obtain ⟨request, hrequest, hname⟩ := hm
  obtain ⟨request', hrequest', hskeleton⟩ := h.symm.exists_message hrequest
  refine ⟨request', hrequest', ?_⟩
  rw [← Message.fieldNames_skeleton, hskeleton, Message.fieldNames_skeleton]
  exact hname

end Alike

end SymbolTable

/-- A closed model stays closed when the marks of enrichment change. -/
theorem Api.Closed.of_alike {a : Api} {t : SymbolTable} (h : a.Closed) (ht : a.table.Alike t) :
    Api.Closed { a with table := t } := by
  refine ⟨fun id m hm => ?_, fun id m hm => ?_, fun id s hs n hn => ?_, fun id hid => ?_,
    fun id hid => ?_, fun id hid => ?_⟩
  · obtain ⟨n, hn, hskeleton⟩ := ht.exists_message hm
    rw [← Message.resolves_skeleton, ← hskeleton, Message.resolves_skeleton]
    exact ht.message_resolves (h.messages id n hn)
  · obtain ⟨n, hn, hskeleton⟩ := ht.exists_method hm
    rw [← Method.resolves_skeleton, ← hskeleton, Method.resolves_skeleton]
    exact ht.method_resolves (h.methods id n hn)
  · rw [ht.contains_method]
    rw [SymbolTable.service?, ht.services] at hs
    exact h.listedMethods id s hs n hn
  · rw [ht.services]
    exact h.listedServices id hid
  · rw [ht.contains_message]
    exact h.listedMessages id hid
  · rw [ht.enums]
    exact h.listedEnums id hid

/-! ### Edits -/

namespace SymbolTable

variable {t : SymbolTable} {id : String}

/-- An edit of a message that fails changes nothing. -/
theorem editMessage?_getD (t : SymbolTable) (id : String) (f : Message → Message) :
    (t.editMessage? id f).getD t = t ∨
      (t.editMessage? id f).getD t = { t with messages := t.messages.modify id f } := by
  unfold editMessage?
  split
  · exact Or.inr rfl
  · exact Or.inl rfl

/-- An edit of a method that fails changes nothing. -/
theorem editMethod?_getD (t : SymbolTable) (id : String) (f : Method → Method) :
    (t.editMethod? id f).getD t = t ∨
      (t.editMethod? id f).getD t = { t with methods := t.methods.modify id f } := by
  unfold editMethod?
  split
  · exact Or.inr rfl
  · exact Or.inl rfl

theorem alike_editMessage (t : SymbolTable) (id : String) {f : Message → Message}
    (hf : ∀ m, (f m).skeleton = m.skeleton) : t.Alike ((t.editMessage? id f).getD t) := by
  rcases editMessage?_getD t id f with h | h
  · rw [h]
    exact Alike.refl t
  · rw [h]
    exact ⟨Catalog.map_get?_modify hf, fun _ => rfl, rfl, rfl⟩

theorem alike_editMethod (t : SymbolTable) (id : String) {f : Method → Method}
    (hf : ∀ m, (f m).skeleton = m.skeleton) : t.Alike ((t.editMethod? id f).getD t) := by
  rcases editMethod?_getD t id f with h | h
  · rw [h]
    exact Alike.refl t
  · rw [h]
    exact ⟨fun _ => rfl, Catalog.map_get?_modify hf, rfl, rfl⟩

theorem method?_editMessage (t : SymbolTable) (id : String) (f : Message → Message)
    (other : String) : ((t.editMessage? id f).getD t).method? other = t.method? other := by
  rcases editMessage?_getD t id f with h | h
  · rw [h]
  · rw [h]
    rfl

theorem message?_editMethod (t : SymbolTable) (id : String) (f : Method → Method)
    (other : String) : ((t.editMethod? id f).getD t).message? other = t.message? other := by
  rcases editMethod?_getD t id f with h | h
  · rw [h]
  · rw [h]
    rfl

theorem message?_of_editMessage {f : Message → Message} {other : String} {m' : Message}
    (h : ((t.editMessage? id f).getD t).message? other = some m') :
    t.message? other = some m' ∨ ∃ m, t.message? id = some m ∧ m' = f m := by
  rcases editMessage?_getD t id f with heq | heq
  · rw [heq] at h
    exact Or.inl h
  · rw [heq] at h
    exact Catalog.get?_modify_eq_some h

theorem method?_of_editMethod {f : Method → Method} {other : String} {m' : Method}
    (h : ((t.editMethod? id f).getD t).method? other = some m') :
    t.method? other = some m' ∨ ∃ m, t.method? id = some m ∧ m' = f m := by
  rcases editMethod?_getD t id f with heq | heq
  · rw [heq] at h
    exact Or.inl h
  · rw [heq] at h
    exact Catalog.get?_modify_eq_some h

/-- A message stays coherent where another stands in its place that differs in its marks, if its
pages are among its fields. -/
theorem Alike.message_coherent {t' : SymbolTable} (h : t.Alike t') {m m' : Message}
    (hm : m.Coherent t) (hskeleton : m'.skeleton = m.skeleton)
    (hpages : ∀ p, m'.pagination = some p →
      p.nextPageToken ∈ m'.fieldNames ∧ p.item ∈ m'.fieldNames) :
    m'.Coherent t' := by
  obtain ⟨hmessages, henums, honeOfs, hnames⟩ := Message.eq_of_skeleton hskeleton
  refine ⟨fun n hn => ?_, fun n hn => ?_, fun o ho n hn => ?_, hpages⟩
  · rw [h.contains_message]
    exact hm.nestedMessages n (hmessages ▸ hn)
  · rw [h.enums]
    exact hm.nestedEnums n (henums ▸ hn)
  · rw [hnames]
    exact hm.members o (honeOfs ▸ ho) n hn

/-- A method stays coherent where another stands in its place that differs in its marks, if those are
among the fields of its request. -/
theorem Alike.method_coherent {t' : SymbolTable} (h : t.Alike t') {m m' : Method}
    (hm : m.Coherent t) (hskeleton : m'.skeleton = m.skeleton)
    (hpagination : ∀ n, m'.pagination = some n → m.HasRequestField t n)
    (hpopulated : ∀ n ∈ m'.autoPopulated, m.HasRequestField t n) : m'.Coherent t' := by
  obtain ⟨hsource, hinput⟩ := Method.eq_of_skeleton hskeleton
  have hfield : ∀ n, m.HasRequestField t n → m'.HasRequestField t' n := by
    intro n hn
    rw [Method.HasRequestField, hinput]
    exact h.hasRequestField hn
  refine ⟨fun s hs => ?_, fun n hn => hfield n (hpagination n hn),
    fun n hn => hfield n (hpopulated n hn)⟩
  rw [h.services]
  exact hm.source s (hsource ▸ hs)

theorem alike_freeze (t : SymbolTable) : t.Alike t.freeze :=
  ⟨fun _ => rfl, fun _ => rfl, rfl, rfl⟩

theorem Coherent.freeze (h : t.Coherent) : t.freeze.Coherent := by
  refine ⟨fun other m hm => ?_, h.enumParents, fun other m hm => ?_⟩
  · have hm := h.messages other m hm
    exact (alike_freeze t).message_coherent hm rfl hm.pagination
  · have hm := h.methods other m hm
    exact (alike_freeze t).method_coherent hm rfl hm.pagination hm.autoPopulated

/-- Editing the marks of a message keeps a table coherent if its pages are among its fields. -/
theorem Coherent.editMessage (h : t.Coherent) {f : Message → Message}
    (hf : ∀ m, (f m).skeleton = m.skeleton)
    (hpages : ∀ m, t.message? id = some m → ∀ p, (f m).pagination = some p →
      p.nextPageToken ∈ m.fieldNames ∧ p.item ∈ m.fieldNames) :
    ((t.editMessage? id f).getD t).Coherent := by
  have halike : t.Alike ((t.editMessage? id f).getD t) := alike_editMessage t id hf
  refine ⟨fun other m' hm' => ?_, fun other e he p hp => ?_, fun other m' hm' => ?_⟩
  · rcases message?_of_editMessage hm' with hm | ⟨m, hm, rfl⟩
    · have hm := h.messages other m' hm
      exact halike.message_coherent hm rfl hm.pagination
    · refine halike.message_coherent (h.messages id m hm) (hf m) fun p hp => ?_
      rw [← Message.fieldNames_skeleton, hf, Message.fieldNames_skeleton]
      exact hpages m hm p hp
  · rw [halike.contains_message]
    rw [enum?, halike.enums] at he
    exact h.enumParents other e he p hp
  · rw [method?_editMessage] at hm'
    have hm := h.methods other m' hm'
    exact halike.method_coherent hm rfl hm.pagination hm.autoPopulated

/-- Editing the marks of a method keeps a table coherent if they are among the fields of its
request. -/
theorem Coherent.editMethod (h : t.Coherent) {f : Method → Method}
    (hf : ∀ m, (f m).skeleton = m.skeleton)
    (hmarks : ∀ m, t.method? id = some m →
      (∀ n, (f m).pagination = some n → m.HasRequestField t n) ∧
        ∀ n ∈ (f m).autoPopulated, m.HasRequestField t n) :
    ((t.editMethod? id f).getD t).Coherent := by
  have halike : t.Alike ((t.editMethod? id f).getD t) := alike_editMethod t id hf
  refine ⟨fun other m' hm' => ?_, fun other e he p hp => ?_, fun other m' hm' => ?_⟩
  · rw [message?_editMethod] at hm'
    have hm := h.messages other m' hm'
    exact halike.message_coherent hm rfl hm.pagination
  · rw [halike.contains_message]
    rw [enum?, halike.enums] at he
    exact h.enumParents other e he p hp
  · rcases method?_of_editMethod hm' with hm | ⟨m, hm, rfl⟩
    · have hm := h.methods other m' hm
      exact halike.method_coherent hm rfl hm.pagination hm.autoPopulated
    · exact halike.method_coherent (h.methods id m hm) (hf m) (hmarks m hm).1 (hmarks m hm).2

end SymbolTable

/-! ### Marks -/

namespace Enrichment

variable {t : SymbolTable} {id requestId responseId : String}

/-- A page token is a field of the request; what a response is paged by are fields of its own. -/
theorem pagination?_eq_some {m : Method} {token : String} {page : PageFields}
    (h : pagination? t m = some (token, page)) :
    m.HasRequestField t token ∧
      ∃ response, t.message? m.outputTypeId = some response ∧
        page.nextPageToken ∈ response.fieldNames ∧ page.item ∈ response.fieldNames := by
  unfold pagination? at h
  simp only [Option.bind_eq_bind, Option.bind_eq_some_iff] at h
  obtain ⟨request, hrequest, response, hresponse, token', htoken, page', hpage, heq⟩ := h
  cases heq
  constructor
  · refine ⟨request, hrequest, ?_⟩
    rw [requestToken?] at htoken
    split at htoken
    · obtain ⟨f, hf, rfl⟩ := Option.map_eq_some_iff.1 htoken
      exact List.mem_map_of_mem (List.mem_of_find?_eq_some hf)
    · cases htoken
  · refine ⟨response, hresponse, ?_⟩
    unfold pageFields? at hpage
    simp only [Option.bind_eq_bind, Option.bind_eq_some_iff] at hpage
    obtain ⟨next, hnext, item, hitem, heq⟩ := hpage
    cases heq
    exact ⟨List.mem_map_of_mem (List.mem_of_find?_eq_some hnext),
      List.mem_map_of_mem (List.mem_of_find?_eq_some hitem)⟩

theorem skeleton_markPopulated (allowed : List String) (m : Message) :
    (markPopulated allowed m).skeleton = m.skeleton := by
  have hfields : ∀ f : Field, { (if f.isAutoPopulateCandidate && allowed.contains f.name
      then { f with autoPopulated := true } else f) with autoPopulated := false } =
      { f with autoPopulated := false } := by
    intro f
    split <;> rfl
  simp only [markPopulated, Message.skeleton, List.map_map]
  congr 1
  exact List.map_congr_left fun f _ => hfields f

/-- The edit that says what a response is paged by. -/
theorem alike_pageResponse (t : SymbolTable) (responseId : String) (page : PageFields) :
    t.Alike ((t.editMessage? responseId fun r => { r with pagination := some page }).getD t) :=
  SymbolTable.alike_editMessage t responseId fun _ => rfl

theorem recordPagination_alike {token : String} {page : PageFields} :
    t.Alike (recordPagination id responseId token page t) := by
  refine (alike_pageResponse t responseId page).trans ?_
  exact SymbolTable.alike_editMethod _ id fun _ => rfl

theorem recordPopulated_alike {allowed : List String} :
    t.Alike (recordPopulated allowed id requestId t).2 := by
  refine (SymbolTable.alike_editMessage t requestId (skeleton_markPopulated allowed)).trans ?_
  exact SymbolTable.alike_editMethod _ id fun _ => rfl

/-- Pages that were found are fields of the request and the response. -/
theorem recordPagination_coherent {m : Method} {token : String} {page : PageFields}
    (h : t.Coherent) (hm : t.method? id = some m) (hp : pagination? t m = some (token, page)) :
    (recordPagination id m.outputTypeId token page t).Coherent := by
  obtain ⟨htoken, response, hresponse, hpage⟩ := pagination?_eq_some hp
  have hpaged : ((t.editMessage? m.outputTypeId fun r => { r with pagination := some page }).getD
      t).Coherent := by
    refine h.editMessage (fun _ => rfl) fun r hr p hp => ?_
    rw [hresponse] at hr
    cases hr
    cases hp
    exact hpage
  refine hpaged.editMethod (fun _ => rfl) fun n hn => ?_
  rw [SymbolTable.method?_editMessage, hm] at hn
  cases hn
  have halike := alike_pageResponse t m.outputTypeId page
  refine ⟨fun name hname => ?_, fun name hname => ?_⟩
  · cases hname
    exact halike.hasRequestField htoken
  · exact halike.hasRequestField ((h.methods id m hm).autoPopulated name hname)

/-- Fields that clients fill in are fields of the request. -/
theorem recordPopulated_coherent {allowed : List String} {m : Method} (h : t.Coherent)
    (hm : t.method? id = some m) : (recordPopulated allowed id m.inputTypeId t).2.Coherent := by
  have halike := SymbolTable.alike_editMessage t m.inputTypeId (skeleton_markPopulated allowed)
  have hmarked : ((t.editMessage? m.inputTypeId (markPopulated allowed)).getD t).Coherent := by
    refine h.editMessage (skeleton_markPopulated allowed) fun r hr p hp => ?_
    exact (h.messages _ r hr).pagination p hp
  refine hmarked.editMethod (fun _ => rfl) fun n hn => ?_
  rw [SymbolTable.method?_editMessage, hm] at hn
  cases hn
  refine ⟨fun name hname => ?_, fun name hname => ?_⟩
  · exact halike.hasRequestField ((h.methods id m hm).pagination name hname)
  · refine halike.hasRequestField ?_
    dsimp only at hname
    split at hname
    · cases hname
    · cases hrequest : t.message? m.inputTypeId with
      | none =>
          rw [hrequest] at hname
          cases hname
      | some request =>
          rw [hrequest] at hname
          obtain ⟨f, hf, rfl⟩ := List.mem_map.1 hname
          exact ⟨request, hrequest, List.mem_map_of_mem (List.mem_filter.1 hf).1⟩

/-! ### Runs -/

variable {config : Option ServiceConfig}

theorem step_alike (config : Option ServiceConfig) (id : String) (t : SymbolTable) :
    t.Alike (step config id t).2 := by
  unfold step
  split
  · exact SymbolTable.Alike.refl t
  next m hm =>
    cases pagination? t m with
    | none => exact recordPopulated_alike
    | some found => exact recordPagination_alike.trans recordPopulated_alike

theorem run_alike (config : Option ServiceConfig) (ids : List String) (t : SymbolTable) :
    t.Alike (run config ids t).2 := by
  induction ids generalizing t with
  | nil => exact SymbolTable.Alike.refl t
  | cons id ids ih => exact (step_alike config id t).trans (ih _)

theorem step_coherent (h : t.Coherent) : (step config id t).2.Coherent := by
  unfold step
  split
  · exact h
  next m hm =>
    cases hp : pagination? t m with
    | none => exact recordPopulated_coherent h hm
    | some found =>
        obtain ⟨token, page⟩ := found
        have hpaged := recordPagination_coherent h hm hp
        have halike : t.Alike (recordPagination id m.outputTypeId token page t) :=
          recordPagination_alike
        obtain ⟨m', hm', hskeleton⟩ := halike.symm.exists_method hm
        have hinput := (Method.eq_of_skeleton hskeleton).2
        rw [← hinput]
        exact recordPopulated_coherent hpaged hm'

theorem run_coherent (ids : List String) (h : t.Coherent) : (run config ids t).2.Coherent := by
  induction ids generalizing t with
  | nil => exact h
  | cons id ids ih => exact ih (step_coherent h)

end Enrichment

namespace Api

theorem Closed.enrich {a : Api} (h : a.Closed) (config : Option ServiceConfig) :
    (a.enrich config).2.Closed :=
  h.of_alike (Enrichment.run_alike config a.methodIds a.table)

theorem enrich_coherent {a : Api} (h : a.table.Coherent) (config : Option ServiceConfig) :
    (a.enrich config).2.table.Coherent :=
  Enrichment.run_coherent a.methodIds h

end Api

end ServiceModel
