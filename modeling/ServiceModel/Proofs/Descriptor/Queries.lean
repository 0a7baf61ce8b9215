import ServiceModel.Proofs.Descriptor.Service
import ServiceModel.Proofs.Http

/-!
Queries of the methods of a descriptor set.  The services of a file are built when the messages of that
file and of those in front of it are resolved, but not those of the files behind it.  A method whose
request is declared in a later file, or declared again there, has the query that its request left then.
-/

namespace ServiceModel

namespace Descriptor

/-! ### Fields of declarations -/

def lastSite? (ss : List MessageSite) (id : String) : Option MessageSite :=
  (ss.filter (·.id == id)).getLast?

/-- The field names of the message that the last of some sites with an ID declares. -/
def declaredNames (ss : List MessageSite) (id : String) : List String :=
  match lastSite? ss id with
  | some s => s.descriptor.fields.map (·.name)
  | none => []

def sitesOf (fs : List FileDescriptor) : List MessageSite := fs.flatMap (·.messageSites)

theorem sitesOf_append (fs gs : List FileDescriptor) :
    sitesOf (fs ++ gs) = sitesOf fs ++ sitesOf gs := List.flatMap_append

theorem lastSite?_append (ss ss' : List MessageSite) (id : String) :
    lastSite? (ss ++ ss') id = (lastSite? ss' id).or (lastSite? ss id) := by
  unfold lastSite?
  rw [List.filter_append, List.getLast?_append]

theorem declaredNames_append_singleton (ss : List MessageSite) (s : MessageSite) (id : String) :
    declaredNames (ss ++ [s]) id =
      if s.id = id then s.descriptor.fields.map (·.name) else declaredNames ss id := by
  unfold declaredNames
  rw [lastSite?_append]
  by_cases h : s.id = id <;> simp [lastSite?, h]

theorem declaredNames_append_of_ne {ss ss' : List MessageSite} {id : String}
    (h : ∀ s ∈ ss', s.id ≠ id) : declaredNames (ss ++ ss') id = declaredNames ss id := by
  have hnone : lastSite? ss' id = none := by
    rw [lastSite?, List.getLast?_eq_none_iff, List.filter_eq_nil_iff]
    exact fun s hs => by simpa using h s hs
  rw [declaredNames, lastSite?_append, hnone, Option.none_or]
  rfl

/-! ### Tables that show some sites -/

/-- Every message of a table has its ID, and the fields that the last of some sites declares. -/
def Shows (t : SymbolTable) (ss : List MessageSite) : Prop :=
  ∀ id m, t.message? id = some m → m.id = id ∧ m.fieldNames = declaredNames ss id

variable {t t' : SymbolTable} {f : FileDescriptor} {ss : List MessageSite}

theorem shows_wellKnown : Shows .wellKnown [] := by
  intro id m hm
  obtain ⟨name, -, hname⟩ := List.mem_map.1 (Catalog.mem_of_get?_ofList hm)
  cases hname
  exact ⟨rfl, rfl⟩

theorem Shows.register (h : Shows t []) (f : FileDescriptor) : Shows (f.register t) [] := by
  intro id m hm
  rw [FileDescriptor.register_eq] at hm
  rcases Catalog.get?_foldl_insert hm with hm | hm
  · obtain ⟨s, -, heq⟩ := List.mem_map.1 hm
    cases heq
    exact ⟨rfl, rfl⟩
  · exact h id m hm

theorem shows_register (set : DescriptorSet) : Shows (set.register .wellKnown) [] := by
  rw [DescriptorSet.register]
  generalize set.files = fs
  have hstart := shows_wellKnown
  generalize SymbolTable.wellKnown = t at hstart
  induction fs generalizing t with
  | nil => exact hstart
  | cons f fs ih => exact ih _ (hstart.register f)

/-! ### Resolution -/

theorem Shows.resolve {s : MessageSite} (ht : Shows t ss) (h : s.resolve f t = .ok t') :
    Shows t' (ss ++ [s]) := by
  unfold MessageSite.resolve at h
  split at h
  · cases h
  next fields hfields =>
    cases h
    intro id m hm
    have hid : ((t.message? s.id).getD (s.outline f)).id = s.id := by
      cases hold : t.message? s.id with
      | none => rfl
      | some m => exact (ht s.id m hold).1
    rw [SymbolTable.message?_putMessage, hid] at hm
    rw [declaredNames_append_singleton]
    split at hm
    next heq =>
      cases hm
      rw [if_pos heq.symm]
      exact ⟨heq.symm, resolveFields_names hfields⟩
    next hne =>
      rw [if_neg (Ne.symm hne)]
      exact ht id m hm

theorem Shows.resolveSites {ss' : List MessageSite} (ht : Shows t ss)
    (h : resolveSites f ss' t = .ok t') : Shows t' (ss ++ ss') := by
  induction ss' generalizing ss t with
  | nil =>
      cases h
      rwa [List.append_nil]
  | cons s ss' ih =>
      rw [Descriptor.resolveSites] at h
      split at h
      · cases h
      next u hu =>
        have hrest := ih (ht.resolve hu) h
        rwa [List.append_assoc, List.singleton_append] at hrest

/-! ### Methods as they were declared -/

/-- A method that a target among some files declares.  It was bound to its request as the files up to
that one leave it. -/
def DeclaredIn (o : Targets) (fs : List FileDescriptor) (m : Method) : Prop :=
  ∃ before f after, fs = before ++ f :: after ∧ o.includes f.name = true ∧
    ∃ s ∈ f.services, ∃ d ∈ s.methods,
      m.id = memberId (f.serviceId s) d.name ∧ m.inputTypeId = typeIdOf d.inputType ∧
        ∃ request : Message,
          request.fieldNames = declaredNames (sitesOf (before ++ [f])) m.inputTypeId ∧
            methodBindings? (selectorOf m.id) request d.options = some m.http

/-- A table that was made of some files, with the messages of them all and the methods of targets. -/
structure Follows (o : Targets) (fs : List FileDescriptor) (t : SymbolTable) : Prop where
  shown : Shows t (sitesOf fs)
  declared : ∀ id m, t.method? id = some m →
    m.id = id ∧ DeclaredIn o fs m ∧ t.messages.contains m.inputTypeId = true

variable {o : Targets} {fs : List FileDescriptor}

theorem DeclaredIn.append {m : Method} (h : DeclaredIn o fs m) (gs : List FileDescriptor) :
    DeclaredIn o (fs ++ gs) m := by
  obtain ⟨before, f, after, rfl, hm⟩ := h
  exact ⟨before, f, after ++ gs, by rw [List.append_assoc, List.cons_append], hm⟩

theorem Follows.resolveSites (ht : Follows o fs t)
    (h : resolveSites f f.messageSites t = .ok t') : Follows o (fs ++ [f]) t' := by
  have hgrows := resolveSites_grows h
  refine ⟨?_, fun id m hm => ?_⟩
  · rw [sitesOf_append]
    simpa [sitesOf] using ht.shown.resolveSites h
  · rw [SymbolTable.method?, hgrows.methods] at hm
    obtain ⟨hid, hdeclared, hthere⟩ := ht.declared id m hm
    exact ⟨hid, hdeclared.append [f], hgrows.messages _ hthere⟩

theorem Follows.addService {i : Nat} {s : ServiceDescriptor} {built dropped : Nat}
    (ht : Follows o (fs ++ [f]) t) (htarget : o.includes f.name = true) (hs : s ∈ f.services)
    (h : addService f i s t = .ok (t', built, dropped)) : Follows o (fs ++ [f]) t' := by
  obtain ⟨place, listed, -, hgains⟩ := addService_gains h
  refine ⟨fun id m hm => ht.shown id m ?_, fun id m hm => ?_⟩
  · rw [← hm, SymbolTable.message?, SymbolTable.message?, hgains.messages]
  · rw [hgains.messages]
    rcases hgains.gained id m hm with ⟨-, hm⟩ | ⟨-, -, hid, hdeclares⟩
    · exact ht.declared id m hm
    · obtain ⟨d, hd, -, hmember, -, hinput, -, request, hrequest, hhttp⟩ :=
        hdeclares.exists_descriptor
      refine ⟨hid, ⟨fs, f, [], rfl, htarget, s, hs, d, hd, hmember, hinput, request, ?_, hhttp⟩,
        Catalog.contains_of_get? hrequest⟩
      exact (ht.shown _ request hrequest).2

theorem Follows.addServices {i : Nat} {ds : List ServiceDescriptor} {draft draft' : Draft}
    (ht : Follows o (fs ++ [f]) draft.api.table) (htarget : o.includes f.name = true)
    (hds : ∀ d ∈ ds, d ∈ f.services) (h : addServices f i ds draft = .ok draft') :
    Follows o (fs ++ [f]) draft'.api.table := by
  induction ds generalizing i draft with
  | nil =>
      cases h
      exact ht
  | cons d ds ih =>
      rw [Descriptor.addServices] at h
      split at h
      · cases h
      next table built dropped htable =>
        have hnext := ht.addService htarget (hds d List.mem_cons_self) htable
        exact ih hnext (fun e he => hds e (List.mem_cons_of_mem _ he)) h

theorem Follows.resolveFile {draft draft' : Draft} (ht : Follows o fs draft.api.table)
    (h : resolveFile (o.includes f.name) f draft = .ok draft') :
    Follows o (fs ++ [f]) draft'.api.table := by
  unfold Descriptor.resolveFile at h
  split at h
  · cases h
  next table htable =>
    have hresolved := ht.resolveSites htable
    cases htarget : o.includes f.name with
    | false =>
        rw [htarget] at h
        cases h
        exact hresolved
    | true =>
        rw [htarget] at h
        exact Follows.addServices hresolved htarget (fun _ hd => hd) (mapError_eq_ok_iff.1 h)

theorem Follows.resolveFiles {gs : List FileDescriptor} {draft draft' : Draft}
    (ht : Follows o fs draft.api.table) (h : resolveFiles o gs draft = .ok draft') :
    Follows o (fs ++ gs) draft'.api.table := by
  induction gs generalizing fs draft with
  | nil =>
      cases h
      rwa [List.append_nil]
  | cons g gs ih =>
      rw [Descriptor.resolveFiles] at h
      split at h
      · cases h
      next middle hmiddle =>
        have hrest := ih (ht.resolveFile (during_eq_ok_iff.1 hmiddle)) h
        rwa [List.append_assoc, List.singleton_append] at hrest

theorem DescriptorSet.ingest_follows {set : DescriptorSet} {config : Option ServiceConfig} {a : Api}
    {counts : IngestionCounts} (h : set.ingest o config = .ok (a, counts)) :
    Follows o set.files a.table := by
  unfold ingest at h
  dsimp only at h
  split at h
  · cases h
  next draft hdraft =>
    cases h
    have hstart : Follows o [] (set.register .wellKnown) := by
      obtain ⟨messages, enums, heq⟩ := set.register_eq .wellKnown
      refine ⟨shows_register set, fun id m hm => ?_⟩
      rw [heq] at hm
      cases hm
    have hfiles := hstart.resolveFiles hdraft
    cases config with
    | none => exact hfiles
    | some c => exact hfiles

/-! ### Queries -/

/-- Each binding of a method has the query that its own rule and its path leave of some fields. -/
def QueriesAgree (rule : HttpRule) (m : Method) (fields : List String) : Prop :=
  List.Forall₂ (fun r b => b.QueriesRest fields r.bodyField?) (rule :: rule.additionalBindings)
    m.http.bindings

variable {config : Option ServiceConfig} {a : Api} {counts : IngestionCounts}

/-- A method that was ingested has one binding for each of the rules it is annotated with, and the query
of a binding agrees with the finished request exactly if the files up to the one that declares the method
leave it the same fields.  So they do if no file behind that one declares the request. -/
theorem ingest_queries {set : DescriptorSet} {id : String} {m : Method}
    (h : set.ingest o config = .ok (a, counts)) (hm : a.table.method? id = some m) :
    ∃ before f after, set.files = before ++ f :: after ∧ o.includes f.name = true ∧
      ∃ s ∈ f.services, ∃ d ∈ s.methods,
        id = memberId (f.serviceId s) d.name ∧ m.inputTypeId = typeIdOf d.inputType ∧
          ∃ request, a.table.message? m.inputTypeId = some request ∧
            (httpRule d.options = .ok none ∧ m.http = {} ∨
              ∃ rule, httpRule d.options = .ok (some rule) ∧
                m.http.bodyFieldPath = rule.bodyField? ∧
                List.Forall₂
                  (fun r b => b.QueriesRest request.fieldNames r.bodyField? ↔
                    b.LeavesSame r.bodyField?
                      (declaredNames (sitesOf (before ++ [f])) m.inputTypeId) request.fieldNames)
                  (rule :: rule.additionalBindings) m.http.bindings ∧
                ((∀ s ∈ sitesOf after, s.id ≠ m.inputTypeId) →
                  QueriesAgree rule m request.fieldNames)) := by
  have hfollows := set.ingest_follows h
  obtain ⟨hid, ⟨before, f, after, hfiles, htarget, s, hs, d, hd, hmember, hinput, early, hearly,
    hhttp⟩, hthere⟩ := hfollows.declared id m hm
  obtain ⟨request, hrequest⟩ := Catalog.contains_iff.1 hthere
  have hnames := (hfollows.shown _ request hrequest).2
  refine ⟨before, f, after, hfiles, htarget, s, hs, d, hd, hid.symm.trans hmember, hinput, request,
    hrequest, ?_⟩
  unfold methodBindings? at hhttp
  split at hhttp
  next hrule =>
    exact Or.inl ⟨hrule, (Option.some.inj hhttp).symm⟩
  next rule hrule =>
    rw [toOption_eq_some_iff] at hhttp
    obtain ⟨hbody, hbindings⟩ := HttpRule.bindings_eq_ok hhttp
    refine Or.inr ⟨rule, hrule, hbody, ?_, fun hafter => ?_⟩
    · refine hbindings.imp fun r b hb => ?_
      rw [← hearly]
      exact (HttpRule.binding_queriesRest hb).iff_leavesSame
    · refine hbindings.imp fun r b hb => ?_
      have hsame : request.fieldNames = early.fieldNames := by
        rw [hnames, hearly, hfiles, List.append_cons, sitesOf_append,
          declaredNames_append_of_ne hafter]
      rw [hsame]
      exact HttpRule.binding_queriesRest hb
  · cases hhttp

/-- The options of a method that is called under the name of what it gets. -/
def getterOptions : Options :=
  .ofList [(httpKey, .object [("get", .string "/v1/\x7bname\x7d")])]

/-- A file that declares one method, whose request is declared elsewhere. -/
def getterFile : FileDescriptor :=
  plainFile "a.proto" "p" []
    [plainService "S" [plainMethod "Get" ".p.GetRequest" getterOptions]]

def textField (name : String) (number : Int32) : FieldDescriptor where
  name := name
  number := number
  label := ""
  typeName := "TYPE_STRING"
  refersTo := ""
  jsonName := ""
  options := .empty
  oneOfIndex := none
  proto3Optional := false

/-- A file that declares the request of that method. -/
def requestFile : FileDescriptor :=
  plainFile "b.proto" "p" [plainMessage "GetRequest" [textField "name" 1, textField "view" 2]] []

/-- What is seen of the method and its request in the model of a set: the field names of the request,
and the query of each binding with the paths of its variables. -/
def getterOutcome (set : DescriptorSet) :
    Option (List String × List (List String × List String)) := do
  let (a, _) ← (set.ingest ⟨[], none⟩ none).toOption
  let m ← a.table.method? ".p.S.Get"
  let request ← a.table.message? m.inputTypeId
  some (request.fieldNames,
    m.http.bindings.map fun b => (b.queryParameters.names, b.pathTemplate.fieldPaths))

theorem getterOutcome_eq_some {set : DescriptorSet}
    {seen : List String × List (List String × List String)} (h : getterOutcome set = some seen) :
    ∃ a counts m request, set.ingest ⟨[], none⟩ none = .ok (a, counts) ∧
      a.table.method? ".p.S.Get" = some m ∧ a.table.message? m.inputTypeId = some request ∧
        seen = (request.fieldNames,
          m.http.bindings.map fun b => (b.queryParameters.names, b.pathTemplate.fieldPaths)) := by
  unfold getterOutcome at h
  simp only [Option.bind_eq_bind, Option.bind_eq_some_iff, toOption_eq_some_iff] at h
  obtain ⟨⟨a, counts⟩, hset, m, hm, request, hrequest, heq⟩ := h
  exact ⟨a, counts, m, request, hset, hm, hrequest, (Option.some.inj heq).symm⟩

/-- The rule of the method: it has no body and no additional bindings. -/
theorem httpRule_getterOptions :
    ∃ rule, httpRule getterOptions = .ok (some rule) ∧ rule.bodyField? = none := by
  have hseen : ((httpRule getterOptions).toOption.bind id).map HttpRule.bodyField? = some none := by
    decide +kernel
  obtain ⟨rule, hrule, hbody⟩ := Option.map_eq_some_iff.1 hseen
  obtain ⟨rule?, hread, rfl⟩ := Option.bind_eq_some_iff.1 hrule
  exact ⟨rule, toOption_eq_some_iff.1 hread, hbody⟩

theorem ingest_queries_requestFirst :
    ∃ a counts m request rule,
      (DescriptorSet.mk [requestFile, getterFile]).ingest ⟨[], none⟩ none = .ok (a, counts) ∧
        a.table.method? ".p.S.Get" = some m ∧ a.table.message? m.inputTypeId = some request ∧
          httpRule getterOptions = .ok (some rule) ∧ QueriesAgree rule m request.fieldNames := by
  have hseen : getterOutcome ⟨[requestFile, getterFile]⟩ =
      some (["name", "view"], [(["view"], ["name"])]) := by decide +kernel
  obtain ⟨a, counts, m, request, h, hm, hrequest, -⟩ := getterOutcome_eq_some hseen
  obtain ⟨before, f, after, hfiles, -, s, hs, d, hd, -, -, request', hrequest', hrules⟩ :=
    ingest_queries h hm
  rw [hrequest] at hrequest'
  cases hrequest'
  -- Only the second file declares services, so the method is its own and no file stands behind it.
  obtain ⟨rfl, rfl⟩ : f = getterFile ∧ after = [] := by
    match before, hfiles with
    | [], hfiles =>
        cases hfiles
        cases hs
    | [_], hfiles =>
        cases hfiles
        exact ⟨rfl, rfl⟩
    | _ :: _ :: _, hfiles => simp at hfiles
  cases List.mem_singleton.1 hs
  cases List.mem_singleton.1 hd
  obtain ⟨rule, hrule, -⟩ := httpRule_getterOptions
  rcases hrules with ⟨hnone, -⟩ | ⟨rule', hrule', -, -, hagree⟩
  · cases hrule.symm.trans hnone
  · exact ⟨a, counts, m, request, rule', h, hm, hrequest, hrule', hagree nofun⟩

/-- The method has no query if the file with its request comes second. -/
theorem ingest_queries_requestSecond :
    ∃ a counts m request rule,
      (DescriptorSet.mk [getterFile, requestFile]).ingest ⟨[], none⟩ none = .ok (a, counts) ∧
        a.table.method? ".p.S.Get" = some m ∧ a.table.message? m.inputTypeId = some request ∧
          httpRule getterOptions = .ok (some rule) ∧ ¬ QueriesAgree rule m request.fieldNames := by
  have hseen : getterOutcome ⟨[getterFile, requestFile]⟩ =
      some (["name", "view"], [([], ["name"])]) := by decide +kernel
  obtain ⟨a, counts, m, request, h, hm, hrequest, heq⟩ := getterOutcome_eq_some hseen
  obtain ⟨rule, hrule, hbody⟩ := httpRule_getterOptions
  refine ⟨a, counts, m, request, rule, h, hm, hrequest, hrule, fun hagree => ?_⟩
  obtain ⟨hfields, hbindings⟩ := Prod.mk.inj heq
  rw [QueriesAgree, ← hfields] at hagree
  obtain ⟨b, bs, hb, -, hcons⟩ := List.forall₂_cons_left_iff.1 hagree
  rw [hcons, List.map_cons] at hbindings
  obtain ⟨hquery, hpath⟩ := Prod.mk.inj (List.cons.inj hbindings).1
  have hview : "view" ∈ b.queryParameters := by
    refine (hb.rest (by rw [hbody]; nofun) "view").2 ⟨by simp, by rw [hbody]; nofun, ?_⟩
    rw [← hpath]
    decide
  change "view" ∈ b.queryParameters.names at hview
  rw [← hquery] at hview
  cases hview

end Descriptor

end ServiceModel
