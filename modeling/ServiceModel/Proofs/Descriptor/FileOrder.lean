import ServiceModel.Proofs.Descriptor.Admission

/-!
The order of files.  In a set without two messages or two enums of one name, registration fills the
same table in whatever order the files come, and everything else is read off that table.  So the order
of the files and the choice of targets leave no trace in the messages and enums.
-/

namespace ServiceModel.Descriptor

variable {t₀ t t' u : SymbolTable} {f : FileDescriptor} {fs : List FileDescriptor} {o : Targets}

/-! ### Registration -/

def outlines (fs : List FileDescriptor) : List (String × Message) :=
  fs.flatMap fun f => f.messageSites.map fun s => (s.id, s.outline f)

def enumEntries (fs : List FileDescriptor) : List (String × Enum) :=
  fs.flatMap fun f => f.enumSites.map fun e => (e.id, e.enum f)

theorem map_fst_outlines (fs : List FileDescriptor) :
    (outlines fs).map Prod.fst = (fs.flatMap FileDescriptor.messageSites).map (·.id) := by
  simp only [outlines, List.map_flatMap, List.map_map]
  rfl

theorem map_fst_enumEntries (fs : List FileDescriptor) :
    (enumEntries fs).map Prod.fst = (fs.flatMap FileDescriptor.enumSites).map (·.id) := by
  simp only [enumEntries, List.map_flatMap, List.map_map]
  rfl

theorem foldl_register_eq (fs : List FileDescriptor) (t : SymbolTable) :
    fs.foldl (fun t f => f.register t) t =
      { t with
        messages := (outlines fs).foldl (fun c e => c.insert e.1 e.2) t.messages
        enums := (enumEntries fs).foldl (fun c e => c.insert e.1 e.2) t.enums } := by
  induction fs generalizing t with
  | nil => rfl
  | cons f fs ih =>
      rw [List.foldl_cons, ih, f.register_eq, outlines, outlines, enumEntries, enumEntries,
        List.flatMap_cons, List.flatMap_cons, List.foldl_append, List.foldl_append]

/-- No two messages have the same full name, and no two enums. -/
structure DescriptorSet.Distinct (s : DescriptorSet) : Prop where
  messages : ((s.files.flatMap FileDescriptor.messageSites).map (·.id)).Nodup
  enums : ((s.files.flatMap FileDescriptor.enumSites).map (·.id)).Nodup

theorem DescriptorSet.register_perm {s s' : DescriptorSet} (h : s.files.Perm s'.files)
    (hdistinct : s.Distinct) (t : SymbolTable) : s.register t = s'.register t := by
  have hmessages : (outlines s.files).foldl (fun c e => c.insert e.1 e.2) t.messages =
      (outlines s'.files).foldl (fun c e => c.insert e.1 e.2) t.messages := by
    have hperm : (outlines s.files).Perm (outlines s'.files) := h.flatMap_right _
    refine Catalog.foldl_insert_perm hperm ?_ t.messages
    rw [map_fst_outlines]
    exact hdistinct.messages
  have henums : (enumEntries s.files).foldl (fun c e => c.insert e.1 e.2) t.enums =
      (enumEntries s'.files).foldl (fun c e => c.insert e.1 e.2) t.enums := by
    have hperm : (enumEntries s.files).Perm (enumEntries s'.files) := h.flatMap_right _
    refine Catalog.foldl_insert_perm hperm ?_ t.enums
    rw [map_fst_enumEntries]
    exact hdistinct.enums
  rw [register, register, foldl_register_eq, foldl_register_eq, hmessages, henums]

/-- The site of a message can be found under its name once all files are registered. -/
theorem DescriptorSet.message?_register {s : DescriptorSet} (hdistinct : s.Distinct)
    (hf : f ∈ s.files) {site : MessageSite} (hs : site ∈ f.messageSites) (t : SymbolTable) :
    (s.register t).message? site.id = some (site.outline f) := by
  rw [register, foldl_register_eq]
  refine Catalog.get?_foldl_insert_of_mem ?_ ?_
  · rw [map_fst_outlines]
    exact hdistinct.messages
  · exact List.mem_flatMap.2 ⟨f, hf, List.mem_map.2 ⟨site, hs, rfl⟩⟩

/-! ### Resolution -/

/-- What some files leave in a table: their finished messages, and methods under some IDs. -/
structure Finishes (t₀ : SymbolTable) (fs : List FileDescriptor) (ids : List String)
    (t t' : SymbolTable) : Prop where
  maps : SameMaps t₀ t'
  messages : t'.messages = (fs.flatMap fun f => finishedMessages t₀ f f.messageSites).foldl
    (fun c e => c.insert e.1 e.2) t.messages
  enums : t'.enums = t.enums
  frozen : t'.frozen = t.frozen
  methods : ∀ id, t'.methods.contains id = true ↔ id ∈ ids ∨ t.methods.contains id = true

theorem Finishes.admits {ids : List String} (h : Finishes t₀ fs [] t u) (h' : Admits ids u t') :
    Finishes t₀ fs ids t t' where
  maps := h'.sameMaps h.maps
  messages := h'.messages.trans h.messages
  enums := h'.enums.trans h.enums
  frozen := h'.frozen.trans h.frozen
  methods := by
    intro id
    rw [h'.methods, h.methods, or_iff_right List.not_mem_nil]

theorem Finishes.trans {fs' : List FileDescriptor} {ids ids' : List String}
    (h : Finishes t₀ fs ids t u) (h' : Finishes t₀ fs' ids' u t') :
    Finishes t₀ (fs ++ fs') (ids ++ ids') t t' where
  maps := h'.maps
  messages := by rw [h'.messages, h.messages, List.flatMap_append, List.foldl_append]
  enums := h'.enums.trans h.enums
  frozen := h'.frozen.trans h.frozen
  methods := by
    intro id
    rw [h'.methods, h.methods, List.mem_append, ← or_assoc, or_comm (a := id ∈ ids)]

theorem map_fst_finishedMessages (t₀ : SymbolTable) (fs : List FileDescriptor) :
    (fs.flatMap fun f => finishedMessages t₀ f f.messageSites).map Prod.fst =
      (fs.flatMap FileDescriptor.messageSites).map (·.id) := by
  simp only [finishedMessages, List.map_flatMap, List.map_map]
  rfl

/-- Messages of other files stay as they are. -/
theorem Finishes.message? {ids : List String} (h : Finishes t₀ fs ids t t') {id : String}
    (hid : id ∉ (fs.flatMap FileDescriptor.messageSites).map (·.id)) :
    t'.message? id = t.message? id := by
  rw [SymbolTable.message?, h.messages]
  refine Catalog.get?_foldl_insert_of_not_mem ?_
  rwa [map_fst_finishedMessages]

def methodIdsOf (t₀ : SymbolTable) (o : Targets) (fs : List FileDescriptor) : List String :=
  fs.flatMap fun f => if o.includes f.name then serviceMethodIds t₀ f f.services else []

theorem resolveFile_settles {target : Bool} {draft : Draft} (h : SameMaps t₀ draft.api.table)
    (hopen : draft.api.table.frozen = false)
    (hsites : ∀ s ∈ f.messageSites, draft.api.table.message? s.id = some (s.outline f))
    (hdistinct : (f.messageSites.map (·.id)).Nodup) :
    Settles ((∀ s ∈ f.messageSites, s.Resolves t₀ f) ∧
        Fresh (if target then serviceMethodIds t₀ f f.services else []) draft.api.table)
      (fun draft' => Finishes t₀ [f] (if target then serviceMethodIds t₀ f f.services else [])
        draft.api.table draft'.api.table)
      (resolveFile target f draft) := by
  have hresolve := resolveSites_settles h hsites hdistinct
  unfold resolveFile
  cases hu : resolveSites f f.messageSites draft.api.table with
  | error e =>
      rw [hu] at hresolve
      exact fun hall => hresolve hall.1
  | ok u =>
      rw [hu] at hresolve
      obtain ⟨hresolves, hmaps, hu⟩ := hresolve
      have hfinishes : Finishes t₀ [f] [] draft.api.table u := by
        rw [hu] at hmaps ⊢
        exact ⟨hmaps, by rw [List.flatMap_singleton], rfl, rfl, by simp⟩
      cases target with
      | false => exact ⟨⟨hresolves, List.nodup_nil, nofun⟩, hfinishes⟩
      | true =>
          have hmethods : u.methods = draft.api.table.methods := by rw [hu]
          refine Settles.imp (Settles.mapError (addServices_settles hmaps ?_)) ?_
            fun draft' hadmits => hfinishes.admits hadmits
          · exact hfinishes.frozen.trans hopen
          rw [and_iff_right hresolves, Fresh, Fresh, hmethods]
          rfl

/-- Files are resolved exactly if the fields of all their messages can be resolved and no two methods
of the targets have one ID. -/
theorem resolveFiles_settles {draft : Draft} (h : SameMaps t₀ draft.api.table)
    (hopen : draft.api.table.frozen = false)
    (hsites : ∀ f ∈ fs, ∀ s ∈ f.messageSites,
      draft.api.table.message? s.id = some (s.outline f))
    (hdistinct : ((fs.flatMap FileDescriptor.messageSites).map (·.id)).Nodup) :
    Settles ((∀ f ∈ fs, ∀ s ∈ f.messageSites, s.Resolves t₀ f) ∧
        Fresh (methodIdsOf t₀ o fs) draft.api.table)
      (fun draft' => Finishes t₀ fs (methodIdsOf t₀ o fs) draft.api.table draft'.api.table)
      (resolveFiles o fs draft) := by
  induction fs generalizing draft with
  | nil => exact ⟨⟨nofun, List.nodup_nil, nofun⟩, h, rfl, rfl, rfl, by simp [methodIdsOf]⟩
  | cons f fs ih =>
      obtain ⟨hhere, hsites⟩ := List.forall_mem_cons.1 hsites
      rw [List.flatMap_cons, List.map_append, List.nodup_append] at hdistinct
      obtain ⟨hown, hrest, hothers⟩ := hdistinct
      have hfile : Settles _ _ (during (.resolvingFile f.name)
          (resolveFile (o.includes f.name) f draft)) :=
        (resolveFile_settles h hopen hhere hown).mapError
      rw [resolveFiles, methodIdsOf, List.flatMap_cons, List.forall_mem_cons]
      cases hmiddle : during (.resolvingFile f.name)
          (resolveFile (o.includes f.name) f draft) with
      | error e =>
          rw [hmiddle] at hfile
          exact fun hall => hfile ⟨hall.1.1, hall.2.left⟩
      | ok middle =>
          rw [hmiddle] at hfile
          obtain ⟨⟨hresolves, hfresh⟩, hfinishes⟩ := hfile
          -- Later files still find the outlines of their own messages.
          have hlater : ∀ g ∈ fs, ∀ s ∈ g.messageSites,
              middle.api.table.message? s.id = some (s.outline g) := by
            intro g hg s hs
            rw [hfinishes.message?, hsites g hg s hs]
            intro hid
            rw [List.flatMap_singleton] at hid
            have hmem : s.id ∈ (fs.flatMap FileDescriptor.messageSites).map (·.id) :=
              List.mem_map_of_mem (List.mem_flatMap.2 ⟨g, hg, hs⟩)
            exact hothers s.id hid s.id hmem rfl
          refine (ih hfinishes.maps (hfinishes.frozen.trans hopen) hlater hrest).imp ?_
            fun draft' hdraft' => hfinishes.trans hdraft'
          rw [and_iff_right hresolves, hfresh.append_iff hfinishes.methods]
          rfl

/-! ### Ingestion -/

def DescriptorSet.finished (s : DescriptorSet) : List (String × Message) :=
  s.files.flatMap fun f => finishedMessages (s.register .wellKnown) f f.messageSites

/-- A set without two messages or two enums of one name is ingested exactly if the fields of all its
messages can be resolved and no two methods of its targets have one ID. -/
theorem DescriptorSet.ingest_settles {s : DescriptorSet} (hdistinct : s.Distinct) (o : Targets)
    (config : Option ServiceConfig) :
    Settles ((∀ f ∈ s.files, ∀ site ∈ f.messageSites, site.Resolves (s.register .wellKnown) f) ∧
        (methodIdsOf (s.register .wellKnown) o s.files).Nodup)
      (fun r => r.1.table.messages =
          s.finished.foldl (fun c e => c.insert e.1 e.2) (s.register .wellKnown).messages ∧
        r.1.table.enums = (s.register .wellKnown).enums)
      (s.ingest o config) := by
  obtain ⟨messages, enums, heq⟩ := s.register_eq .wellKnown
  have hopen : (s.register .wellKnown).frozen = false := by
    rw [heq]
    rfl
  have hfiles : Settles _ _ (resolveFiles o s.files
      ⟨{ Api.new (s.package o) with table := s.register .wellKnown }, 0, 0, 0⟩) :=
    resolveFiles_settles (SameMaps.refl _) hopen
      (fun f hf site hs => message?_register hdistinct hf hs .wellKnown) hdistinct.messages
  have hfresh : Fresh (methodIdsOf (s.register .wellKnown) o s.files) (s.register .wellKnown) ↔
      (methodIdsOf (s.register .wellKnown) o s.files).Nodup := by
    refine and_iff_left fun id _ => ?_
    rw [heq]
    rfl
  have hstart : (Api.new (s.package o)).table = .wellKnown := rfl
  unfold ingest
  dsimp only at hfiles ⊢
  rw [hfresh] at hfiles
  rw [hstart]
  split
  next e hdraft =>
    rw [hdraft] at hfiles
    exact hfiles
  next draft hdraft =>
    rw [hdraft] at hfiles
    obtain ⟨hholds, hfinishes⟩ := hfiles
    have htable : (withNames config draft.api).table = draft.api.table := by
      cases config <;> rfl
    refine ⟨hholds, ?_, ?_⟩
    · rw [htable]
      exact hfinishes.messages
    · rw [htable]
      exact hfinishes.enums

theorem DescriptorSet.Distinct.perm {s s' : DescriptorSet} (h : s.files.Perm s'.files)
    (hdistinct : s.Distinct) : s'.Distinct where
  messages := ((h.flatMap_right _).map _).nodup_iff.1 hdistinct.messages
  enums := ((h.flatMap_right _).map _).nodup_iff.1 hdistinct.enums

/-- The order of the files and the choice of targets leave no trace in the messages and enums of a
model, and the order decides nothing about whether there is one. -/
theorem DescriptorSet.ingest_perm {s s' : DescriptorSet} (h : s.files.Perm s'.files)
    (hdistinct : s.Distinct) :
    (∀ o o' config config' a a' counts counts', s.ingest o config = .ok (a, counts) →
      s'.ingest o' config' = .ok (a', counts') →
        a.table.messages = a'.table.messages ∧ a.table.enums = a'.table.enums) ∧
    ∀ o config, (∃ r, s.ingest o config = .ok r) ↔ ∃ r, s'.ingest o config = .ok r := by
  have hregister := register_perm h hdistinct .wellKnown
  constructor
  · intro o o' config config' a a' counts counts' ha ha'
    obtain ⟨hmessages, henums⟩ := (ingest_settles hdistinct o config).of_ok ha
    obtain ⟨hmessages', henums'⟩ := (ingest_settles (hdistinct.perm h) o' config').of_ok ha'
    have hfinished : s.finished.foldl (fun c e => c.insert e.1 e.2) (s.register .wellKnown).messages =
        s'.finished.foldl (fun c e => c.insert e.1 e.2) (s.register .wellKnown).messages := by
      have hperm : s.finished.Perm s'.finished := by
        rw [finished, finished, ← hregister]
        exact h.flatMap_right _
      refine Catalog.foldl_insert_perm hperm ?_ _
      rw [finished, map_fst_finishedMessages]
      exact hdistinct.messages
    rw [hmessages, hmessages', henums, henums', ← hregister]
    exact ⟨hfinished, rfl⟩
  · intro o config
    rw [(ingest_settles hdistinct o config).exists_ok_iff,
      (ingest_settles (hdistinct.perm h) o config).exists_ok_iff, ← hregister]
    have hids : (methodIdsOf (s.register .wellKnown) o s.files).Perm
        (methodIdsOf (s.register .wellKnown) o s'.files) := h.flatMap_right _
    rw [hids.nodup_iff]
    simp only [h.mem_iff]

/-- A file whose message has a map, the entries of which are declared elsewhere. -/
def labelledFile : FileDescriptor :=
  plainFile "a.proto" "p" [plainMessage "Shelf" [{
    name := "labels"
    number := 1
    label := "LABEL_REPEATED"
    typeName := "TYPE_MESSAGE"
    refersTo := ".p.Label"
    jsonName := ""
    options := .empty
    oneOfIndex := none
    proto3Optional := false }]] []

/-- A file that declares the entries of that map. -/
def labelFile : FileDescriptor :=
  plainFile "b.proto" "p"
    [{ plainMessage "Label" [] with options := .ofList [("mapEntry", .bool true)] }] []

theorem ingest_perm_labels :
    [labelledFile, labelFile].Perm [labelFile, labelledFile] ∧
      (DescriptorSet.mk [labelledFile, labelFile]).Distinct ∧
      ∃ a counts a' counts',
        (DescriptorSet.mk [labelledFile, labelFile]).ingest ⟨[], none⟩ none = .ok (a, counts) ∧
        (DescriptorSet.mk [labelFile, labelledFile]).ingest ⟨["b.proto"], none⟩ none =
          .ok (a', counts') ∧
        a.table.messages = a'.table.messages ∧ a.table.enums = a'.table.enums := by
  have hperm : [labelledFile, labelFile].Perm [labelFile, labelledFile] := .swap ..
  have hdistinct : (DescriptorSet.mk [labelledFile, labelFile]).Distinct :=
    ⟨by decide, by decide⟩
  have hfirst : ((DescriptorSet.mk [labelledFile, labelFile]).ingest ⟨[], none⟩
      none).toOption.isSome = true := by decide +kernel
  have hsecond : ((DescriptorSet.mk [labelFile, labelledFile]).ingest ⟨["b.proto"], none⟩
      none).toOption.isSome = true := by decide +kernel
  obtain ⟨⟨a, counts⟩, h⟩ := Option.isSome_iff_exists.1 hfirst
  obtain ⟨⟨a', counts'⟩, h'⟩ := Option.isSome_iff_exists.1 hsecond
  rw [toOption_eq_some_iff] at h h'
  exact ⟨hperm, hdistinct, a, counts, a', counts', h, h',
    (DescriptorSet.ingest_perm hperm hdistinct).1 _ _ _ _ _ _ _ _ h h'⟩

end ServiceModel.Descriptor
