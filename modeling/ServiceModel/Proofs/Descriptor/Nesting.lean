import Mathlib.Data.List.Nodup
import ServiceModel.Proofs.Descriptor.Accounting
import ServiceModel.Proofs.Descriptor.FileOrder

/-!
Nested declarations.  Parents list what is declared inside them, and what is declared inside a message names
it as its parent.  Registration writes both sides, and resolution touches neither, so in a set without two
messages or two enums of one name they form a tree.
-/

namespace ServiceModel.Descriptor

variable {t : SymbolTable} {f : FileDescriptor}

/-! ### Declarations -/

namespace FileDescriptor

/-- A file declares a message with an ID: at the top, where the package is in front of the name, or in the
message with the ID of its parent. -/
inductive HasMessage (f : FileDescriptor) : Option String → String → MessageDescriptor → Prop where
  | top {d} : d ∈ f.messages →
      HasMessage f none ((if f.package = "" then "" else "." ++ f.package) ++ "." ++ d.name) d
  | nested {parent id d n} :
      HasMessage f parent id d → n ∈ d.nested → HasMessage f (some id) (id ++ "." ++ n.name) n

/-- A file declares an enum with an ID: at the top, where the package is in front of the name, or in the
message with the ID of its parent. -/
inductive HasEnum (f : FileDescriptor) : Option String → String → EnumDescriptor → Prop where
  | top {e} : e ∈ f.enums →
      HasEnum f none ((if f.package = "" then "" else "." ++ f.package) ++ "." ++ e.name) e
  | nested {parent id d e} :
      HasMessage f parent id d → e ∈ d.enums → HasEnum f (some id) (id ++ "." ++ e.name) e

end FileDescriptor

mutual

theorem hasMessage_messageSites (scope : String) (parent : Option String) (place : Place) :
    ∀ d : MessageDescriptor, f.HasMessage parent (memberId scope d.name) d →
      ∀ s ∈ messageSites scope parent place d, f.HasMessage s.parent s.id s.descriptor
  | ⟨name, fields, nested, enums, oneOfs, options⟩ => by
      intro hd s hs
      rw [messageSites] at hs
      rcases List.mem_append.1 hs with hs | hs
      · exact hasMessage_nestedSites hd place 0 nested (fun _ hn => hn) s hs
      · cases List.mem_singleton.1 hs
        exact hd

theorem hasMessage_nestedSites {id : String} {parent : Option String} {d : MessageDescriptor}
    (hd : f.HasMessage parent id d) (place : Place) (index : Nat) :
    ∀ ds : List MessageDescriptor, (∀ n ∈ ds, n ∈ d.nested) →
      ∀ s ∈ nestedSites id place index ds, f.HasMessage s.parent s.id s.descriptor
  | [], _ => by
      intro s hs
      rw [nestedSites] at hs
      cases hs
  | n :: ds, hds => by
      intro s hs
      rw [nestedSites] at hs
      rcases List.mem_append.1 hs with hs | hs
      · exact hasMessage_messageSites id (some id) _ n (.nested hd (hds n List.mem_cons_self)) s hs
      · exact hasMessage_nestedSites hd place (index + 1) ds
          (fun n hn => hds n (List.mem_cons_of_mem _ hn)) s hs

end

namespace FileDescriptor

/-- The sites of a file are its declarations. -/
theorem hasMessage_iff {parent : Option String} {id : String} {d : MessageDescriptor} :
    f.HasMessage parent id d ↔
      ∃ s ∈ f.messageSites, s.id = id ∧ s.parent = parent ∧ s.descriptor = d := by
  constructor
  · intro h
    induction h with
    | @top d hd =>
        obtain ⟨i, hi, rfl⟩ := List.mem_iff_getElem.1 hd
        obtain ⟨s, hs, hentry⟩ := List.mem_map.1
          (mem_messageSites_self f.scope none (Place.child [] Place.fileMessage i) f.messages[i])
        simp only [MessageSite.entry, Prod.mk.injEq] at hentry
        refine ⟨s, List.mem_flatMap.2 ⟨(f.messages[i], i), ?_, hs⟩, hentry⟩
        exact List.mem_zipIdx_iff_getElem?.2 (List.getElem?_eq_getElem hi)
    | nested _ hn ih =>
        obtain ⟨q, hq, rfl, -, rfl⟩ := ih
        exact exists_messageSite hq hn
  · rintro ⟨s, hs, rfl, rfl, rfl⟩
    obtain ⟨⟨d, i⟩, hd, hs⟩ := List.mem_flatMap.1 hs
    exact hasMessage_messageSites _ _ _ d (.top (List.fst_mem_of_mem_zipIdx hd)) s hs

theorem enumSite_of_mem {scope : String} {parent : Option String} {place : Place} {kind : Int32}
    {enums : List EnumDescriptor} {s : EnumSite} (hs : s ∈ enumSitesOf scope parent place kind enums) :
    s.descriptor ∈ enums ∧ s.id = scope ++ "." ++ s.descriptor.name ∧ s.parent = parent := by
  obtain ⟨⟨e, i⟩, he, rfl⟩ := List.mem_map.1 hs
  exact ⟨List.fst_mem_of_mem_zipIdx he, rfl, rfl⟩

theorem hasEnum_iff {parent : Option String} {id : String} {e : EnumDescriptor} :
    f.HasEnum parent id e ↔
      ∃ s ∈ f.enumSites, s.id = id ∧ s.parent = parent ∧ s.descriptor = e := by
  constructor
  · intro h
    cases h with
    | top he =>
        obtain ⟨s, hs, hsite⟩ := Descriptor.exists_enumSite f.scope none [] Place.fileEnum he
        exact ⟨s, List.mem_append_right _ hs, hsite⟩
    | nested hd he =>
        obtain ⟨q, hq, rfl, -, rfl⟩ := hasMessage_iff.1 hd
        exact exists_enumSite hq he
  · rintro ⟨s, hs, rfl, rfl, rfl⟩
    rcases List.mem_append.1 hs with hs | hs
    · obtain ⟨q, hq, hs⟩ := List.mem_flatMap.1 hs
      obtain ⟨he, hid, hparent⟩ := enumSite_of_mem hs
      rw [hid, hparent]
      exact .nested (hasMessage_iff.2 ⟨q, hq, rfl, rfl, rfl⟩) he
    · obtain ⟨he, hid, hparent⟩ := enumSite_of_mem hs
      rw [hid, hparent]
      exact .top he

/-- What is declared has the ID of its parent, or else the package of its file, with its name behind. -/
theorem HasMessage.id_eq {parent : Option String} {id : String} {d : MessageDescriptor}
    (h : f.HasMessage parent id d) :
    id = parent.getD (if f.package = "" then "" else "." ++ f.package) ++ "." ++ d.name := by
  cases h <;> rfl

theorem HasEnum.id_eq {parent : Option String} {id : String} {e : EnumDescriptor}
    (h : f.HasEnum parent id e) :
    id = parent.getD (if f.package = "" then "" else "." ++ f.package) ++ "." ++ e.name := by
  cases h <;> rfl

end FileDescriptor

/-! ### Distinct names -/

namespace DescriptorSet

variable {s : DescriptorSet} {parent : Option String} {id : String} {d : MessageDescriptor}

/-- What is declared inside a message is so under distinct IDs. -/
theorem Distinct.nodup_nested (h : s.Distinct) (hf : f ∈ s.files) (hd : f.HasMessage parent id d) :
    (d.nested.map fun n => id ++ "." ++ n.name).Nodup := by
  obtain ⟨q, hq, rfl, -, rfl⟩ := FileDescriptor.hasMessage_iff.1 hd
  have hids : (f.messageSites.map (·.id)).Nodup := by
    have hall := h.messages
    rw [List.map_flatMap, List.nodup_flatMap] at hall
    exact hall.1 f hf
  have hsub := (f.deep_messageSites q hq).map Prod.fst
  rw [List.map_map, List.map_map] at hsub
  exact hids.sublist hsub

theorem Distinct.nodup_enums (h : s.Distinct) (hf : f ∈ s.files) (hd : f.HasMessage parent id d) :
    (d.enums.map fun e => id ++ "." ++ e.name).Nodup := by
  obtain ⟨q, hq, rfl, -, rfl⟩ := FileDescriptor.hasMessage_iff.1 hd
  have hids : (q.enumSites.map (·.id)).Nodup := by
    have hall := h.enums
    rw [List.map_flatMap, List.nodup_flatMap] at hall
    have hfile := hall.1 f hf
    rw [FileDescriptor.enumSites, List.map_append] at hfile
    have hfile := hfile.of_append_left
    rw [List.map_flatMap, List.nodup_flatMap] at hfile
    exact hfile.1 q hq
  have hmap : q.enumSites.map (·.id) = q.descriptor.enums.map fun e => q.id ++ "." ++ e.name := by
    rw [MessageSite.enumSites, enumSitesOf, List.map_map]
    conv_rhs => rw [← List.zipIdx_map_fst 0 q.descriptor.enums, List.map_map]
    rfl
  exact hmap ▸ hids

/-! ### Registration -/

theorem enum?_register (h : s.Distinct) (hf : f ∈ s.files) {site : EnumSite}
    (hs : site ∈ f.enumSites) (t : SymbolTable) :
    (s.register t).enum? site.id = some (site.enum f) := by
  rw [register, foldl_register_eq]
  refine Catalog.get?_foldl_insert_of_mem ?_ ?_
  · rw [map_fst_enumEntries]
    exact h.enums
  · exact List.mem_flatMap.2 ⟨f, hf, List.mem_map.2 ⟨site, hs, rfl⟩⟩

/-- A message with a parent is one that the set declares. -/
theorem hasMessage_of_register {m : Message} {p : String}
    (hm : (s.register .wellKnown).message? id = some m) (hp : m.parent = some p) :
    ∃ f ∈ s.files, ∃ d, f.HasMessage (some p) id d := by
  rw [register, foldl_register_eq] at hm
  rcases Catalog.get?_foldl_insert hm with hm | hm
  · obtain ⟨f, hf, hm⟩ := List.mem_flatMap.1 hm
    obtain ⟨site, hs, heq⟩ := List.mem_map.1 hm
    cases heq
    exact ⟨f, hf, site.descriptor, FileDescriptor.hasMessage_iff.2 ⟨site, hs, rfl, hp, rfl⟩⟩
  · obtain ⟨name, -, hname⟩ := List.mem_map.1 (Catalog.mem_of_get?_ofList hm)
    cases hname
    cases hp

theorem hasEnum_of_register {e : Enum} {p : String}
    (he : (s.register .wellKnown).enum? id = some e) (hp : e.parent = some p) :
    ∃ f ∈ s.files, ∃ d, f.HasEnum (some p) id d := by
  rw [register, foldl_register_eq] at he
  rcases Catalog.get?_foldl_insert he with he | he
  · obtain ⟨f, hf, he⟩ := List.mem_flatMap.1 he
    obtain ⟨site, hs, heq⟩ := List.mem_map.1 he
    cases heq
    exact ⟨f, hf, site.descriptor, FileDescriptor.hasEnum_iff.2 ⟨site, hs, rfl, hp, rfl⟩⟩
  · rw [SymbolTable.enumParents_wellKnown he] at hp
    cases hp

end DescriptorSet

/-! ### Trees -/

/-- A message that stands where a file declares it and lists what is declared inside it. -/
structure NestedMessage (f : FileDescriptor) (parent : Option String) (id : String)
    (d : MessageDescriptor) (m : Message) : Prop where
  name : m.name = d.name
  filed : m.id = id
  scope : m.id = parent.getD (if f.package = "" then "" else "." ++ f.package) ++ "." ++ m.name
  parent : m.parent = parent
  messages : m.messages = d.nested.map fun n => id ++ "." ++ n.name
  enums : m.enums = d.enums.map fun e => id ++ "." ++ e.name

/-- An enum that stands where a file declares it. -/
structure NestedEnum (f : FileDescriptor) (parent : Option String) (id : String)
    (d : EnumDescriptor) (e : Enum) : Prop where
  name : e.name = d.name
  filed : e.id = id
  scope : e.id = parent.getD (if f.package = "" then "" else "." ++ f.package) ++ "." ++ e.name
  parent : e.parent = parent

/-- A table in which the declarations of a set form a tree: each has its place there, and whatever names a
parent is listed by it, once. -/
structure DescriptorSet.Nested (s : DescriptorSet) (t : SymbolTable) : Prop where
  messages : ∀ f ∈ s.files, ∀ parent id d, f.HasMessage parent id d →
    ∃ m, t.message? id = some m ∧ NestedMessage f parent id d m
  enums : ∀ f ∈ s.files, ∀ parent id d, f.HasEnum parent id d →
    ∃ e, t.enum? id = some e ∧ NestedEnum f parent id d e
  messageParents : ∀ id m p, t.message? id = some m → m.parent = some p →
    ∃ q, t.message? p = some q ∧ q.messages.count id = 1
  enumParents : ∀ id e p, t.enum? id = some e → e.parent = some p →
    ∃ q, t.message? p = some q ∧ q.enums.count id = 1

section Trees

variable {s : DescriptorSet}

/-- What has the head of the outline of a site stands where the site is declared. -/
theorem nestedMessage_of_head {m : Message} {site : MessageSite}
    (hd : f.HasMessage site.parent site.id site.descriptor)
    (hm : m.head = (site.outline f).head) :
    NestedMessage f site.parent site.id site.descriptor m where
  name := congrArg Message.name hm
  filed := congrArg Message.id hm
  scope := by
    have hid : m.id = site.id := congrArg Message.id hm
    have hname : m.name = site.descriptor.name := congrArg Message.name hm
    rw [hid, hname]
    exact hd.id_eq
  parent := congrArg Message.parent hm
  messages := congrArg Message.messages hm
  enums := congrArg Message.enums hm

/-- A table with the heads and the enums that were registered is a tree. -/
theorem DescriptorSet.Distinct.nested (h : s.Distinct)
    (hheads : SameHeads (s.register .wellKnown) t)
    (henums : t.enums = (s.register .wellKnown).enums) : s.Nested t := by
  have hmessages : ∀ f ∈ s.files, ∀ parent id d, f.HasMessage parent id d →
      ∃ m, t.message? id = some m ∧ NestedMessage f parent id d m := by
    intro f hf parent id d hd
    obtain ⟨site, hs, rfl, rfl, rfl⟩ := FileDescriptor.hasMessage_iff.1 hd
    obtain ⟨m, hm, hhead⟩ := hheads.exists_message (message?_register h hf hs _)
    exact ⟨m, hm, nestedMessage_of_head hd hhead⟩
  refine ⟨hmessages, ?_, ?_, ?_⟩
  · intro f hf parent id d hd
    have hscope := hd.id_eq
    obtain ⟨site, hs, rfl, rfl, rfl⟩ := FileDescriptor.hasEnum_iff.1 hd
    refine ⟨site.enum f, ?_, rfl, rfl, hscope, rfl⟩
    rw [SymbolTable.enum?, henums]
    exact enum?_register h hf hs _
  · intro id m p hm hp
    obtain ⟨m₀, hm₀, hhead⟩ := hheads.symm.exists_message hm
    obtain ⟨f, hf, d, hd⟩ := hasMessage_of_register hm₀ ((congrArg Message.parent hhead).trans hp)
    cases hd with
    | nested hd hn =>
        obtain ⟨q, hq, hnested⟩ := hmessages f hf _ _ _ hd
        refine ⟨q, hq, ?_⟩
        rw [hnested.messages]
        exact List.count_eq_one_of_mem (h.nodup_nested hf hd) (List.mem_map.2 ⟨_, hn, rfl⟩)
  · intro id e p he hp
    rw [SymbolTable.enum?, henums] at he
    obtain ⟨f, hf, d, hd⟩ := hasEnum_of_register he hp
    cases hd with
    | nested hd hmem =>
        obtain ⟨q, hq, hnested⟩ := hmessages f hf _ _ _ hd
        refine ⟨q, hq, ?_⟩
        rw [hnested.enums]
        exact List.count_eq_one_of_mem (h.nodup_enums hf hd) (List.mem_map.2 ⟨_, hmem, rfl⟩)

/-- In a set without two messages or two enums of one name, messages and enums form a tree once they are
registered, and still do in the model: but for fields and groups, resolution changes nothing of them. -/
theorem DescriptorSet.ingest_nested {o : Targets} {config : Option ServiceConfig} {a : Api}
    {counts : IngestionCounts} (hdistinct : s.Distinct)
    (h : s.ingest o config = .ok (a, counts)) :
    s.Nested (s.register .wellKnown) ∧ s.Nested a.table ∧
      SameHeads (s.register .wellKnown) a.table ∧
        a.table.enums = (s.register .wellKnown).enums := by
  obtain ⟨u, hingests⟩ := ingest_ingests h
  have hheads := hingests.sameHeads
  have henums : a.table.enums = (s.register .wellKnown).enums :=
    hingests.enums.trans (resolveMessages_grows hingests.resolved).enums
  exact ⟨hdistinct.nested (.refl _) rfl, hdistinct.nested hheads henums, hheads, henums⟩

/-- A file of a message with two messages and an enum inside it, and another message in one of those. -/
def treeFile : FileDescriptor :=
  plainFile "tree.proto" "p"
    [{ plainMessage "Root" [] with
      nested := [{ plainMessage "Left" [] with nested := [plainMessage "Leaf" []] },
        plainMessage "Right" []]
      enums := [⟨"Kind", [], .empty⟩] }] []

/-- A tree of declarations in a package, and a message that is in none. -/
def treeSet : DescriptorSet := ⟨[treeFile, plainFile "bare.proto" "" [plainMessage "Bare" []] []]⟩

theorem ingest_nested_tree :
    treeSet.Distinct ∧
      ∃ a counts, treeSet.ingest ⟨[], none⟩ none = .ok (a, counts) ∧
        (treeSet.Nested (treeSet.register .wellKnown) ∧ treeSet.Nested a.table ∧
          SameHeads (treeSet.register .wellKnown) a.table ∧
            a.table.enums = (treeSet.register .wellKnown).enums) ∧
        (a.table.message? ".p.Root").map (fun m => (m.parent, m.messages, m.enums)) =
          some (none, [".p.Root.Left", ".p.Root.Right"], [".p.Root.Kind"]) ∧
        (a.table.message? ".p.Root.Left.Leaf").map (·.parent) = some (some ".p.Root.Left") ∧
        (a.table.enum? ".p.Root.Kind").map (·.parent) = some (some ".p.Root") ∧
        (a.table.message? ".Bare").map (·.parent) = some none := by
  have hdistinct : treeSet.Distinct := ⟨by decide, by decide⟩
  have hseen : ∃ r ∈ (treeSet.ingest ⟨[], none⟩ none).toOption,
      (r.1.table.message? ".p.Root").map (fun m => (m.parent, m.messages, m.enums)) =
          some (none, [".p.Root.Left", ".p.Root.Right"], [".p.Root.Kind"]) ∧
        (r.1.table.message? ".p.Root.Left.Leaf").map (·.parent) = some (some ".p.Root.Left") ∧
        (r.1.table.enum? ".p.Root.Kind").map (·.parent) = some (some ".p.Root") ∧
        (r.1.table.message? ".Bare").map (·.parent) = some none := by
    decide +kernel
  obtain ⟨⟨a, counts⟩, hok, hseen⟩ := exists_ok_of_toOption hseen
  exact ⟨hdistinct, a, counts, hok, DescriptorSet.ingest_nested hdistinct hok, hseen⟩

end Trees

end ServiceModel.Descriptor
