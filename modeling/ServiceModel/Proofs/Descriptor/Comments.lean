import ServiceModel.Proofs.Descriptor.Groups
import ServiceModel.Proofs.Descriptor.Nesting
import ServiceModel.Proofs.Descriptor.Places

/-!
Comments of declarations.  A comment belongs to the declaration at its place, and places are made of the
positions that declarations have in their file.  Methods and groups that are left out keep theirs, so what
comes behind them has its own comment still.
-/

namespace ServiceModel.Descriptor

variable {t u : SymbolTable} {f : FileDescriptor} {o : Targets}

/-! ### Texts -/

/-- A location says the text of its leading comment, or that of its trailing one if the leading one is
blank or missing.  Of a blank comment it says nothing. -/
inductive Location.Says (l : Location) : String → Prop where
  | leading {c} : l.leadingComments = some c → normalizeComment c ≠ "" →
      Location.Says l (normalizeComment c)
  | trailing {c} : (∀ c', l.leadingComments = some c' → normalizeComment c' = "") →
      l.trailingComments = some c → normalizeComment c ≠ "" → Location.Says l (normalizeComment c)

theorem find?_toList {α : Type} (p : α → Bool) (x : Option α) : x.toList.find? p = x.filter p := by
  cases x with
  | none => rfl
  | some a => cases h : p a <;> simp [h, Option.filter]

theorem Location.comment?_eq (l : Location) :
    l.comment? = ((l.leadingComments.map normalizeComment).filter (· != "")).or
      ((l.trailingComments.map normalizeComment).filter (· != "")) := by
  rw [comment?, List.map_append, List.find?_append]
  simp only [← Option.toList_map, find?_toList]

theorem Location.comment?_eq_some_iff {l : Location} {text : String} :
    l.comment? = some text ↔ l.Says text := by
  have hsome : ∀ c? : Option String, (c?.map normalizeComment).filter (· != "") = some text ↔
      ∃ c, c? = some c ∧ normalizeComment c = text ∧ normalizeComment c ≠ "" := by
    intro c?
    simp only [Option.filter_eq_some_iff, Option.map_eq_some_iff, bne_iff_ne]
    constructor
    · rintro ⟨⟨c, hc, rfl⟩, hne⟩
      exact ⟨c, hc, rfl, hne⟩
    · rintro ⟨c, hc, rfl, hne⟩
      exact ⟨⟨c, hc, rfl⟩, hne⟩
  rw [comment?_eq, Option.or_eq_some_iff, hsome, hsome]
  constructor
  · rintro (⟨c, hc, rfl, hne⟩ | ⟨hblank, c, hc, rfl, hne⟩)
    · exact .leading hc hne
    · refine .trailing (fun c' hc' => ?_) hc hne
      simpa [hc'] using hblank
  · rintro (⟨hc, hne⟩ | ⟨hblank, hc, hne⟩)
    · exact Or.inl ⟨_, hc, rfl, hne⟩
    · refine Or.inr ⟨?_, _, hc, rfl, hne⟩
      cases hleading : l.leadingComments with
      | none => rfl
      | some c' => simp [hblank c' hleading]

theorem Location.comment?_eq_none_iff {l : Location} :
    l.comment? = none ↔ ∀ text, ¬ l.Says text := by
  simp only [Option.eq_none_iff_forall_ne_some, ne_eq, comment?_eq_some_iff]

/-- A file says of a place what the last of its locations there says that says anything; the empty text if
none does. -/
inductive FileDescriptor.Says (f : FileDescriptor) (place : Place) : String → Prop where
  | last {front l back text} : f.locations.getD [] = front ++ l :: back → l.path = place →
      l.Says text → (∀ l' ∈ back, l'.path = place → ∀ text', ¬ l'.Says text') →
      FileDescriptor.Says f place text
  | silent : (∀ l ∈ f.locations.getD [], l.path = place → ∀ text, ¬ l.Says text) →
      FileDescriptor.Says f place ""

/-- What a location says of a place. -/
def Location.commentAt? (place : Place) (l : Location) : Option String :=
  if l.path = place then l.comment? else none

theorem Location.commentAt?_eq_some_iff {l : Location} {place : Place} {text : String} :
    l.commentAt? place = some text ↔ l.path = place ∧ l.Says text := by
  rw [commentAt?, ← comment?_eq_some_iff]
  split <;> simp_all

theorem Location.commentAt?_eq_none_iff {l : Location} {place : Place} :
    l.commentAt? place = none ↔ (l.path = place → ∀ text, ¬ l.Says text) := by
  rw [commentAt?, ← comment?_eq_none_iff]
  split <;> simp_all

theorem findSome?_reverse_eq_some_iff {α β : Type} {g : α → Option β} {xs : List α} {b : β} :
    xs.reverse.findSome? g = some b ↔
      ∃ front x back, xs = front ++ x :: back ∧ g x = some b ∧ ∀ y ∈ back, g y = none := by
  rw [List.findSome?_eq_some_iff]
  constructor
  · rintro ⟨back, x, front, heq, hx, hback⟩
    refine ⟨front.reverse, x, back.reverse, ?_, hx, fun y hy => hback y (List.mem_reverse.1 hy)⟩
    rw [← List.reverse_reverse xs, heq]
    simp
  · rintro ⟨front, x, back, rfl, hx, hback⟩
    exact ⟨back.reverse, x, front.reverse, by simp, hx, fun y hy => hback y (List.mem_reverse.1 hy)⟩

theorem commentAt_eq (place : Place) (ls : List Location) :
    commentAt place ls = (ls.reverse.findSome? (Location.commentAt? place)).getD "" := by
  have hsearch : (fun l : Location => if l.path = place then l.comment? else none) =
      Location.commentAt? place := rfl
  unfold commentAt
  rw [hsearch]
  cases ls.reverse.findSome? (Location.commentAt? place) <;> rfl

/-- What a file says of a place is its comment there. -/
theorem FileDescriptor.says_comment (f : FileDescriptor) (place : Place) :
    f.Says place (f.comment place) := by
  rw [comment, commentAt_eq]
  cases h : (f.locations.getD []).reverse.findSome? (Location.commentAt? place) with
  | some text =>
      obtain ⟨front, l, back, hsplit, hl, hback⟩ := findSome?_reverse_eq_some_iff.1 h
      obtain ⟨hpath, htext⟩ := Location.commentAt?_eq_some_iff.1 hl
      exact .last hsplit hpath htext fun l' hl' =>
        Location.commentAt?_eq_none_iff.1 (hback l' hl')
  | none =>
      refine .silent fun l hl => ?_
      exact Location.commentAt?_eq_none_iff.1
        (List.findSome?_eq_none_iff.1 h l (List.mem_reverse.2 hl))

/-- It says nothing else of it. -/
theorem FileDescriptor.Says.eq_comment {place : Place} {text : String} (h : f.Says place text) :
    text = f.comment place := by
  rw [comment, commentAt_eq]
  cases h with
  | @last front l back _ hsplit hpath htext hback =>
      have hl := Location.commentAt?_eq_some_iff.2 ⟨hpath, htext⟩
      rw [findSome?_reverse_eq_some_iff.2 ⟨front, l, back, hsplit, hl, fun l' hl' =>
        Location.commentAt?_eq_none_iff.2 (hback l' hl')⟩]
      rfl
  | silent hsilent =>
      rw [List.findSome?_eq_none_iff.2 fun l hl =>
        Location.commentAt?_eq_none_iff.2 (hsilent l (List.mem_reverse.1 hl))]
      rfl

/-! ### Entities -/

/-- A message with the comment at its place, and with fields and groups that have those at theirs.  The
positions of its groups are those of their declarations, `kept`. -/
structure FileDescriptor.DocumentsMessage (f : FileDescriptor) (p : Descent) (d : MessageDescriptor)
    (m : Message) : Prop where
  message : f.Says p.place m.documentation
  fields : List.Forall₂ (fun x field => field.name = x.1.name ∧
    f.Says (Descent.place (⟨.field, x.2⟩ :: p)) field.documentation) d.fields.zipIdx m.fields
  oneOfs : ∃ kept : List Nat, kept.Pairwise (· < ·) ∧
    (∀ i, i ∈ kept ↔ i < d.oneOfs.length ∧ ∃ x ∈ d.fields, x.Joins i) ∧
    List.Forall₂ (fun i group => d.oneOfs[i]? = some group.name ∧
      f.Says (Descent.place (⟨.oneOf, i⟩ :: p)) group.documentation) kept m.oneOfs

/-- An enum with the comment at its place, and with values that have those at theirs. -/
structure FileDescriptor.DocumentsEnum (f : FileDescriptor) (p : Descent) (d : EnumDescriptor)
    (e : Enum) : Prop where
  enum : f.Says p.place e.documentation
  values : List.Forall₂ (fun x value => value.name = x.1.name ∧
    f.Says (Descent.place (⟨.value, x.2⟩ :: p)) value.documentation) d.values.zipIdx e.values

theorem documentsMessage_finished {p : Descent} {s : MessageSite} (hp : s.place = p.place)
    (hs : s.Resolves t f) : f.DocumentsMessage p s.descriptor (s.finished t f) := by
  obtain ⟨fields, hfields⟩ := hs
  refine ⟨?_, ?_, s.kept, s.pairwise_kept, fun i => MessageSite.mem_kept_iff, ?_⟩
  · rw [← hp]
    exact f.says_comment s.place
  · rw [MessageSite.finished, hfields]
    refine (resolveFields_eq_ok hfields).imp fun x field hfield => ?_
    obtain ⟨plain, hplain, rfl⟩ := hfield
    have hname : plain.name = x.1.name := resolveField_name hplain
    rw [Descent.place, ← hp]
    exact ⟨hname, f.says_comment _⟩
  · refine (s.forall₂_groups f).imp fun i group hgroup => ⟨hgroup.name, ?_⟩
    rw [Descent.place, ← hp, hgroup.documentation]
    exact f.says_comment _

theorem documentsEnum_enum {p : Descent} {s : EnumSite} (hp : s.place = p.place) :
    f.DocumentsEnum p s.descriptor (s.enum f) := by
  constructor
  · rw [← hp]
    exact f.says_comment s.place
  · refine List.forall₂_map_right_iff.2 (List.forall₂_same.2 fun x _ => ⟨rfl, ?_⟩)
    rw [Descent.place, ← hp]
    exact f.says_comment _

/-! ### Models -/

namespace DescriptorSet

variable {s : DescriptorSet}

/-- No two messages, no two enums, no two services of targets and no two methods of those have one full
name. -/
structure DistinctNames (s : DescriptorSet) (o : Targets) : Prop where
  types : s.Distinct
  services : ((s.declarations o).map Declaration.id).Nodup
  methods : ((s.declarations o).flatMap fun e =>
    e.service.methods.map fun d => e.id ++ "." ++ d.name).Nodup

/-- A table in which every declaration of a set has the comment at its place.  Of services and methods these
are those of targets, and of methods those that are usable. -/
structure Documented (s : DescriptorSet) (o : Targets) (t : SymbolTable) : Prop where
  messages : ∀ f ∈ s.files, ∀ p id d, f.MessageAt p id d →
    ∃ m, t.message? id = some m ∧ f.DocumentsMessage p d m
  enums : ∀ f ∈ s.files, ∀ p id d, f.EnumAt p id d →
    ∃ e, t.enum? id = some e ∧ f.DocumentsEnum p d e
  services : ∀ f ∈ s.targets o, ∀ i d, f.services[i]? = some d →
    ∃ e, t.service? (f.scope ++ "." ++ d.name) = some e ∧
      f.Says (Descent.place [⟨.service, i⟩]) e.documentation
  methods : ∀ f ∈ s.targets o, ∀ i d j md, f.services[i]? = some d → d.methods[j]? = some md →
    (t.methods.contains (f.scope ++ "." ++ d.name ++ "." ++ md.name) = true ↔ md.Usable t) ∧
      ∀ m, t.method? (f.scope ++ "." ++ d.name ++ "." ++ md.name) = some m →
        f.Says (Descent.place [⟨.method, j⟩, ⟨.service, i⟩]) m.documentation

/-- The methods that the targets of a set declare, with their files and the positions that lead to them, and
their full names. -/
def methodNames (s : DescriptorSet) (o : Targets) : List ((FileDescriptor × Nat × Nat) × String) :=
  (s.targets o).flatMap fun f => f.services.zipIdx.flatMap fun (d, i) =>
    d.methods.zipIdx.map fun (md, j) => ((f, i, j), memberId (f.serviceId d) md.name)

theorem mem_methodNames {i j : Nat} {d : ServiceDescriptor} {md : MethodDescriptor}
    (hf : f ∈ s.targets o) (hd : f.services[i]? = some d) (hmd : d.methods[j]? = some md) :
    ((f, i, j), memberId (f.serviceId d) md.name) ∈ s.methodNames o := by
  refine List.mem_flatMap.2 ⟨f, hf, List.mem_flatMap.2 ⟨(d, i), ?_, List.mem_map.2 ⟨(md, j), ?_, rfl⟩⟩⟩
  · exact List.mem_zipIdx_iff_getElem?.2 hd
  · exact List.mem_zipIdx_iff_getElem?.2 hmd

theorem map_snd_methodNames (s : DescriptorSet) (o : Targets) :
    (s.methodNames o).map Prod.snd = (s.declarations o).flatMap fun e =>
      e.service.methods.map fun d => memberId e.id d.name := by
  rw [methodNames, declarations, declarationsOf, List.map_flatMap, List.flatMap_assoc]
  refine List.flatMap_congr fun f _ => ?_
  rw [List.map_flatMap, List.flatMap_map]
  conv_rhs => rw [← List.zipIdx_map_fst 0 f.services, List.flatMap_map]
  refine List.flatMap_congr fun x _ => ?_
  rw [List.map_map]
  conv_rhs => rw [← List.zipIdx_map_fst 0 x.1.methods, List.map_map]
  rfl

/-- A full name leads to one method. -/
theorem DistinctNames.method_unique (h : s.DistinctNames o) {f f' : FileDescriptor}
    {i i' j j' : Nat} {d d' : ServiceDescriptor} {md md' : MethodDescriptor}
    (hf : f ∈ s.targets o) (hd : f.services[i]? = some d) (hmd : d.methods[j]? = some md)
    (hf' : f' ∈ s.targets o) (hd' : f'.services[i']? = some d') (hmd' : d'.methods[j']? = some md')
    (hid : memberId (f'.serviceId d') md'.name = memberId (f.serviceId d) md.name) :
    f' = f ∧ i' = i ∧ j' = j := by
  have hnodup : ((s.methodNames o).map Prod.snd).Nodup := by
    rw [map_snd_methodNames]
    exact h.methods
  have hentry := List.inj_on_of_nodup_map hnodup (mem_methodNames hf' hd' hmd')
    (mem_methodNames hf hd hmd) hid
  simpa using congrArg Prod.fst hentry

theorem mem_targets_of_declaresAt {k : Nat} {d : ServiceDescriptor}
    (h : DeclaresAt o s.files t u f k d) : f ∈ s.targets o ∧ f.services[k]? = some d := by
  obtain ⟨before, after, hfs, htarget, -, hd⟩ := h
  refine ⟨List.mem_filter.2 ⟨?_, htarget⟩, hd⟩
  rw [hfs]
  exact List.mem_append_right _ List.mem_cons_self

section Ingested

variable {a : Api} {counts : IngestionCounts}

theorem Distinct.exists_documentedMessage (h : s.Distinct) (hu : Ingests s o u a counts)
    (hf : f ∈ s.files) {p : Descent} {id : String} {d : MessageDescriptor} (hd : f.MessageAt p id d) :
    ∃ m, a.table.message? id = some m ∧ f.DocumentsMessage p d m := by
  obtain ⟨parent, hsite⟩ := hd.exists_site
  obtain ⟨hresolves, hm⟩ := (h.lastDeclares hf hsite).message?_resolveMessages hu.resolved
  refine ⟨_, ?_, documentsMessage_finished rfl hresolves⟩
  rw [SymbolTable.message?, hu.messages]
  exact hm

theorem Distinct.exists_documentedEnum (h : s.Distinct) (hu : Ingests s o u a counts)
    (hf : f ∈ s.files) {p : Descent} {id : String} {d : EnumDescriptor} (hd : f.EnumAt p id d) :
    ∃ e, a.table.enum? id = some e ∧ f.DocumentsEnum p d e := by
  obtain ⟨parent, hsite⟩ := hd.exists_site
  have hregistered := enum?_register h hf hsite .wellKnown
  rw [SymbolTable.enum?, ← (resolveMessages_grows hu.resolved).enums, ← hu.enums] at hregistered
  exact ⟨_, hregistered, documentsEnum_enum (s := ⟨id, parent, p.place, d⟩) rfl⟩

variable {i j : Nat} {d : ServiceDescriptor} {md : MethodDescriptor}

/-- The method under a name is built from the one declaration of that name. -/
theorem DistinctNames.documentation_eq (h : s.DistinctNames o) (hu : Ingests s o u a counts)
    {m : Method} (hf : f ∈ s.targets o) (hd : f.services[i]? = some d)
    (hmd : d.methods[j]? = some md)
    (hm : a.table.method? (memberId (f.serviceId d) md.name) = some m) :
    m.documentation = f.comment (Descent.place [⟨.method, j⟩, ⟨.service, i⟩]) := by
  obtain ⟨hid, v, f', i', d', j', md', built, hdeclares, hmd', hbuilt, rfl⟩ :=
    hu.method?_eq_some_iff.1 hm
  obtain ⟨hf', hd'⟩ := mem_targets_of_declaresAt hdeclares
  have hname : memberId (f'.serviceId d') md'.name = memberId (f.serviceId d) md.name :=
    (method?_eq_some hbuilt).2.1.symm.trans hid
  obtain ⟨rfl, rfl, rfl⟩ := h.method_unique hf hd hmd hf' hd' hmd' hname
  rfl

theorem DistinctNames.contains_methods_iff (h : s.DistinctNames o) (hu : Ingests s o u a counts)
    (hf : f ∈ s.targets o) (hd : f.services[i]? = some d) (hmd : d.methods[j]? = some md) :
    a.table.methods.contains (memberId (f.serviceId d) md.name) = true ↔ md.Usable a.table := by
  rw [hu.contains_methods_iff]
  constructor
  · rintro ⟨e, he, md', hmd', husable, hid⟩
    obtain ⟨f', hf', he⟩ := List.mem_flatMap.1 he
    obtain ⟨d', hd', rfl⟩ := List.mem_map.1 he
    obtain ⟨i', hd'⟩ := List.mem_iff_getElem?.1 hd'
    obtain ⟨j', hmd'⟩ := List.mem_iff_getElem?.1 hmd'
    obtain ⟨rfl, rfl, rfl⟩ := h.method_unique hf hd hmd hf' hd' hmd' hid
    rw [hd] at hd'
    cases hd'
    rw [hmd] at hmd'
    cases hmd'
    exact husable
  · intro husable
    have hdeclared : (⟨f, d⟩ : Declaration) ∈ s.declarations o :=
      List.mem_flatMap.2 ⟨f, hf, List.mem_map_of_mem (List.mem_of_getElem? hd)⟩
    exact ⟨⟨f, d⟩, hdeclared, md, List.mem_of_getElem? hmd, husable, rfl⟩

theorem DistinctNames.documented (h : s.DistinctNames o) (hu : Ingests s o u a counts) :
    s.Documented o a.table where
  messages _ hf _ _ _ hd := h.types.exists_documentedMessage hu hf hd
  enums _ hf _ _ _ hd := h.types.exists_documentedEnum hu hf hd
  services f hf i d hd := by
    obtain ⟨v, hv⟩ := hu.declaresAt hf hd
    exact ⟨_, hu.service?_eq_some h.services hv, f.says_comment _⟩
  methods f hf i d j md hd hmd := by
    refine ⟨h.contains_methods_iff hu hf hd hmd, fun m hm => ?_⟩
    rw [h.documentation_eq hu hf hd hmd hm]
    exact f.says_comment _

end Ingested

/-- Declarations of a file have places of their own, and in a model every declaration of its set has the
comment at its place. -/
theorem ingest_comments :
    (∀ f : FileDescriptor, f.Addressable → ∀ p q, f.Reaches p → f.Reaches q → p ≠ q →
      p.place ≠ q.place) ∧
    ∀ (s : DescriptorSet) (o : Targets) (config : Option ServiceConfig) (a : Api)
        (counts : IngestionCounts), s.DistinctNames o → s.ingest o config = .ok (a, counts) →
      s.Documented o a.table := by
  constructor
  · intro f hf p q hp hq hne hplace
    exact hne (Descent.place_injective (hp.fits hf) (hq.fits hf) hplace)
  · intro s o config a counts hnames h
    obtain ⟨u, hu⟩ := ingest_ingests h
    exact hnames.documented hu

/-- A message with two groups, the first of which no field names. -/
def commentedShelf : MessageDescriptor :=
  { plainMessage "Shelf" [memberField "room" (some 1) false, memberField "box" (some 1) false] with
    nested := [plainMessage "Book" []]
    enums := [⟨"Size", [⟨"SMALL", 0, .empty⟩, ⟨"LARGE", 1, .empty⟩], .empty⟩]
    oneOfs := ["owner", "stand"] }

/-- A file with comments on what stands behind a group and a method that are left out. -/
def commentedFile : FileDescriptor :=
  { plainFile "shelf.proto" "shelf" [commentedShelf]
      [plainService "Library" [plainMethod "Lose" ".shelf.Lost" .empty,
        plainMethod "Find" ".shelf.Shelf.Book" .empty]] with
    locations := some [⟨[4, 0], some " A shelf.", some " Trails."⟩, ⟨[4, 0, 8, 1], none, some " Stands."⟩,
      ⟨[4, 0, 2, 1], some "  ", some " A box."⟩, ⟨[4, 0, 4, 0, 2, 1], some " Large.", none⟩,
      ⟨[6, 0, 2, 0], some " Loses.", none⟩, ⟨[6, 0, 2, 1], some " Finds.\n", none⟩,
      ⟨[6, 0, 2, 1], none, none⟩] }

theorem addressable_commentedFile : commentedFile.Addressable where
  messages := by decide +kernel
  enums := by decide +kernel
  services := by decide +kernel
  message p id d hd := by
    have hall : ∀ s ∈ commentedFile.messageSites, s.descriptor.fields.length < 2 ^ 31 ∧
        s.descriptor.nested.length < 2 ^ 31 ∧ s.descriptor.enums.length < 2 ^ 31 ∧
          s.descriptor.oneOfs.length < 2 ^ 31 := by decide +kernel
    obtain ⟨parent, hsite⟩ := hd.exists_site
    exact hall _ hsite
  enum p id e he := by
    have hall : ∀ s ∈ commentedFile.enumSites, s.descriptor.values.length < 2 ^ 31 := by
      decide +kernel
    obtain ⟨parent, hsite⟩ := he.exists_site
    exact hall _ hsite
  service := by decide +kernel

theorem ingest_comments_shelf :
    (commentedFile.Addressable ∧ commentedFile.Reaches [⟨.service, 0⟩] ∧
      commentedFile.Reaches [⟨.method, 1⟩, ⟨.service, 0⟩] ∧
      Descent.place [⟨.service, 0⟩] ≠ Descent.place [⟨.method, 1⟩, ⟨.service, 0⟩]) ∧
    (DescriptorSet.mk [commentedFile]).DistinctNames ⟨[], none⟩ ∧
      ∃ a counts, (DescriptorSet.mk [commentedFile]).ingest ⟨[], none⟩ none = .ok (a, counts) ∧
        (DescriptorSet.mk [commentedFile]).Documented ⟨[], none⟩ a.table ∧
        ∃ m, a.table.method? ".shelf.Library.Find" = some m ∧ m.documentation = "Finds." := by
  have hservice : commentedFile.Reaches [⟨.service, 0⟩] := .service (by decide)
  have hmethod : commentedFile.Reaches [⟨.method, 1⟩, ⟨.service, 0⟩] := .method rfl (by decide)
  have hnames : (DescriptorSet.mk [commentedFile]).DistinctNames ⟨[], none⟩ :=
    ⟨⟨by decide, by decide⟩, by decide, by decide⟩
  have hbuilt : (((DescriptorSet.mk [commentedFile]).ingest ⟨[], none⟩ none).toOption.bind fun r =>
      r.1.table.method? ".shelf.Library.Find").isSome = true := by
    decide +kernel
  refine ⟨⟨addressable_commentedFile, hservice, hmethod, ?_⟩, hnames, ?_⟩
  · exact ingest_comments.1 _ addressable_commentedFile _ _ hservice hmethod (by decide)
  · obtain ⟨m, hfound⟩ := Option.isSome_iff_exists.1 hbuilt
    obtain ⟨⟨a, counts⟩, h, hm⟩ := Option.bind_eq_some_iff.1 hfound
    rw [toOption_eq_some_iff] at h
    have hdocumented := ingest_comments.2 _ _ _ _ _ hnames h
    refine ⟨a, counts, h, hdocumented, m, hm, ?_⟩
    have htext := (hdocumented.methods commentedFile (List.mem_cons_self ..) 0 _ 1 _ rfl rfl).2 m hm
    rw [htext.eq_comment]
    decide +kernel

end DescriptorSet

end ServiceModel.Descriptor
