import Mathlib.Data.List.Forall2
import ServiceModel.Proofs.Descriptor.LastDeclaration

/-!
Groups of a message.  Fields go one by one into the group at the position they name, and groups that stay
empty are left out.  So the groups of a message are those of its declarations that some field names, in
their order, and the position that a field names need not be that of its group in the message.
-/

namespace ServiceModel.Descriptor

variable {t t' : SymbolTable} {f : FileDescriptor}

/-! ### Members -/

/-- A field names the group at a position.  An optional field of `proto3` names only a group of its own. -/
def FieldDescriptor.Joins (d : FieldDescriptor) (i : Nat) : Prop :=
  d.oneOfIndex = some i ∧ d.proto3Optional = false

instance (d : FieldDescriptor) (i : Nat) : Decidable (d.Joins i) :=
  inferInstanceAs (Decidable (_ ∧ _))

theorem FieldDescriptor.Joins.unique {d : FieldDescriptor} {i j : Nat} (hi : d.Joins i)
    (hj : d.Joins j) : i = j :=
  Option.some.inj (hi.1.symm.trans hj.1)

theorem groupOf_eq_some_iff {count i : Nat} {d : FieldDescriptor} :
    groupOf count d = some i ↔ i < count ∧ d.Joins i := by
  unfold groupOf FieldDescriptor.Joins
  cases d.proto3Optional with
  | true => simp
  | false =>
      simp only [Bool.false_eq_true, if_false, and_true, Option.filter_eq_some_iff,
        decide_eq_true_eq]
      exact and_comm

theorem isSome_groupOf_iff {count : Nat} {d : FieldDescriptor} :
    (groupOf count d).isSome = true ↔ ∃ i < count, d.Joins i := by
  simp only [Option.isSome_iff_exists, groupOf_eq_some_iff]

/-- The names of the fields in the group at a position, in their order. -/
def membersAt (ds : List FieldDescriptor) (i : Nat) : List String :=
  (ds.filter fun d => d.Joins i).map (·.name)

theorem membersAt_ne_nil_iff {ds : List FieldDescriptor} {i : Nat} :
    membersAt ds i ≠ [] ↔ ∃ d ∈ ds, d.Joins i := by
  simp [membersAt, List.filter_eq_nil_iff]

/-! ### Filling -/

/-- Puts a field into the group at the position it names, if there is one. -/
def fillGroup (groups : List OneOf) (d : FieldDescriptor) : List OneOf :=
  match groupOf groups.length d with
  | some i => groups.modify i fun o => { o with fields := o.fields ++ [d.name] }
  | none => groups

theorem getElem?_fillGroup (groups : List OneOf) (d : FieldDescriptor) (i : Nat) :
    (fillGroup groups d)[i]? =
      groups[i]?.map fun o => { o with fields := o.fields ++ membersAt [d] i } := by
  have hnone : ¬ d.Joins i → membersAt [d] i = [] := fun h => by simp [membersAt, h]
  unfold fillGroup
  cases hgroup : groupOf groups.length d with
  | none =>
      by_cases hi : i < groups.length
      · have hjoins : ¬ d.Joins i := by
          intro hjoins
          rw [groupOf_eq_some_iff.2 ⟨hi, hjoins⟩] at hgroup
          cases hgroup
        simp [hnone hjoins]
      · simp [List.getElem?_eq_none (Nat.le_of_not_lt hi)]
  | some j =>
      obtain ⟨-, hj⟩ := groupOf_eq_some_iff.1 hgroup
      dsimp only
      rw [List.getElem?_modify]
      by_cases heq : j = i
      · subst heq
        simp [membersAt, hj]
      · have hjoins : ¬ d.Joins i := fun hi => heq (hj.unique hi)
        simp [heq, hnone hjoins]

/-- What is in a group once all fields are in theirs. -/
theorem getElem?_foldl_fillGroup (groups : List OneOf) (ds : List FieldDescriptor) (i : Nat) :
    (ds.foldl fillGroup groups)[i]? =
      groups[i]?.map fun o => { o with fields := o.fields ++ membersAt ds i } := by
  induction ds generalizing groups with
  | nil => simp [membersAt]
  | cons d ds ih =>
      have hmembers : membersAt (d :: ds) i = membersAt [d] i ++ membersAt ds i := by
        simp only [membersAt, ← List.map_append, ← List.filter_append, List.singleton_append]
      rw [List.foldl_cons, ih, getElem?_fillGroup, Option.map_map, hmembers]
      simp [Function.comp_def]

/-! ### Groups of a site -/

namespace MessageSite

/-- The group at a position of a site, with the fields that name it. -/
def groupAt (f : FileDescriptor) (s : MessageSite) (name : String) (i : Nat) : OneOf :=
  { name
    id := s.id ++ "." ++ name
    documentation := f.comment (s.place.child Place.messageOneOf i)
    fields := membersAt s.descriptor.fields i }

/-- The groups of a site without their fields. -/
def emptyGroups (f : FileDescriptor) (s : MessageSite) : List OneOf :=
  s.descriptor.oneOfs.zipIdx.map fun (name, i) => { s.groupAt f name i with fields := [] }

theorem groups_eq (f : FileDescriptor) (s : MessageSite) :
    s.groups f = (s.descriptor.oneOfs.zipIdx.map fun (name, i) => s.groupAt f name i).filter
      fun o => !o.fields.isEmpty := by
  unfold groups
  refine congrArg _ (List.map_congr_left ?_)
  rintro ⟨name, i⟩ hx
  have hlt : i < s.descriptor.oneOfs.length := by simpa using List.snd_lt_add_of_mem_zipIdx hx
  have hmembers : (s.descriptor.fields.filter fun d =>
      groupOf s.descriptor.oneOfs.length d == some i) =
        s.descriptor.fields.filter fun d => d.Joins i := by
    refine List.filter_congr fun d _ => ?_
    rw [Bool.eq_iff_iff, beq_iff_eq, groupOf_eq_some_iff, decide_eq_true_iff]
    exact and_iff_right hlt
  simp only [groupAt, memberId, membersAt, hmembers]

/-- The groups of a site are filled field by field, and those left empty go. -/
theorem groups_eq_foldl (f : FileDescriptor) (s : MessageSite) :
    s.groups f = (s.descriptor.fields.foldl fillGroup (s.emptyGroups f)).filter
      fun o => !o.fields.isEmpty := by
  rw [groups_eq]
  refine congrArg _ (List.ext_getElem? fun i => ?_)
  rw [getElem?_foldl_fillGroup, emptyGroups]
  simp [groupAt, Function.comp_def]

/-- The positions of the groups that have members. -/
def kept (s : MessageSite) : List Nat :=
  (List.range s.descriptor.oneOfs.length).filter fun i => membersAt s.descriptor.fields i ≠ []

theorem mem_kept_iff {s : MessageSite} {i : Nat} :
    i ∈ s.kept ↔ i < s.descriptor.oneOfs.length ∧ ∃ d ∈ s.descriptor.fields, d.Joins i := by
  simp only [kept, List.mem_filter, List.mem_range, decide_eq_true_eq, membersAt_ne_nil_iff]

theorem pairwise_kept (s : MessageSite) : s.kept.Pairwise (· < ·) :=
  List.pairwise_lt_range.filter _

/-- A group as the declaration at a position makes it. -/
structure IsGroup (f : FileDescriptor) (s : MessageSite) (i : Nat) (o : OneOf) : Prop where
  name : s.descriptor.oneOfs[i]? = some o.name
  id : o.id = s.id ++ "." ++ o.name
  documentation : o.documentation = f.comment (s.place.child Place.messageOneOf i)
  fields : o.fields = (s.descriptor.fields.filter fun d => d.Joins i).map (·.name)
  nonempty : o.fields ≠ []

theorem forall₂_groups (f : FileDescriptor) (s : MessageSite) :
    List.Forall₂ (s.IsGroup f) s.kept (s.groups f) := by
  have hall : List.Forall₂ (fun i o => ∃ name, s.descriptor.oneOfs[i]? = some name ∧
      o = s.groupAt f name i) (List.range s.descriptor.oneOfs.length)
        (s.descriptor.oneOfs.zipIdx.map fun (name, i) => s.groupAt f name i) := by
    rw [List.range_eq_range', ← List.zipIdx_map_snd, List.forall₂_map_left_iff,
      List.forall₂_map_right_iff, List.forall₂_same]
    rintro ⟨name, i⟩ hx
    exact ⟨name, List.mem_zipIdx_iff_getElem?.1 hx, rfl⟩
  -- positions and groups are left out together
  have hkept : List.Forall₂ (fun i o => ∃ name, s.descriptor.oneOfs[i]? = some name ∧
      o = s.groupAt f name i) s.kept (s.groups f) := by
    rw [kept, groups_eq]
    refine List.rel_filter (fun i o hgroup => ?_) hall
    obtain ⟨name, -, rfl⟩ := hgroup
    simp [groupAt]
  have hfilled : ∀ i ∈ s.kept, membersAt s.descriptor.fields i ≠ [] :=
    fun i hi => membersAt_ne_nil_iff.2 (mem_kept_iff.1 hi).2
  refine ((List.forall₂_and_left _ _).2 ⟨hfilled, hkept⟩).imp fun i o hgroup => ?_
  obtain ⟨hne, name, hname, rfl⟩ := hgroup
  exact ⟨hname, rfl, rfl, rfl, hne⟩

end MessageSite

/-! ### Sharing out -/

theorem filter_append_filter_perm {α : Type} {p q : α → Bool}
    (h : ∀ x, q x = true → p x = false) (xs : List α) :
    (xs.filter p ++ xs.filter q).Perm (xs.filter fun x => p x || q x) := by
  have hp : (xs.filter fun x => p x || q x).filter p = xs.filter p := by
    rw [List.filter_filter]
    exact List.filter_congr fun x _ => by cases p x <;> simp
  have hq : ((xs.filter fun x => p x || q x).filter fun x => !p x) = xs.filter q := by
    rw [List.filter_filter]
    refine List.filter_congr fun x _ => ?_
    cases hx : q x with
    | false => simp
    | true => simp [h x hx]
  rw [← hp, ← hq]
  exact List.filter_append_perm p _

/-- Groups at different positions share out the fields that are in one of them. -/
theorem flatMap_joins_perm {positions : List Nat} (h : positions.Nodup)
    (ds : List FieldDescriptor) :
    (positions.flatMap fun i => ds.filter fun d => d.Joins i).Perm
      (ds.filter fun d => ∃ i ∈ positions, d.Joins i) := by
  induction positions with
  | nil => simp
  | cons i positions ih =>
      obtain ⟨hnew, h⟩ := List.nodup_cons.1 h
      have hapart : ∀ d : FieldDescriptor, decide (∃ j ∈ positions, d.Joins j) = true →
          decide (d.Joins i) = false := by
        intro d hd
        obtain ⟨j, hj, hjoins⟩ := of_decide_eq_true hd
        exact decide_eq_false fun hi => hnew (hi.unique hjoins ▸ hj)
      rw [List.flatMap_cons]
      refine ((ih h).append_left _).trans ((filter_append_filter_perm hapart ds).trans ?_)
      refine .of_eq (List.filter_congr fun d _ => ?_)
      simp only [List.exists_mem_cons_iff, Bool.decide_or]

/-! ### Messages -/

/-- A message with exactly the groups of its declaration that have members; `kept` are their positions
there. -/
structure MessageSite.Grouped (s : MessageSite) (f : FileDescriptor) (kept : List Nat) (m : Message) :
    Prop where
  ordered : kept.Pairwise (· < ·)
  exact : ∀ i, i ∈ kept ↔ i < s.descriptor.oneOfs.length ∧ ∃ d ∈ s.descriptor.fields, d.Joins i
  groups : List.Forall₂ (s.IsGroup f) kept m.oneOfs
  fields : List.Forall₂ (fun d field => field.name = d.name ∧ field.id = s.id ++ "." ++ d.name ∧
    (field.isOneOf = true ↔ ∃ i ∈ kept, d.Joins i)) s.descriptor.fields m.fields
  outside : ∀ d ∈ s.descriptor.fields,
    (d.proto3Optional = true ∨ d.oneOfIndex = none ∨
      ∃ i, d.oneOfIndex = some i ∧ s.descriptor.oneOfs.length ≤ i) → ∀ i ∈ kept, ¬ d.Joins i
  shared : (m.oneOfs.flatMap OneOf.fields).Perm ((m.fields.filter (·.isOneOf)).map Field.name)
  filled : m.oneOfs = (s.descriptor.fields.foldl fillGroup (s.emptyGroups f)).filter
    fun o => !o.fields.isEmpty

theorem resolveField_id {id : String} {d : FieldDescriptor} {field : Field}
    (h : resolveField t f id d = .ok field) : field.id = id ++ "." ++ d.name := by
  unfold resolveField at h
  split at h
  · cases h
  · cases h
    rfl

theorem resolveFields_grouped {s : MessageSite} {fields : List Field}
    (h : resolveFields t f s 0 s.descriptor.fields = .ok fields) :
    List.Forall₂ (fun d field => field.name = d.name ∧ field.id = s.id ++ "." ++ d.name ∧
      (field.isOneOf = true ↔ ∃ i ∈ s.kept, d.Joins i)) s.descriptor.fields fields := by
  have hfields := resolveFields_eq_ok h
  have hgroup : ∀ x ∈ s.descriptor.fields.zipIdx 0,
      ((groupOf s.descriptor.oneOfs.length x.1).isSome = true ↔ ∃ i ∈ s.kept, x.1.Joins i) := by
    intro x hx
    have hmem : x.1 ∈ s.descriptor.fields := List.fst_mem_of_mem_zipIdx hx
    simp only [isSome_groupOf_iff, MessageSite.mem_kept_iff]
    constructor
    · rintro ⟨i, hi, hjoins⟩
      exact ⟨i, ⟨hi, x.1, hmem, hjoins⟩, hjoins⟩
    · rintro ⟨i, ⟨hi, -⟩, hjoins⟩
      exact ⟨i, hi, hjoins⟩
  rw [← List.zipIdx_map_fst 0 s.descriptor.fields, List.forall₂_map_left_iff]
  refine ((List.forall₂_and_left _ _).2 ⟨hgroup, hfields⟩).imp fun x field hfield => ?_
  obtain ⟨hiff, plain, hplain, rfl⟩ := hfield
  have hname : plain.name = x.1.name := resolveField_name hplain
  have hid : plain.id = s.id ++ "." ++ x.1.name := resolveField_id hplain
  exact ⟨hname, hid, hiff⟩

/-- The members that the groups list are the fields that say they are in one. -/
theorem flatMap_fields_perm {s : MessageSite} {fields : List Field}
    (h : resolveFields t f s 0 s.descriptor.fields = .ok fields) :
    ((s.groups f).flatMap OneOf.fields).Perm ((fields.filter (·.isOneOf)).map Field.name) := by
  have hmembers : s.kept.map (membersAt s.descriptor.fields) = (s.groups f).map OneOf.fields := by
    rw [← List.forall₂_eq_eq_eq, List.forall₂_map_left_iff, List.forall₂_map_right_iff]
    exact (s.forall₂_groups f).imp fun i o ho => ho.fields.symm
  have hflags : (s.descriptor.fields.filter fun d => ∃ i ∈ s.kept, d.Joins i).map (·.name) =
      (fields.filter (·.isOneOf)).map Field.name := by
    have hfiltered := List.rel_filter (p := fun d : FieldDescriptor => ∃ i ∈ s.kept, d.Joins i)
      (q := Field.isOneOf)
      (fun d field hfield => decide_eq_true_iff.trans hfield.2.2.symm)
      (resolveFields_grouped h)
    rw [← List.forall₂_eq_eq_eq, List.forall₂_map_left_iff, List.forall₂_map_right_iff]
    exact hfiltered.imp fun d field hfield => hfield.1.symm
  have hnodup : s.kept.Nodup := s.pairwise_kept.imp Nat.ne_of_lt
  rw [← hflags, List.flatMap_def, ← hmembers, ← List.flatMap_def]
  have hperm := (flatMap_joins_perm hnodup s.descriptor.fields).map (·.name)
  rwa [List.map_flatMap] at hperm

theorem MessageSite.not_joins_kept {s : MessageSite} {d : FieldDescriptor}
    (hd : d.proto3Optional = true ∨ d.oneOfIndex = none ∨
      ∃ i, d.oneOfIndex = some i ∧ s.descriptor.oneOfs.length ≤ i) : ∀ i ∈ s.kept, ¬ d.Joins i := by
  rintro i hi ⟨hindex, hplain⟩
  obtain ⟨hlt, -⟩ := mem_kept_iff.1 hi
  rcases hd with hoptional | hnone | ⟨j, hj, hle⟩
  · rw [hplain] at hoptional
    cases hoptional
  · rw [hindex] at hnone
    cases hnone
  · rw [hindex] at hj
    cases hj
    omega

theorem MessageSite.grouped {s : MessageSite} {fields : List Field}
    (h : resolveFields t f s 0 s.descriptor.fields = .ok fields) (m : Message) :
    s.Grouped f s.kept { m with fields, oneOfs := s.groups f } where
  ordered := s.pairwise_kept
  exact _ := mem_kept_iff
  groups := s.forall₂_groups f
  fields := resolveFields_grouped h
  outside _ _ := not_joins_kept
  shared := flatMap_fields_perm h
  filled := s.groups_eq_foldl f

/-- The message that resolution puts in has exactly the groups of its declaration that have members, and so
has, in a model, every message that its set declares. -/
theorem resolve_groups :
    (∀ (t t' : SymbolTable) (f : FileDescriptor) (s : MessageSite), s.resolve f t = .ok t' →
      ∃ m kept, t' = t.putMessage m ∧ m.head = ((t.message? s.id).getD (s.outline f)).head ∧
        s.Grouped f kept m) ∧
    ∀ (s : DescriptorSet) (o : Targets) (config : Option ServiceConfig) (a : Api)
        (counts : IngestionCounts), s.ingest o config = .ok (a, counts) →
      ∀ f ∈ s.files, ∀ site ∈ f.messageSites, ∃ g last m kept, s.LastDeclares g last ∧
        last.id = site.id ∧ a.table.message? site.id = some m ∧ last.Grouped g kept m := by
  constructor
  · intro t t' f s h
    obtain ⟨fields, hfields, rfl⟩ := resolve_eq_ok h
    exact ⟨_, s.kept, rfl, rfl, MessageSite.grouped hfields _⟩
  · intro s o config a counts h f hf site hsite
    obtain ⟨g, last, hlast, hid⟩ := DescriptorSet.exists_lastDeclares hf hsite
    obtain ⟨u, hingests⟩ := DescriptorSet.ingest_ingests h
    obtain ⟨⟨fields, hfields⟩, hm⟩ := hlast.message?_resolveMessages hingests.resolved
    refine ⟨g, last, last.finished (s.register .wellKnown) g, last.kept, hlast, hid, ?_, ?_⟩
    · rw [SymbolTable.message?, hingests.messages, ← hid]
      exact hm
    · rw [MessageSite.finished, hfields]
      exact MessageSite.grouped hfields _

/-- A string field of a group. -/
def memberField (name : String) (oneOfIndex : Option Nat) (proto3Optional : Bool) : FieldDescriptor where
  name := name
  number := 1
  label := ""
  typeName := "TYPE_STRING"
  refersTo := ""
  jsonName := ""
  options := .empty
  oneOfIndex := oneOfIndex
  proto3Optional := proto3Optional

/-- A message with three groups.  The middle one is that of an optional field, and one field names a group
that is not there. -/
def shape : MessageDescriptor :=
  { plainMessage "Shape"
      [memberField "side" (some 2) false, memberField "label" (some 1) true,
        memberField "color" (some 0) false, memberField "radius" (some 2) false,
        memberField "lost" (some 7) false, memberField "plain" none false] with
    oneOfs := ["paint", "_label", "size"] }

def shapeSite : MessageSite := ⟨".p.Shape", none, [4, 0], shape⟩

def shapeFile : FileDescriptor := plainFile "a.proto" "p" [shape] []

theorem resolve_groups_shape :
    (∃ t' m kept, shapeSite.resolve shapeFile .wellKnown = .ok t' ∧
      t' = SymbolTable.wellKnown.putMessage m ∧ shapeSite.Grouped shapeFile kept m ∧
        0 ∈ kept ∧ 1 ∉ kept ∧ 2 ∈ kept) ∧
    ∃ a counts, (DescriptorSet.mk [shapeFile]).ingest ⟨[], none⟩ none = .ok (a, counts) ∧
      ∀ f ∈ [shapeFile], ∀ site ∈ f.messageSites, ∃ g last m kept,
        (DescriptorSet.mk [shapeFile]).LastDeclares g last ∧ last.id = site.id ∧
          a.table.message? site.id = some m ∧ last.Grouped g kept m := by
  have hsite : (shapeSite.resolve shapeFile .wellKnown).toOption.isSome = true := by decide +kernel
  have hset : ((DescriptorSet.mk [shapeFile]).ingest ⟨[], none⟩ none).toOption.isSome = true := by
    decide +kernel
  constructor
  · obtain ⟨t', h⟩ := Option.isSome_iff_exists.1 hsite
    rw [toOption_eq_some_iff] at h
    obtain ⟨m, kept, ht', -, hgrouped⟩ := resolve_groups.1 _ _ _ _ h
    refine ⟨t', m, kept, h, ht', hgrouped, ?_, ?_, ?_⟩
    · exact (hgrouped.exact 0).2 (by decide)
    · exact fun hmem => absurd ((hgrouped.exact 1).1 hmem) (by decide)
    · exact (hgrouped.exact 2).2 (by decide)
  · obtain ⟨⟨a, counts⟩, h⟩ := Option.isSome_iff_exists.1 hset
    rw [toOption_eq_some_iff] at h
    exact ⟨a, counts, h, resolve_groups.2 _ _ _ _ _ h⟩

end ServiceModel.Descriptor
