import Mathlib.Algebra.GroupWithZero.Nat
import ServiceModel.Proofs.Descriptor.Registration

/-!
Places of declarations.  A declaration is reached from its file by steps, each to a position in one of the
lists of what was reached before.  Its place has two numbers for each step.  The number of a list is not its
own, as fields of messages, values of enums and methods of services share one; but what was reached before
tells them apart.
-/

namespace ServiceModel.Descriptor

/-! ### Steps -/

/-- What has lists of declarations. -/
inductive Owner where
  | file
  | message
  | enum
  | service
  deriving DecidableEq

/-- The lists of declarations in a file and in what it declares. -/
inductive Kind where
  | message
  | enum
  | service
  | field
  | nested
  | nestedEnum
  | oneOf
  | value
  | method
  deriving DecidableEq

namespace Kind

/-- What has a list of this kind. -/
def owner : Kind → Owner
  | message | enum | service => .file
  | field | nested | nestedEnum | oneOf => .message
  | value => .enum
  | method => .service

/-- What the declarations in the list are, if they have lists themselves. -/
def declares : Kind → Option Owner
  | message | nested => some .message
  | enum | nestedEnum => some .enum
  | service => some .service
  | field | oneOf | value | method => none

/-- The number of the list in places. -/
def number : Kind → Int32
  | message => 4
  | enum => 5
  | service => 6
  | field => 2
  | nested => 3
  | nestedEnum => 4
  | oneOf => 8
  | value => 2
  | method => 2

/-- The lists of one owner have numbers of their own. -/
theorem number_inj {k k' : Kind} (howner : k.owner = k'.owner) (hnumber : k.number = k'.number) :
    k = k' := by
  cases k <;> cases k' <;>
    first | rfl | exact absurd howner (by decide) | exact absurd hnumber (by decide)

end Kind

structure Step where
  kind : Kind
  index : Nat
  deriving DecidableEq

/-- The steps from a file to one of its declarations, the last of them first. -/
abbrev Descent := List Step

namespace Descent

def place : Descent → Place
  | [] => []
  | s :: outer => place outer ++ [s.kind.number, Int32.ofNat s.index]

/-- What a descent leads to, if it has lists of declarations. -/
def owner : Descent → Option Owner
  | [] => some .file
  | s :: _ => s.kind.declares

/-- Each step of a descent is to a list that is there, and its position can be written in a place. -/
def Fits : Descent → Prop
  | [] => True
  | s :: outer => owner outer = some s.kind.owner ∧ s.index < 2 ^ 31 ∧ Fits outer

theorem int32_ofNat_inj {i j : Nat} (hi : i < 2 ^ 31) (hj : j < 2 ^ 31)
    (h : Int32.ofNat i = Int32.ofNat j) : i = j := by
  have hint := congrArg Int32.toInt h
  rw [Int32.toInt_ofNat_of_lt hi, Int32.toInt_ofNat_of_lt hj] at hint
  exact Int.ofNat_inj.1 hint

theorem place_cons_inj {s s' : Step} {p p' : Descent} (h : place (s :: p) = place (s' :: p')) :
    p.place = p'.place ∧ s.kind.number = s'.kind.number ∧
      Int32.ofNat s.index = Int32.ofNat s'.index := by
  obtain ⟨houter, hlast⟩ := List.append_inj' h rfl
  rw [List.cons.injEq, List.cons.injEq] at hlast
  exact ⟨houter, hlast.1, hlast.2.1⟩

/-- Different descents lead to different places. -/
theorem place_injective {p q : Descent} (hp : p.Fits) (hq : q.Fits) (h : p.place = q.place) : p = q := by
  induction p generalizing q with
  | nil =>
      cases q with
      | nil => rfl
      | cons s q => simp [place] at h
  | cons s p ih =>
      cases q with
      | nil => simp [place] at h
      | cons s' q =>
          obtain ⟨kind, index⟩ := s
          obtain ⟨kind', index'⟩ := s'
          obtain ⟨howner, hindex, hp⟩ := hp
          obtain ⟨howner', hindex', hq⟩ := hq
          obtain ⟨houter, hnumber, hposition⟩ := place_cons_inj h
          -- what was reached before tells lists of one number apart
          obtain rfl := ih hp hq houter
          obtain rfl := Kind.number_inj (Option.some.inj (howner.symm.trans howner')) hnumber
          obtain rfl := int32_ofNat_inj hindex hindex' hposition
          rfl

end Descent

/-! ### Declarations -/

namespace FileDescriptor

variable {f : FileDescriptor}

/-- A descent leads to a message with an ID. -/
inductive MessageAt (f : FileDescriptor) : Descent → String → MessageDescriptor → Prop where
  | top {i d} : f.messages[i]? = some d → MessageAt f [⟨.message, i⟩] (f.scope ++ "." ++ d.name) d
  | nested {p id d i n} : MessageAt f p id d → d.nested[i]? = some n →
      MessageAt f (⟨.nested, i⟩ :: p) (id ++ "." ++ n.name) n

/-- A descent leads to an enum with an ID. -/
inductive EnumAt (f : FileDescriptor) : Descent → String → EnumDescriptor → Prop where
  | top {i e} : f.enums[i]? = some e → EnumAt f [⟨.enum, i⟩] (f.scope ++ "." ++ e.name) e
  | nested {p id d i e} : MessageAt f p id d → d.enums[i]? = some e →
      EnumAt f (⟨.nestedEnum, i⟩ :: p) (id ++ "." ++ e.name) e

/-- A descent leads to a declaration. -/
inductive Reaches (f : FileDescriptor) : Descent → Prop where
  | message {p id d} : f.MessageAt p id d → Reaches f p
  | enum {p id e} : f.EnumAt p id e → Reaches f p
  | service {i} : i < f.services.length → Reaches f [⟨.service, i⟩]
  | field {p id d i} : f.MessageAt p id d → i < d.fields.length → Reaches f (⟨.field, i⟩ :: p)
  | oneOf {p id d i} : f.MessageAt p id d → i < d.oneOfs.length → Reaches f (⟨.oneOf, i⟩ :: p)
  | value {p id e i} : f.EnumAt p id e → i < e.values.length → Reaches f (⟨.value, i⟩ :: p)
  | method {i d j} : f.services[i]? = some d → j < d.methods.length →
      Reaches f [⟨.method, j⟩, ⟨.service, i⟩]

/-- The positions in all lists of declarations of a file can be written in places. -/
structure Addressable (f : FileDescriptor) : Prop where
  messages : f.messages.length < 2 ^ 31
  enums : f.enums.length < 2 ^ 31
  services : f.services.length < 2 ^ 31
  message : ∀ p id d, f.MessageAt p id d → d.fields.length < 2 ^ 31 ∧ d.nested.length < 2 ^ 31 ∧
    d.enums.length < 2 ^ 31 ∧ d.oneOfs.length < 2 ^ 31
  enum : ∀ p id e, f.EnumAt p id e → e.values.length < 2 ^ 31
  service : ∀ d ∈ f.services, d.methods.length < 2 ^ 31

theorem MessageAt.owner_eq {p : Descent} {id : String} {d : MessageDescriptor}
    (h : f.MessageAt p id d) : p.owner = some .message := by
  cases h <;> rfl

theorem EnumAt.owner_eq {p : Descent} {id : String} {e : EnumDescriptor} (h : f.EnumAt p id e) :
    p.owner = some .enum := by
  cases h <;> rfl

theorem MessageAt.fits (hf : f.Addressable) {p : Descent} {id : String} {d : MessageDescriptor}
    (h : f.MessageAt p id d) : p.Fits := by
  induction h with
  | top hd =>
      obtain ⟨hi, -⟩ := List.getElem?_eq_some_iff.1 hd
      exact ⟨rfl, Nat.lt_trans hi hf.messages, trivial⟩
  | nested hd hn ih =>
      obtain ⟨hi, -⟩ := List.getElem?_eq_some_iff.1 hn
      exact ⟨hd.owner_eq, Nat.lt_trans hi (hf.message _ _ _ hd).2.1, ih⟩

theorem EnumAt.fits (hf : f.Addressable) {p : Descent} {id : String} {e : EnumDescriptor}
    (h : f.EnumAt p id e) : p.Fits := by
  cases h with
  | top he =>
      obtain ⟨hi, -⟩ := List.getElem?_eq_some_iff.1 he
      exact ⟨rfl, Nat.lt_trans hi hf.enums, trivial⟩
  | nested hd he =>
      obtain ⟨hi, -⟩ := List.getElem?_eq_some_iff.1 he
      exact ⟨hd.owner_eq, Nat.lt_trans hi (hf.message _ _ _ hd).2.2.1, hd.fits hf⟩

theorem Reaches.fits (hf : f.Addressable) {p : Descent} (h : f.Reaches p) : p.Fits := by
  cases h with
  | message hd => exact hd.fits hf
  | enum he => exact he.fits hf
  | service hi => exact ⟨rfl, Nat.lt_trans hi hf.services, trivial⟩
  | field hd hi => exact ⟨hd.owner_eq, Nat.lt_trans hi (hf.message _ _ _ hd).1, hd.fits hf⟩
  | oneOf hd hi => exact ⟨hd.owner_eq, Nat.lt_trans hi (hf.message _ _ _ hd).2.2.2, hd.fits hf⟩
  | value he hi => exact ⟨he.owner_eq, Nat.lt_trans hi (hf.enum _ _ _ he), he.fits hf⟩
  | method hd hj =>
      obtain ⟨hi, rfl⟩ := List.getElem?_eq_some_iff.1 hd
      exact ⟨rfl, Nat.lt_trans hj (hf.service _ (List.getElem_mem hi)), rfl,
        Nat.lt_trans hi hf.services, trivial⟩

end FileDescriptor

/-! ### Sites -/

theorem mem_nestedSites (id : String) (place : Place) (index : Nat) {ds : List MessageDescriptor}
    {i : Nat} {n : MessageDescriptor} (h : ds[i]? = some n) :
    ⟨memberId id n.name, some id, place.child Place.messageNested (index + i), n⟩ ∈
      nestedSites id place index ds := by
  induction ds generalizing index i with
  | nil => cases h
  | cons d ds ih =>
      rw [nestedSites]
      cases i with
      | zero =>
          cases h
          exact List.mem_append_left _ (self_mem_messageSites id (some id) _ _)
      | succ i =>
          rw [show index + (i + 1) = index + 1 + i by omega]
          exact List.mem_append_right _ (ih (index + 1) h)

/-- Some sites hold those of all messages declared inside theirs, at the places of their positions. -/
def Placed (sites : List MessageSite) : Prop :=
  ∀ s ∈ sites, ∀ i n, s.descriptor.nested[i]? = some n →
    ⟨memberId s.id n.name, some s.id, s.place.child Place.messageNested i, n⟩ ∈ sites

theorem Placed.append {ss ss' : List MessageSite} (h : Placed ss) (h' : Placed ss') :
    Placed (ss ++ ss') := by
  intro s hs i n hn
  rcases List.mem_append.1 hs with hs | hs
  · exact List.mem_append_left _ (h s hs i n hn)
  · exact List.mem_append_right _ (h' s hs i n hn)

mutual

theorem placed_messageSites (scope : String) (parent : Option String) (place : Place) :
    ∀ d : MessageDescriptor, Placed (messageSites scope parent place d)
  | ⟨name, fields, nested, enums, oneOfs, options⟩ => by
      rw [messageSites]
      intro s hs i n hn
      rcases List.mem_append.1 hs with hs | hs
      · exact List.mem_append_left _
          (placed_nestedSites (memberId scope name) place 0 nested s hs i n hn)
      · cases List.mem_singleton.1 hs
        have hmem := mem_nestedSites (memberId scope name) place 0 hn
        rw [Nat.zero_add] at hmem
        exact List.mem_append_left _ hmem

theorem placed_nestedSites (id : String) (place : Place) (index : Nat) :
    ∀ ds : List MessageDescriptor, Placed (nestedSites id place index ds)
  | [] => by
      rw [nestedSites]
      intro s hs
      cases hs
  | d :: ds => by
      rw [nestedSites]
      exact (placed_messageSites id (some id) (place.child Place.messageNested index) d).append
        (placed_nestedSites id place (index + 1) ds)

end

namespace FileDescriptor

variable {f : FileDescriptor} {p : Descent} {id : String}

theorem placed_messageSites (f : FileDescriptor) : Placed f.messageSites := by
  intro s hs i n hn
  obtain ⟨⟨d, j⟩, hd, hs⟩ := List.mem_flatMap.1 hs
  exact List.mem_flatMap.2 ⟨(d, j), hd, Descriptor.placed_messageSites _ _ _ d s hs i n hn⟩

/-- A message that a descent leads to has a site, at the place of the descent. -/
theorem MessageAt.exists_site {d : MessageDescriptor} (h : f.MessageAt p id d) :
    ∃ parent, ⟨id, parent, p.place, d⟩ ∈ f.messageSites := by
  induction h with
  | @top i d hd =>
      have hsite := self_mem_messageSites f.scope none (Place.child [] Place.fileMessage i) d
      exact ⟨none, List.mem_flatMap.2 ⟨(d, i), List.mem_zipIdx_iff_getElem?.2 hd, hsite⟩⟩
  | nested _ hn ih =>
      obtain ⟨parent, hsite⟩ := ih
      exact ⟨_, f.placed_messageSites _ hsite _ _ hn⟩

theorem EnumAt.exists_site {e : EnumDescriptor} (h : f.EnumAt p id e) :
    ∃ parent, ⟨id, parent, p.place, e⟩ ∈ f.enumSites := by
  cases h with
  | @top i e he =>
      refine ⟨none, List.mem_append_right _ (List.mem_map.2 ⟨(e, i), ?_, rfl⟩)⟩
      exact List.mem_zipIdx_iff_getElem?.2 he
  | @nested q owner d i e hd he =>
      obtain ⟨parent, hsite⟩ := hd.exists_site
      refine ⟨some owner, List.mem_append_left _ (List.mem_flatMap.2 ⟨_, hsite, ?_⟩)⟩
      exact List.mem_map.2 ⟨(e, i), List.mem_zipIdx_iff_getElem?.2 he, rfl⟩

end FileDescriptor

end ServiceModel.Descriptor
