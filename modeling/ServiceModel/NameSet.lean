import ServiceModel.Catalog

/-!
Sets of names, held in ascending order.  The order is part of the type, so two sets with the same
members are equal.
-/

namespace ServiceModel

/-- A set of names, in ascending order. -/
structure NameSet where
  names : List String
  ascending : names.Pairwise (· < ·)
  deriving DecidableEq, Repr

namespace NameSet

/-- Puts a name into an ascending list, where it occurs once. -/
def place (name : String) : List String → List String
  | [] => [name]
  | n :: ns =>
      if name < n then name :: n :: ns else if name = n then n :: ns else n :: place name ns

theorem mem_place {name other : String} {ns : List String} :
    other ∈ place name ns ↔ other = name ∨ other ∈ ns := by
  induction ns with
  | nil => simp [place]
  | cons n ns ih =>
      rw [place]
      split
      · simp
      · split
        next h => simp [h]
        next h =>
          simp only [List.mem_cons, ih]
          constructor
          · rintro (h | h | h) <;> simp [h]
          · rintro (h | h | h) <;> simp [h]

theorem pairwise_place (name : String) {ns : List String} (h : ns.Pairwise (· < ·)) :
    (place name ns).Pairwise (· < ·) := by
  induction ns with
  | nil => simp [place]
  | cons n ns ih =>
      obtain ⟨hn, hns⟩ := List.pairwise_cons.1 h
      rw [place]
      split
      next hlt =>
        refine List.pairwise_cons.2 ⟨fun m hm => ?_, h⟩
        rcases List.mem_cons.1 hm with rfl | hm
        · exact hlt
        · exact Std.lt_trans hlt (hn m hm)
      next hnlt =>
        split
        · exact h
        next hne =>
          refine List.pairwise_cons.2 ⟨fun m hm => ?_, ih hns⟩
          rcases mem_place.1 hm with rfl | hm
          · exact Catalog.lt_of_not_lt_of_ne hnlt hne
          · exact hn m hm

def empty : NameSet := ⟨[], List.Pairwise.nil⟩

instance : Inhabited NameSet := ⟨empty⟩

instance : EmptyCollection NameSet := ⟨empty⟩

instance : Membership String NameSet := ⟨fun s name => name ∈ s.names⟩

def contains (s : NameSet) (name : String) : Bool := s.names.contains name

def insert (name : String) (s : NameSet) : NameSet :=
  ⟨place name s.names, pairwise_place name s.ascending⟩

/-- The set with the members of a list added. -/
def insertAll (names : List String) (s : NameSet) : NameSet :=
  names.foldl (fun s n => s.insert n) s

def ofList (names : List String) : NameSet := empty.insertAll names

theorem mem_insert {name other : String} {s : NameSet} :
    other ∈ s.insert name ↔ other = name ∨ other ∈ s := mem_place

theorem mem_insertAll {names : List String} {other : String} {s : NameSet} :
    other ∈ s.insertAll names ↔ other ∈ names ∨ other ∈ s := by
  induction names generalizing s with
  | nil => simp [insertAll]
  | cons n ns ih =>
      have h := ih (s := s.insert n)
      simp only [insertAll, List.foldl_cons] at h ⊢
      rw [h, mem_insert, List.mem_cons]
      constructor
      · rintro (h | h | h) <;> simp [h]
      · rintro ((h | h) | h) <;> simp [h]

theorem mem_ofList {names : List String} {other : String} :
    other ∈ ofList names ↔ other ∈ names := by
  rw [ofList, mem_insertAll]
  constructor
  · rintro (h | h)
    · exact h
    · exact absurd h List.not_mem_nil
  · exact Or.inl

end NameSet

end ServiceModel
