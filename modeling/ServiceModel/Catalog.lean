/-!
Catalogs: finite maps from names to values, held in ascending order of their names.  The order is
part of the type, so two catalogs with the same entries are equal, and listing one never depends on
how it was filled.
-/

namespace ServiceModel

/-- A finite map from names to values, in ascending order of the names. -/
structure Catalog (α : Type) where
  entries : List (String × α)
  ascending : entries.Pairwise (fun a b => a.1 < b.1)

namespace Catalog

variable {α β : Type}

/-! ### Entries -/

/-- Puts `value` under `name` into an ascending list, replacing what stood there. -/
def place (name : String) (value : α) : List (String × α) → List (String × α)
  | [] => [(name, value)]
  | e :: es =>
      if name < e.1 then (name, value) :: e :: es
      else if name = e.1 then (name, value) :: es
      else e :: place name value es

theorem fst_mem_place {name : String} {value : α} {es : List (String × α)} {e : String × α}
    (h : e ∈ place name value es) : e.1 = name ∨ e ∈ es := by
  induction es with
  | nil => simp [place] at h; simp [h]
  | cons d ds ih =>
      rw [place] at h
      split at h
      · rcases List.mem_cons.1 h with rfl | h
        · exact Or.inl rfl
        · exact Or.inr h
      · split at h
        · rcases List.mem_cons.1 h with rfl | h
          · exact Or.inl rfl
          · exact Or.inr (List.mem_cons_of_mem _ h)
        · rcases List.mem_cons.1 h with rfl | h
          · exact Or.inr List.mem_cons_self
          · rcases ih h with h | h
            · exact Or.inl h
            · exact Or.inr (List.mem_cons_of_mem _ h)

theorem lt_of_not_lt_of_ne {a b : String} (h : ¬ a < b) (hne : a ≠ b) : b < a :=
  Std.lt_of_le_of_ne (Std.not_lt.1 h) (Ne.symm hne)

theorem pairwise_place (name : String) (value : α) {es : List (String × α)}
    (h : es.Pairwise (fun a b => a.1 < b.1)) :
    (place name value es).Pairwise (fun a b => a.1 < b.1) := by
  induction es with
  | nil => simp [place]
  | cons e es ih =>
      obtain ⟨he, hes⟩ := List.pairwise_cons.1 h
      rw [place]
      split
      next hlt =>
        refine List.pairwise_cons.2 ⟨fun d hd => ?_, h⟩
        rcases List.mem_cons.1 hd with rfl | hd
        · exact hlt
        · exact Std.lt_trans hlt (he d hd)
      next hnlt =>
        split
        next heq => exact List.pairwise_cons.2 ⟨fun d hd => by simpa [heq] using he d hd, hes⟩
        next hne =>
          refine List.pairwise_cons.2 ⟨fun d hd => ?_, ih hes⟩
          rcases fst_mem_place hd with hd | hd
          · simpa [hd] using lt_of_not_lt_of_ne hnlt hne
          · exact he d hd

/-! ### Operations -/

def empty : Catalog α := ⟨[], List.Pairwise.nil⟩

instance : Inhabited (Catalog α) := ⟨empty⟩

instance : EmptyCollection (Catalog α) := ⟨empty⟩

/-- The value under `name` in a list of entries. -/
def seek (name : String) : List (String × α) → Option α
  | [] => none
  | e :: es => if name = e.1 then some e.2 else seek name es

def get? (c : Catalog α) (name : String) : Option α := seek name c.entries

def contains (c : Catalog α) (name : String) : Bool := (c.get? name).isSome

/-- The catalog with `value` under `name`, whatever stood there before. -/
def insert (c : Catalog α) (name : String) (value : α) : Catalog α :=
  ⟨place name value c.entries, pairwise_place name value c.ascending⟩

def erase (c : Catalog α) (name : String) : Catalog α :=
  ⟨c.entries.filter (·.1 != name), c.ascending.filter _⟩

def mapValues (f : String → α → β) (c : Catalog α) : Catalog β :=
  ⟨c.entries.map fun e => (e.1, f e.1 e.2), List.pairwise_map.2 c.ascending⟩

/-- The catalog with `f` applied to the value under `name`, if there is one. -/
def modify (c : Catalog α) (name : String) (f : α → α) : Catalog α :=
  c.mapValues fun n a => if n = name then f a else a

/-- The entries that satisfy `p`. -/
def filter (p : String → α → Bool) (c : Catalog α) : Catalog α :=
  ⟨c.entries.filter fun e => p e.1 e.2, c.ascending.filter _⟩

/-- The names, in ascending order. -/
def names (c : Catalog α) : List String := c.entries.map (·.1)

/-- The values, in ascending order of their names. -/
def values (c : Catalog α) : List α := c.entries.map (·.2)

/-- The catalog of some pairs; of two with one name the later counts. -/
def ofList (es : List (String × α)) : Catalog α := es.foldl (fun c e => c.insert e.1 e.2) empty

/-! ### What each operation does to `get?` -/

@[simp] theorem get?_empty (name : String) : (empty : Catalog α).get? name = none := rfl

theorem seek_place (name other : String) (value : α) (es : List (String × α)) :
    seek other (place name value es) = if other = name then some value else seek other es := by
  induction es with
  | nil => rfl
  | cons e es ih =>
      rw [place]
      split
      · rfl
      · split
        next heq =>
          rw [seek, seek, heq]
          split <;> rfl
        next hne =>
          rw [seek, seek, ih]
          by_cases h : other = name
          · subst h
            simp [hne]
          · simp [h]

@[simp] theorem get?_insert_self (c : Catalog α) (name : String) (value : α) :
    (c.insert name value).get? name = some value := by
  simp [get?, insert, seek_place]

theorem get?_insert (c : Catalog α) (name other : String) (value : α) :
    (c.insert name value).get? other = if other = name then some value else c.get? other := by
  simp [get?, insert, seek_place]

end Catalog

end ServiceModel
