import ServiceModel.Catalog

/-!
What stands in a catalog after each operation.  Every entry is found under its name, so the listed
values are exactly those that can be looked up.
-/

namespace ServiceModel.Catalog

variable {α β : Type}

/-! ### Entries -/

/-- In an ascending list no two entries have one name, so each is the first under its name. -/
theorem seek_eq_some_iff {es : List (String × α)} (h : es.Pairwise (fun a b => a.1 < b.1))
    {name : String} {value : α} : seek name es = some value ↔ (name, value) ∈ es := by
  induction es with
  | nil => simp [seek]
  | cons e es ih =>
      obtain ⟨he, hes⟩ := List.pairwise_cons.1 h
      rw [seek]
      split
      next heq =>
        constructor
        · intro hv
          cases hv
          rw [heq]
          exact List.mem_cons_self
        · intro hmem
          rcases List.mem_cons.1 hmem with hmem | hmem
          · rw [← hmem]
          · have hlt := he _ hmem
            rw [← heq] at hlt
            exact absurd hlt (Std.lt_irrefl (α := String))
      next hne =>
        rw [ih hes, List.mem_cons]
        constructor
        · exact Or.inr
        · rintro (hmem | hmem)
          · exact absurd (congrArg Prod.fst hmem) hne
          · exact hmem

theorem mem_entries_iff {c : Catalog α} {name : String} {value : α} :
    (name, value) ∈ c.entries ↔ c.get? name = some value :=
  (seek_eq_some_iff c.ascending).symm

/-- The values of a catalog are those that stand under some name. -/
theorem mem_values_iff {c : Catalog α} {value : α} :
    value ∈ c.values ↔ ∃ name, c.get? name = some value := by
  rw [values, List.mem_map]
  constructor
  · rintro ⟨⟨name, v⟩, hmem, rfl⟩
    exact ⟨name, mem_entries_iff.1 hmem⟩
  · rintro ⟨name, h⟩
    exact ⟨(name, value), mem_entries_iff.2 h, rfl⟩

theorem nodup_entries (c : Catalog α) : c.entries.Nodup := by
  refine c.ascending.imp fun {d e} hlt heq => ?_
  rw [heq] at hlt
  exact absurd hlt (Std.lt_irrefl (α := String))

/-- Catalogs in which the same stands under each name are the same. -/
theorem ext_get? {c d : Catalog α} (h : ∀ name, c.get? name = d.get? name) : c = d := by
  have hmem : ∀ e, e ∈ c.entries ↔ e ∈ d.entries := by
    rintro ⟨name, value⟩
    rw [mem_entries_iff, mem_entries_iff, h]
  have hperm := (List.perm_ext_iff_of_nodup c.nodup_entries d.nodup_entries).2 hmem
  have hentries : c.entries = d.entries := by
    refine hperm.eq_of_pairwise ?_ c.ascending d.ascending
    intro a b _ _ hab hba
    exact absurd (Std.lt_trans hab hba) (Std.lt_irrefl (α := String))
  cases c
  cases d
  cases hentries
  rfl

/-! ### Looking up -/

theorem contains_iff {c : Catalog α} {name : String} :
    c.contains name = true ↔ ∃ value, c.get? name = some value := by
  rw [contains, Option.isSome_iff_exists]

theorem contains_eq_false_iff {c : Catalog α} {name : String} :
    c.contains name = false ↔ c.get? name = none := by
  rw [contains, Option.isSome_eq_false_iff, Option.isNone_iff_eq_none]

theorem contains_of_get? {c : Catalog α} {name : String} {value : α}
    (h : c.get? name = some value) : c.contains name = true :=
  contains_iff.2 ⟨value, h⟩

@[simp] theorem contains_insert {c : Catalog α} {name other : String} {value : α} :
    (c.insert name value).contains other = true ↔ other = name ∨ c.contains other = true := by
  rw [contains, contains, get?_insert]
  by_cases h : other = name <;> simp [h]

theorem seek_map (f : String → α → β) (name : String) (es : List (String × α)) :
    seek name (es.map fun e => (e.1, f e.1 e.2)) = (seek name es).map (f name) := by
  induction es with
  | nil => rfl
  | cons e es ih =>
      rw [List.map_cons, seek, seek]
      by_cases h : name = e.1
      · simp [h]
      · simpa [h] using ih

theorem get?_mapValues (c : Catalog α) (f : String → α → β) (name : String) :
    (c.mapValues f).get? name = (c.get? name).map (f name) :=
  seek_map f name c.entries

/-- Changing the value under a name leaves all others as they are. -/
theorem get?_modify (c : Catalog α) (name other : String) (f : α → α) :
    (c.modify name f).get? other = if other = name then (c.get? other).map f else c.get? other := by
  rw [modify, get?_mapValues]
  by_cases h : other = name
  · simp only [if_pos h]
  · simp only [if_neg h]
    exact Option.map_id'

@[simp] theorem contains_modify {c : Catalog α} {name other : String} {f : α → α} :
    (c.modify name f).contains other = c.contains other := by
  rw [contains, contains, get?_modify]
  split <;> simp

/-- A value found after a change was there before, or is the changed one. -/
theorem get?_modify_eq_some {c : Catalog α} {name other : String} {f : α → α} {value : α}
    (h : (c.modify name f).get? other = some value) :
    c.get? other = some value ∨ ∃ old, c.get? name = some old ∧ value = f old := by
  rw [get?_modify] at h
  split at h
  next hother =>
    obtain ⟨old, hold, rfl⟩ := Option.map_eq_some_iff.1 h
    rw [hother] at hold
    exact Or.inr ⟨old, hold, rfl⟩
  next => exact Or.inl h

/-- Taking out the value under a name leaves all others as they are. -/
theorem get?_erase (c : Catalog α) (name other : String) :
    (c.erase name).get? other = if other = name then none else c.get? other := by
  have hseek (es : List (String × α)) : seek other (es.filter (·.1 != name)) =
      if other = name then none else seek other es := by
    induction es with
    | nil => simp [seek]
    | cons e es ih =>
        rw [seek, List.filter_cons]
        by_cases he : e.1 = name
        · by_cases h : other = name <;> simp_all
        · by_cases h : other = e.1 <;> simp_all [seek]
  exact hseek c.entries

theorem modify_of_missing {c : Catalog α} {name : String} (h : c.contains name = false)
    (f : α → α) : c.modify name f = c := by
  refine ext_get? fun other => ?_
  rw [get?_modify]
  split
  next hother => rw [hother, contains_eq_false_iff.1 h, Option.map_none]
  next => rfl

/-- What a change keeps of every value, it keeps of the catalog. -/
theorem map_get?_modify {c : Catalog α} {name : String} {f : α → α} {g : α → β}
    (h : ∀ value, g (f value) = g value) (other : String) :
    ((c.modify name f).get? other).map g = (c.get? other).map g := by
  rw [get?_modify]
  split
  · rw [Option.map_map]
    exact Option.map_congr fun value _ => h value
  · rfl

/-! ### Catalogs of lists -/

theorem get?_foldl_insert {es : List (String × α)} {c : Catalog α} {name : String} {value : α}
    (h : (es.foldl (fun c e => c.insert e.1 e.2) c).get? name = some value) :
    (name, value) ∈ es ∨ c.get? name = some value := by
  induction es generalizing c with
  | nil => exact Or.inr h
  | cons e es ih =>
      rcases ih h with hmem | hget
      · exact Or.inl (List.mem_cons_of_mem _ hmem)
      · rw [get?_insert] at hget
        split at hget
        next heq =>
          rw [heq, ← Option.some.inj hget]
          exact Or.inl List.mem_cons_self
        next => exact Or.inr hget

theorem contains_foldl_insert {es : List (String × α)} {c : Catalog α} {name : String} :
    (es.foldl (fun c e => c.insert e.1 e.2) c).contains name = true ↔
      (∃ e ∈ es, e.1 = name) ∨ c.contains name = true := by
  induction es generalizing c with
  | nil => simp
  | cons e es ih =>
      rw [List.foldl_cons, ih, contains_insert]
      constructor
      · rintro (⟨d, hd, hname⟩ | heq | hc)
        · exact Or.inl ⟨d, List.mem_cons_of_mem _ hd, hname⟩
        · exact Or.inl ⟨e, List.mem_cons_self, heq.symm⟩
        · exact Or.inr hc
      · rintro (⟨d, hd, hname⟩ | hc)
        · rcases List.mem_cons.1 hd with rfl | hd
          · exact Or.inr (Or.inl hname.symm)
          · exact Or.inl ⟨d, hd, hname⟩
        · exact Or.inr (Or.inr hc)

theorem get?_foldl_insert_of_not_mem {es : List (String × α)} {c : Catalog α} {name : String}
    (h : name ∉ es.map Prod.fst) :
    (es.foldl (fun c e => c.insert e.1 e.2) c).get? name = c.get? name := by
  induction es generalizing c with
  | nil => rfl
  | cons e es ih =>
      rw [List.map_cons, List.mem_cons, not_or] at h
      rw [List.foldl_cons, ih h.2, get?_insert, if_neg h.1]

theorem get?_foldl_insert_of_mem {es : List (String × α)} {c : Catalog α} {name : String}
    {value : α} (hdistinct : (es.map Prod.fst).Nodup) (h : (name, value) ∈ es) :
    (es.foldl (fun c e => c.insert e.1 e.2) c).get? name = some value := by
  induction es generalizing c with
  | nil => cases h
  | cons e es ih =>
      obtain ⟨he, hes⟩ := List.nodup_cons.1 hdistinct
      rw [List.foldl_cons]
      rcases List.mem_cons.1 h with rfl | h
      · rw [get?_foldl_insert_of_not_mem he, get?_insert_self]
      · exact ih hes h

/-- Pairs with different names may be put in in any order. -/
theorem foldl_insert_perm {es es' : List (String × α)} (h : es.Perm es')
    (hdistinct : (es.map Prod.fst).Nodup) (c : Catalog α) :
    es.foldl (fun c e => c.insert e.1 e.2) c = es'.foldl (fun c e => c.insert e.1 e.2) c := by
  have hdistinct' : (es'.map Prod.fst).Nodup := (h.map Prod.fst).nodup_iff.1 hdistinct
  refine ext_get? fun name => ?_
  by_cases hname : name ∈ es.map Prod.fst
  · obtain ⟨⟨_, value⟩, hmem, rfl⟩ := List.mem_map.1 hname
    rw [get?_foldl_insert_of_mem hdistinct hmem,
      get?_foldl_insert_of_mem hdistinct' (h.mem_iff.1 hmem)]
  · have hname' : name ∉ es'.map Prod.fst := fun h' => hname ((h.map Prod.fst).mem_iff.2 h')
    rw [get?_foldl_insert_of_not_mem hname, get?_foldl_insert_of_not_mem hname']

/-- What stands in the catalog of a list is a pair of the list. -/
theorem mem_of_get?_ofList {es : List (String × α)} {name : String} {value : α}
    (h : (ofList es).get? name = some value) : (name, value) ∈ es := by
  rcases get?_foldl_insert h with h | h
  · exact h
  · cases h

theorem contains_ofList {es : List (String × α)} {name : String} :
    (ofList es).contains name = true ↔ ∃ e ∈ es, e.1 = name := by
  rw [ofList, contains_foldl_insert]
  exact or_iff_left (by simp [contains])

theorem get?_ofList_eq_some_iff {es : List (String × α)} (hdistinct : (es.map Prod.fst).Nodup)
    {name : String} {value : α} : (ofList es).get? name = some value ↔ (name, value) ∈ es :=
  ⟨mem_of_get?_ofList, get?_foldl_insert_of_mem hdistinct⟩

/-- A catalog of pairs with different names has these pairs. -/
theorem entries_ofList_perm {es : List (String × α)} (hdistinct : (es.map Prod.fst).Nodup) :
    (ofList es).entries.Perm es := by
  have hes : es.Nodup :=
    List.Pairwise.of_map Prod.fst (fun d e hne heq => hne (congrArg Prod.fst heq)) hdistinct
  refine (List.perm_ext_iff_of_nodup (nodup_entries _) hes).2 ?_
  rintro ⟨name, value⟩
  rw [mem_entries_iff, get?_ofList_eq_some_iff hdistinct]

end ServiceModel.Catalog
