import ServiceModel.Proofs.OpenApi.FieldNames
import Mathlib.Data.List.Induction

/-!
Parameters of a path and of its operation together.  Two of them are the same parameter if they have the same
name and the same location.  Merging keeps each that goes into the URL once, at the place of its first
declaration and as its last declaration says; so an operation has its way with what its path shares.
-/

namespace ServiceModel

/-! ### First mentions -/

section FirstMentions

variable {α : Type} [BEq α] [LawfulBEq α] {x : α} {xs : List α}

theorem eraseDups_append_of_mem (h : x ∈ xs) : (xs ++ [x]).eraseDups = xs.eraseDups := by
  have hnone : [x].removeAll xs = [] := by simp [List.removeAll, h]
  rw [List.eraseDups_append, hnone, List.eraseDups_nil, List.append_nil]

theorem eraseDups_append_of_not_mem (h : x ∉ xs) : (xs ++ [x]).eraseDups = xs.eraseDups ++ [x] := by
  have hall : [x].removeAll xs = [x] := by simp [List.removeAll, h]
  rw [List.eraseDups_append, hall, List.eraseDups_cons, List.filter_nil, List.eraseDups_nil]

end FirstMentions

namespace OpenApi

/-! ### Keys -/

/-- What a parameter is known by. -/
def Parameter.key (p : Parameter) : String × String := (p.name, p.location)

/-- Whether parameters with a key are fields of a request. -/
def isFieldKey (key : String × String) : Bool :=
  key.1 != "" && (key.2 == "path" || key.2 == "query")

theorem isFieldKey_iff {key : String × String} :
    isFieldKey key = true ↔ key.1 ≠ "" ∧ (key.2 = "path" ∨ key.2 = "query") := by
  simp [isFieldKey]

theorem Parameter.isField_eq (p : Parameter) : p.isField = isFieldKey p.key := rfl

/-- A parameter is the last declaration of its key. -/
def LastOf (declared : List Parameter) (p : Parameter) : Prop :=
  ∃ before after, declared = before ++ p :: after ∧ ∀ q ∈ after, q.key ≠ p.key

section

variable {declared merged : List Parameter} {p q : Parameter}

theorem lastOf_append_singleton : LastOf (declared ++ [p]) p := ⟨declared, [], rfl, nofun⟩

theorem LastOf.append_singleton (h : LastOf declared p) (hq : q.key ≠ p.key) :
    LastOf (declared ++ [q]) p := by
  obtain ⟨before, after, rfl, hafter⟩ := h
  refine ⟨before, after ++ [q], by simp, fun r hr => ?_⟩
  rcases List.mem_append.1 hr with hr | hr
  · exact hafter r hr
  · rwa [List.mem_singleton.1 hr]

/-- The last declaration is in the second of two lists if its key is declared there at all. -/
theorem LastOf.mem_of_mem_right {own : List Parameter} (h : LastOf (declared ++ own) p)
    (hq : q ∈ own) (hkey : q.key = p.key) : p ∈ own := by
  obtain ⟨before, after, heq, hafter⟩ := h
  rcases List.append_eq_append_iff.1 heq with ⟨rest, -, rfl⟩ | ⟨rest, -, hrest⟩
  · simp
  · cases rest with
    | nil =>
        rw [List.nil_append] at hrest
        rw [← hrest]
        exact List.mem_cons_self
    | cons r rest =>
        obtain ⟨-, rfl⟩ := List.cons_eq_cons.1 hrest
        exact absurd hkey (hafter q (List.mem_append_right rest hq))

/-! ### Places -/

theorem mem_placeParameter_self (p : Parameter) (ps : List Parameter) : p ∈ placeParameter p ps := by
  induction ps with
  | nil => exact List.mem_cons_self
  | cons q ps ih =>
      rw [placeParameter]
      split
      · exact List.mem_cons_self
      · exact List.mem_cons_of_mem q ih

theorem placeParameter_cons (p q : Parameter) (ps : List Parameter) :
    placeParameter p (q :: ps) = if q.key = p.key then p :: ps else q :: placeParameter p ps := by
  have hkey : (q.name = p.name && q.location = p.location) = decide (q.key = p.key) := by
    rw [Bool.eq_iff_iff]
    simp [Parameter.key]
  rw [placeParameter, hkey]
  simp only [decide_eq_true_eq]

/-- A parameter takes the place of one with its key. -/
theorem keys_placeParameter_of_known {ps : List Parameter} (h : p.key ∈ ps.map (·.key)) :
    (placeParameter p ps).map (·.key) = ps.map (·.key) := by
  induction ps with
  | nil => cases h
  | cons q ps ih =>
      rw [placeParameter_cons]
      split
      next hsame => rw [List.map_cons, List.map_cons, hsame]
      next hdiffers =>
        rw [List.map_cons, List.map_cons, ih ((List.mem_cons.1 h).resolve_left (Ne.symm hdiffers))]

/-- A parameter with a key that no other has comes behind all others. -/
theorem placeParameter_of_new {ps : List Parameter} (h : p.key ∉ ps.map (·.key)) :
    placeParameter p ps = ps ++ [p] := by
  induction ps with
  | nil => rfl
  | cons q ps ih =>
      obtain ⟨hdiffers, hps⟩ := not_or.1 (List.mem_cons.not.1 h)
      rw [placeParameter_cons, if_neg (Ne.symm hdiffers), ih hps, List.cons_append]

/-! ### Merging -/

/-- Some parameters are others merged: their keys are those of fields, each once and in the order of their
first declarations, and each of them is the last declaration of its key. -/
structure Merges (declared merged : List Parameter) : Prop where
  keys : merged.map (·.key) = ((declared.map (·.key)).filter isFieldKey).eraseDups
  distinct : (merged.map (·.key)).Nodup
  last : ∀ p ∈ merged, LastOf declared p

theorem Merges.mem_keys_iff (h : Merges declared merged) {key : String × String} :
    key ∈ merged.map (·.key) ↔ key ∈ declared.map (·.key) ∧ isFieldKey key = true := by
  rw [h.keys, List.mem_eraseDups, List.mem_filter]

/-- A parameter that is no field changes nothing. -/
theorem Merges.skip (h : Merges declared merged) (hp : p.isField = false) :
    Merges (declared ++ [p]) merged where
  keys := by
    have hkey : isFieldKey p.key = false := hp
    rw [h.keys, List.map_append, List.map_singleton, List.filter_append,
      List.filter_cons_of_neg (by simp [hkey]), List.filter_nil, List.append_nil]
  distinct := h.distinct
  last q hq := by
    refine (h.last q hq).append_singleton fun heq => ?_
    have hfield := (h.mem_keys_iff.1 (List.mem_map_of_mem hq)).2
    rw [← heq, ← p.isField_eq, hp] at hfield
    cases hfield

/-- Where keys are distinct a parameter is the only one with its key that is there once it has its place. -/
theorem eq_of_mem_placeParameter (hdistinct : (merged.map (·.key)).Nodup)
    (hq : q ∈ placeParameter p merged) (hkey : q.key = p.key) : q = p := by
  have hplaced : ((placeParameter p merged).map (·.key)).Nodup := by
    by_cases hknown : p.key ∈ merged.map (·.key)
    · rwa [keys_placeParameter_of_known hknown]
    · rw [placeParameter_of_new hknown, List.map_append, List.map_singleton, List.nodup_append_comm]
      exact List.nodup_cons.2 ⟨hknown, hdistinct⟩
  exact List.inj_on_of_nodup_map hplaced hq (mem_placeParameter_self p merged) hkey

/-- A parameter that is a field replaces the one with its key, or comes at last. -/
theorem Merges.place (h : Merges declared merged) (hp : p.isField = true) :
    Merges (declared ++ [p]) (placeParameter p merged) := by
  have hfields : ((declared ++ [p]).map (·.key)).filter isFieldKey =
      (declared.map (·.key)).filter isFieldKey ++ [p.key] := by
    rw [List.map_append, List.map_singleton, List.filter_append]
    exact congrArg _ (List.filter_cons_of_pos hp)
  have hlast : ∀ q ∈ placeParameter p merged, LastOf (declared ++ [p]) q := by
    intro q hq
    by_cases hkey : q.key = p.key
    · rw [eq_of_mem_placeParameter h.distinct hq hkey]
      exact lastOf_append_singleton
    · rcases mem_placeParameter hq with rfl | hq
      · exact absurd rfl hkey
      · exact (h.last q hq).append_singleton (Ne.symm hkey)
  have hknown : p.key ∈ merged.map (·.key) ↔ p.key ∈ (declared.map (·.key)).filter isFieldKey := by
    rw [h.keys, List.mem_eraseDups]
  by_cases hmem : p.key ∈ merged.map (·.key)
  · have hkeys := keys_placeParameter_of_known hmem
    refine ⟨?_, hkeys ▸ h.distinct, hlast⟩
    rw [hkeys, hfields, eraseDups_append_of_mem (hknown.1 hmem), h.keys]
  · rw [placeParameter_of_new hmem] at hlast ⊢
    refine ⟨?_, ?_, hlast⟩
    · rw [List.map_append, List.map_singleton, hfields,
        eraseDups_append_of_not_mem (mt hknown.2 hmem), h.keys]
    · rw [List.map_append, List.map_singleton, List.nodup_append_comm]
      exact List.nodup_cons.2 ⟨hmem, h.distinct⟩

/-- Placing the fields among some parameters, one after the other, merges them. -/
theorem merges_foldl_placeParameter (declared : List Parameter) :
    Merges declared ((declared.filter (·.isField)).foldl (fun done p => placeParameter p done) []) := by
  induction declared using List.reverseRecOn with
  | nil => exact ⟨rfl, .nil, nofun⟩
  | append_singleton declared p ih =>
      rw [List.filter_append, List.foldl_append]
      cases hp : p.isField with
      | true =>
          rw [List.filter_cons_of_pos hp]
          exact ih.place hp
      | false =>
          rw [List.filter_cons_of_neg (by simp [hp])]
          exact ih.skip hp

end

/-- Merged parameters have distinct keys, which are those of fields, in the order of their first declarations
in the path and then in the operation.  Each parameter is the last declaration of its key, and one of the
operation if that declares the key. -/
theorem mergeParameters_overrides (shared own : List Parameter) :
    (mergeParameters shared own).map (·.key) =
        (((shared ++ own).map (·.key)).filter isFieldKey).eraseDups ∧
      ((mergeParameters shared own).map (·.key)).Nodup ∧
      (∀ key, key ∈ (mergeParameters shared own).map (·.key) ↔
        key.1 ≠ "" ∧ (key.2 = "path" ∨ key.2 = "query") ∧ ∃ p ∈ shared ++ own, p.key = key) ∧
      ∀ p ∈ mergeParameters shared own, LastOf (shared ++ own) p ∧
        ((∃ q ∈ own, q.key = p.key) → p ∈ own) := by
  have h : Merges (shared ++ own) (mergeParameters shared own) := merges_foldl_placeParameter _
  refine ⟨h.keys, h.distinct, fun key => ?_, fun p hp => ⟨h.last p hp, ?_⟩⟩
  · rw [h.mem_keys_iff, isFieldKey_iff, List.mem_map, and_comm, and_assoc]
  · rintro ⟨q, hq, hkey⟩
    exact (h.last p hp).mem_of_mem_right hq hkey

end OpenApi

end ServiceModel
