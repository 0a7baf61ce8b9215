import ServiceModel.Model.Basic
import Mathlib.Data.List.FinRange
import Mathlib.Data.List.Nodup

/-!
Enums without their aliases.  A value is an alias if one in front of it has the same number.  What is left
without them are the values at those places where a number is met for the first time: they keep their order,
have each number of the enum once, and no aliases among them.
-/

namespace ServiceModel.Enum

/-- The number at a place is none of those seen, and is met there for the first time. -/
def NewAt (seen : List Int32) (values : List EnumValue) (i : Fin values.length) : Prop :=
  (values.get i).number ∉ seen ∧ ∀ j < i, (values.get j).number ≠ (values.get i).number

instance (seen : List Int32) (values : List EnumValue) : DecidablePred (NewAt seen values) :=
  fun i => inferInstanceAs (Decidable (_ ∧ ∀ j < i, _))

section

variable {seen : List Int32} {v : EnumValue} {vs : List EnumValue}

/-! ### Places -/

theorem newAt_zero_iff : NewAt seen (v :: vs) (0 : Fin (vs.length + 1)) ↔ v.number ∉ seen :=
  and_iff_left fun j h => absurd h (Fin.not_lt_zero j)

/-- Behind a first value a number is new if it is new there and not that of the value. -/
theorem newAt_succ_iff {i : Fin vs.length} :
    NewAt seen (v :: vs) i.succ ↔ NewAt (v.number :: seen) vs i := by
  have hplaces : (∀ j : Fin (vs.length + 1), j < i.succ →
      ((v :: vs).get j).number ≠ ((v :: vs).get i.succ).number) ↔
        v.number ≠ (vs.get i).number ∧ ∀ j < i, (vs.get j).number ≠ (vs.get i).number := by
    rw [Fin.forall_fin_succ]
    exact and_congr (forall_prop_of_true (Fin.succ_pos i))
      (forall_congr' fun j => imp_congr Fin.succ_lt_succ_iff Iff.rfl)
  unfold NewAt
  rw [List.mem_cons, not_or, and_comm (a := ¬ (vs.get i).number = v.number), and_assoc]
  exact and_congr_right fun _ => hplaces.trans (and_congr_left fun _ => ne_comm)

/-- What was seen already does not become new or old by being seen again. -/
theorem newAt_cons_seen_iff {i : Fin vs.length} (h : v.number ∈ seen) :
    NewAt (v.number :: seen) vs i ↔ NewAt seen vs i := by
  refine and_congr_left fun _ => ?_
  rw [List.mem_cons, not_or, and_iff_right_iff_imp]
  intro hnew heq
  exact hnew (heq ▸ h)

/-- What is kept are the values at the places with new numbers, in the order of these. -/
theorem firstOfEach_eq_map_get (seen : List Int32) (values : List EnumValue) :
    firstOfEach seen values =
      ((List.finRange values.length).filter fun i => NewAt seen values i).map values.get := by
  induction values generalizing seen with
  | nil => rfl
  | cons v vs ih =>
      have hplaces : List.finRange (v :: vs).length =
          (0 : Fin (vs.length + 1)) :: (List.finRange vs.length).map Fin.succ := List.finRange_succ
      have hrest : (((List.finRange vs.length).map Fin.succ).filter fun i =>
          NewAt seen (v :: vs) i).map (v :: vs).get = firstOfEach (v.number :: seen) vs := by
        rw [List.filter_map, List.map_map, ih]
        refine congrArg (List.map vs.get) (List.filter_congr fun i _ => ?_)
        exact decide_eq_decide.2 newAt_succ_iff
      rw [hplaces, firstOfEach]
      split
      next hseen =>
        have hseen := List.contains_iff_mem.1 hseen
        have hold : ¬ NewAt seen (v :: vs) (0 : Fin (vs.length + 1)) := fun h => newAt_zero_iff.1 h hseen
        rw [List.filter_cons_of_neg (by rwa [decide_eq_true_iff]), hrest, ih, ih]
        refine congrArg (List.map vs.get) (List.filter_congr fun i _ => ?_)
        exact decide_eq_decide.2 (newAt_cons_seen_iff hseen).symm
      next hnew =>
        have hnew : NewAt seen (v :: vs) (0 : Fin (vs.length + 1)) :=
          newAt_zero_iff.2 fun h => hnew (List.contains_iff_mem.2 h)
        rw [List.filter_cons_of_pos (by rwa [decide_eq_true_iff]), List.map_cons, hrest]
        rfl

/-! ### Numbers -/

theorem firstOfEach_sublist (seen : List Int32) (values : List EnumValue) :
    (firstOfEach seen values).Sublist values := by
  induction values generalizing seen with
  | nil => exact .slnil
  | cons v vs ih =>
      rw [firstOfEach]
      split
      · exact (ih seen).cons v
      · exact (ih _).cons_cons v

/-- The numbers that are kept are those that were not seen. -/
theorem mem_numbers_firstOfEach {values : List EnumValue} {n : Int32} :
    n ∈ (firstOfEach seen values).map (·.number) ↔ n ∈ values.map (·.number) ∧ n ∉ seen := by
  induction values generalizing seen with
  | nil => simp [firstOfEach]
  | cons v vs ih =>
      rw [firstOfEach, List.map_cons, List.mem_cons]
      split
      next hseen =>
        have hseen := List.contains_iff_mem.1 hseen
        rw [ih]
        refine and_congr_left fun hn => (or_iff_right ?_).symm
        rintro rfl
        exact hn hseen
      next hnew =>
        have hnew : v.number ∉ seen := fun h => hnew (List.contains_iff_mem.2 h)
        rw [List.map_cons, List.mem_cons, ih, List.mem_cons, not_or]
        by_cases hn : n = v.number
        · simp [hn, hnew]
        · simp [hn]

theorem nodup_numbers_firstOfEach (seen : List Int32) (values : List EnumValue) :
    ((firstOfEach seen values).map (·.number)).Nodup := by
  induction values generalizing seen with
  | nil => exact .nil
  | cons v vs ih =>
      rw [firstOfEach]
      split
      · exact ih seen
      · refine List.nodup_cons.2 ⟨fun hmem => ?_, ih _⟩
        exact (mem_numbers_firstOfEach.1 hmem).2 List.mem_cons_self

/-- Where no two values have the same number and none was seen, all are kept. -/
theorem firstOfEach_of_nodup {values : List EnumValue} (h : (values.map (·.number)).Nodup)
    (hseen : ∀ v ∈ values, v.number ∉ seen) : firstOfEach seen values = values := by
  induction values generalizing seen with
  | nil => rfl
  | cons v vs ih =>
      obtain ⟨hv, hvs⟩ := List.nodup_cons.1 h
      have hnew : ¬ seen.contains v.number := fun hmem =>
        hseen v List.mem_cons_self (List.contains_iff_mem.1 hmem)
      rw [firstOfEach, if_neg hnew, ih hvs]
      intro w hw
      rw [List.mem_cons, not_or]
      refine ⟨fun heq => hv ?_, hseen w (List.mem_cons_of_mem v hw)⟩
      exact List.mem_map.2 ⟨w, hw, heq⟩

end

/-- The values without aliases are those at the places where no number in front is the same.  They are in
the order of their declaration, have the numbers of the enum, each once, and are all kept when aliases are
taken away again. -/
theorem uniqueValues_firsts (e : Enum) :
    e.uniqueValues = ((List.finRange e.values.length).filter fun i =>
        ∀ j < i, (e.values.get j).number ≠ (e.values.get i).number).map e.values.get ∧
      e.uniqueValues.Sublist e.values ∧ (e.uniqueValues.map (·.number)).Nodup ∧
      (∀ n, n ∈ e.uniqueValues.map (·.number) ↔ n ∈ e.values.map (·.number)) ∧
      { e with values := e.uniqueValues }.uniqueValues = e.uniqueValues := by
  have hdistinct := nodup_numbers_firstOfEach [] e.values
  refine ⟨?_, firstOfEach_sublist [] e.values, hdistinct, fun n => ?_, ?_⟩
  · rw [uniqueValues, firstOfEach_eq_map_get]
    refine congrArg (List.map e.values.get) (List.filter_congr fun i _ => ?_)
    exact decide_eq_decide.2 (and_iff_right List.not_mem_nil)
  · exact mem_numbers_firstOfEach.trans (and_iff_left List.not_mem_nil)
  · exact firstOfEach_of_nodup hdistinct fun _ _ => List.not_mem_nil

end ServiceModel.Enum
