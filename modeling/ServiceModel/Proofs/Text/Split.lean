import ServiceModel.Text.Split

/-!
Cutting a text at its last separator, and what follows its beginning.  Behind the cut the separator does
not occur, so a dotted text has only one last part, and two dotted texts with a plain last part are equal
part by part.
-/

namespace ServiceModel.Text

/-! ### Lists of characters -/

theorem cutLast_eq_none_iff {sep : Char} {cs : List Char} : cutLast sep cs = none ↔ sep ∉ cs := by
  induction cs with
  | nil => simp [cutLast]
  | cons c cs ih =>
      rw [cutLast]
      cases hcs : cutLast sep cs with
      | some cut =>
          have hmem : sep ∈ cs := by
            refine Decidable.byContradiction fun hmem => ?_
            rw [ih.2 hmem] at hcs
            cases hcs
          simp [hmem]
      | none =>
          have hmem := ih.1 hcs
          by_cases hc : c = sep
          · simp [hc]
          · simp [hc, hmem, Ne.symm hc]

theorem cutLast_append {sep : Char} {last : List Char} (h : sep ∉ last) (front : List Char) :
    cutLast sep (front ++ sep :: last) = some (front, last) := by
  induction front with
  | nil =>
      rw [List.nil_append, cutLast, cutLast_eq_none_iff.2 h]
      exact if_pos rfl
  | cons c cs ih => rw [List.cons_append, cutLast, ih]

theorem cutLast_eq_some {sep : Char} {cs front last : List Char}
    (h : cutLast sep cs = some (front, last)) : cs = front ++ sep :: last ∧ sep ∉ last := by
  induction cs generalizing front with
  | nil => cases h
  | cons c cs ih =>
      rw [cutLast] at h
      cases hcs : cutLast sep cs with
      | some cut =>
          rw [hcs] at h
          cases h
          obtain ⟨htext, hlast⟩ := ih hcs
          exact ⟨by rw [htext, List.cons_append], hlast⟩
      | none =>
          rw [hcs] at h
          dsimp only at h
          split at h
          next hc =>
            cases h
            exact ⟨by rw [hc, List.nil_append], cutLast_eq_none_iff.1 hcs⟩
          · cases h

theorem after?_append (lead rest : List Char) : after? lead (lead ++ rest) = some rest := by
  induction lead with
  | nil => rfl
  | cons c cs ih => rw [List.cons_append, after?, if_pos rfl, ih]

/-! ### Texts -/

theorem dropLead?_eq_some_iff {lead s rest : String} :
    dropLead? lead s = some rest ↔ s = lead ++ rest := by
  rw [dropLead?, Option.map_eq_some_iff]
  constructor
  · rintro ⟨cs, hcs, rfl⟩
    rw [← String.toList_inj, after?_eq_some hcs]
    simp
  · rintro rfl
    exact ⟨rest.toList, by rw [String.toList_append, after?_append], String.ofList_toList⟩

theorem hasLead_eq_true_iff {lead s : String} :
    hasLead lead s = true ↔ ∃ rest, s = lead ++ rest := by
  have hlead : hasLead lead s = (dropLead? lead s).isSome := by
    rw [dropLead?, Option.isSome_map]
    rfl
  rw [hlead, Option.isSome_iff_exists]
  exact exists_congr fun rest => dropLead?_eq_some_iff

theorem splitLast?_dot_eq_some_iff {s front last : String} :
    splitLast? '.' s = some (front, last) ↔ s = front ++ "." ++ last ∧ '.' ∉ last.toList := by
  rw [splitLast?, Option.map_eq_some_iff]
  constructor
  · rintro ⟨⟨a, b⟩, hcut, heq⟩
    cases heq
    obtain ⟨htext, hlast⟩ := cutLast_eq_some hcut
    refine ⟨?_, by rwa [String.toList_ofList]⟩
    rw [← String.toList_inj, htext]
    simp
  · rintro ⟨rfl, hlast⟩
    refine ⟨(front.toList, last.toList), ?_, by simp⟩
    simpa using cutLast_append hlast front.toList

/-- Two dotted texts with plain last parts are equal part by part. -/
theorem dotted_inj {front front' last last' : String} (h : '.' ∉ last.toList)
    (h' : '.' ∉ last'.toList) :
    front ++ "." ++ last = front' ++ "." ++ last' ↔ front = front' ∧ last = last' := by
  constructor
  · intro heq
    have hcut : splitLast? '.' (front ++ "." ++ last) = some (front, last) :=
      splitLast?_dot_eq_some_iff.2 ⟨rfl, h⟩
    rw [heq, splitLast?_dot_eq_some_iff.2 ⟨rfl, h'⟩] at hcut
    cases hcut
    exact ⟨rfl, rfl⟩
  · rintro ⟨rfl, rfl⟩
    rfl

theorem dotted_right_inj {front last last' : String} :
    front ++ "." ++ last = front ++ "." ++ last' ↔ last = last' := by
  rw [← String.toList_inj, ← String.toList_inj]
  simp

theorem dotted_left_inj {front front' last : String} :
    front ++ "." ++ last = front' ++ "." ++ last ↔ front = front' := by
  rw [← String.toList_inj, ← String.toList_inj]
  simp

end ServiceModel.Text
