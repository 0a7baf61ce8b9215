import ServiceModel.Text.Scan

/-!
What readers read.  A reader reads a language when it only takes texts of the language from the front,
and takes such a text whole unless the text goes on with a character that could belong to it.
-/

namespace ServiceModel.Text

variable {α β : Type}

/-! ### Where a text stops -/

/-- The text does not go on with a character that satisfies `p`. -/
def Stops (p : Char → Bool) (cs : List Char) : Prop := ∀ c ∈ cs.head?, p c = false

theorem stops_nil (p : Char → Bool) : Stops p [] := by
  intro c hc
  cases hc

@[simp] theorem stops_cons {p : Char → Bool} {c : Char} {cs : List Char} :
    Stops p (c :: cs) ↔ p c = false := by
  simp [Stops]

theorem takeWhile_append_of_stops {p : Char → Bool} {taken rest : List Char}
    (hall : ∀ c ∈ taken, p c = true) (hstop : Stops p rest) :
    (taken ++ rest).takeWhile p = taken := by
  rw [List.takeWhile_append_of_pos hall]
  cases rest with
  | nil => simp
  | cons c cs => simp [stops_cons.1 hstop]

theorem dropWhile_append_of_stops {p : Char → Bool} {taken rest : List Char}
    (hall : ∀ c ∈ taken, p c = true) (hstop : Stops p rest) :
    (taken ++ rest).dropWhile p = rest := by
  rw [List.dropWhile_append_of_pos hall]
  cases rest with
  | nil => rfl
  | cons c cs => simp [stops_cons.1 hstop]

/-- A run is read whole. -/
theorem run_append {p : Char → Bool} {taken rest : List Char} (hne : taken ≠ [])
    (hall : ∀ c ∈ taken, p c = true) (hstop : Stops p rest) :
    run p (taken ++ rest) = some (taken, rest) := by
  rw [run, takeWhile_append_of_stops hall hstop, dropWhile_append_of_stops hall hstop]
  cases taken with
  | nil => exact absurd rfl hne
  | cons c cs => rfl

/-! ### Readers of languages -/

/-- The reader reads the texts of a language of which each stands for a value; `more` are the
characters with which such a text could go on. -/
structure Reads (item : Reader α) (language : List Char → α → Prop) (more : Char → Bool) :
    Prop where
  sound : ∀ {cs a rest}, item cs = some (a, rest) → ∃ front, cs = front ++ rest ∧ language front a
  complete : ∀ {front a rest}, language front a → Stops more rest →
    item (front ++ rest) = some (a, rest)

/-- A text of the language is read to its end. -/
theorem Reads.whole_iff {item : Reader α} {language : List Char → α → Prop} {more : Char → Bool}
    (h : Reads item language more) {cs : List Char} {a : α} :
    item cs = some (a, []) ↔ language cs a := by
  constructor
  · intro hread
    obtain ⟨front, hcs, hfront⟩ := h.sound hread
    rw [List.append_nil] at hcs
    rw [hcs]
    exact hfront
  · intro hlanguage
    have hread := h.complete hlanguage (stops_nil more)
    rw [List.append_nil] at hread
    exact hread

theorem Reads.map {item : Reader α} {language : List Char → α → Prop} {more : Char → Bool}
    (h : Reads item language more) (f : α → β) :
    Reads (fun cs => (item cs).map fun (a, rest) => (f a, rest))
      (fun cs b => ∃ a, language cs a ∧ b = f a) more := by
  constructor
  · intro cs b rest hread
    obtain ⟨⟨a, rest'⟩, hitem, heq⟩ := Option.map_eq_some_iff.1 hread
    cases heq
    obtain ⟨front, hcs, hfront⟩ := h.sound hitem
    exact ⟨front, hcs, a, hfront, rfl⟩
  · rintro front b rest ⟨a, hfront, rfl⟩ hstop
    rw [h.complete hfront hstop]
    rfl

theorem Reads.congr {item : Reader α} {language language' : List Char → α → Prop}
    {more : Char → Bool} (h : Reads item language more)
    (hiff : ∀ cs a, language cs a ↔ language' cs a) : Reads item language' more := by
  have heq : language = language' := by
    funext cs a
    exact propext (hiff cs a)
  rwa [← heq]

theorem reads_run (p : Char → Bool) :
    Reads (run p) (fun cs taken => cs = taken ∧ cs ≠ [] ∧ ∀ c ∈ cs, p c = true) p := by
  constructor
  · intro cs taken rest hread
    obtain ⟨hcs, hne, hall, -⟩ := run_eq_some hread
    exact ⟨taken, hcs, rfl, hne, hall⟩
  · rintro front taken rest ⟨rfl, hne, hall⟩ hstop
    exact run_append hne hall hstop

theorem reads_runAfter (first p : Char → Bool) :
    Reads (runAfter first p) (fun cs taken => cs = taken ∧
      ∃ c tail, cs = c :: tail ∧ first c = true ∧ ∀ d ∈ tail, p d = true) p := by
  constructor
  · intro cs taken rest hread
    cases cs with
    | nil => cases hread
    | cons c cs =>
        rw [runAfter] at hread
        split at hread
        next hfirst =>
          cases hread
          refine ⟨c :: cs.takeWhile p, ?_, rfl, c, _, rfl, hfirst, ?_⟩
          · rw [List.cons_append, List.takeWhile_append_dropWhile]
          · exact List.all_eq_true.1 List.all_takeWhile
        next => cases hread
  · rintro front taken rest ⟨rfl, c, tail, rfl, hfirst, hall⟩ hstop
    rw [List.cons_append, runAfter, if_pos hfirst, takeWhile_append_of_stops hall hstop,
      dropWhile_append_of_stops hall hstop]

/-! ### Sequences -/

/-- Texts of a language with `sep` between them; at least one. -/
inductive Sequence (sep : Char) (language : List Char → α → Prop) : List Char → List α → Prop where
  | one {cs : List Char} {a : α} (h : language cs a) : Sequence sep language cs [a]
  | more {cs rest : List Char} {a : α} {as : List α} (h : language cs a)
      (hrest : Sequence sep language rest as) :
      Sequence sep language (cs ++ sep :: rest) (a :: as)

section Sequences

variable {sep : Char} {item : Reader α} {language : List Char → α → Prop} {more : Char → Bool}

theorem Sequence.ne_nil {cs : List Char} {as : List α} (h : Sequence sep language cs as) :
    as ≠ [] := by
  cases h <;> simp

theorem Sequence.forall_mem {cs : List Char} {as : List α} {P : α → Prop}
    (h : Sequence sep language cs as) (hP : ∀ cs a, language cs a → P a) : ∀ a ∈ as, P a := by
  induction h with
  | one h =>
      intro a ha
      rw [List.mem_singleton.1 ha]
      exact hP _ _ h
  | more h hrest ih =>
      intro a ha
      rcases List.mem_cons.1 ha with rfl | ha
      · exact hP _ _ h
      · exact ih a ha

/-- A sequence is made of the characters of its items and of the mark between them. -/
theorem Sequence.forall_char {cs : List Char} {as : List α} {P : Char → Prop}
    (h : Sequence sep language cs as) (hP : ∀ cs a, language cs a → ∀ c ∈ cs, P c)
    (hsep : P sep) : ∀ c ∈ cs, P c := by
  induction h with
  | one h => exact hP _ _ h
  | more h hrest ih =>
      intro c hc
      rcases List.mem_append.1 hc with hc | hc
      · exact hP _ _ h c hc
      · rcases List.mem_cons.1 hc with rfl | hc
        · exact hsep
        · exact ih c hc

/-- A sequence is what its items are written as, joined by the mark. -/
theorem Sequence.toList_join {cs : List Char} {as : List α} (h : Sequence sep language cs as)
    {mark : String} (hmark : mark.toList = [sep]) (written : α → String)
    (hwritten : ∀ cs a, language cs a → (written a).toList = cs) :
    (join mark (as.map written)).toList = cs := by
  induction h with
  | one h => exact hwritten _ _ h
  | more h hrest ih =>
      cases hrest with
      | one h' =>
          simp only [List.map_cons, List.map_nil, join, String.toList_append, hmark,
            hwritten _ _ h, hwritten _ _ h', List.append_assoc, List.singleton_append]
      | more h' hrest' =>
          simp only [List.map_cons, join, String.toList_append, hmark, hwritten _ _ h,
            List.append_assoc, List.singleton_append] at ih ⊢
          rw [ih]

/-- Items that are joined by a mark are a sequence. -/
theorem sequence_join {as : List α} {mark : String} (hmark : mark.toList = [sep])
    (written : α → String) (hne : as ≠ []) (hwritten : ∀ a ∈ as, language (written a).toList a) :
    Sequence sep language (join mark (as.map written)).toList as := by
  match as with
  | [] => exact absurd rfl hne
  | [a] => exact .one (hwritten a List.mem_cons_self)
  | a :: b :: rest =>
      have hrest := sequence_join hmark written (List.cons_ne_nil b rest)
        fun c hc => hwritten c (List.mem_cons_of_mem a hc)
      rw [List.map_cons] at hrest ⊢
      rw [List.map_cons, join, String.toList_append, String.toList_append, hmark, List.append_assoc,
        List.singleton_append]
      exact .more (hwritten a List.mem_cons_self) hrest

/-- Further items are read with their marks, or nothing is. -/
theorem further_sound (h : Reads item language more) {n : Nat} {cs rest : List Char}
    {as : List α} (hread : further sep item n cs = (as, rest)) :
    (as = [] ∧ cs = rest) ∨
      ∃ front, cs = sep :: front ++ rest ∧ Sequence sep language front as := by
  induction n generalizing cs as rest with
  | zero =>
      cases hread
      exact Or.inl ⟨rfl, rfl⟩
  | succ n ih =>
      cases cs with
      | nil =>
          cases hread
          exact Or.inl ⟨rfl, rfl⟩
      | cons c cs =>
          rw [further] at hread
          split at hread
          next hsep =>
            split at hread
            next a rest₁ hitem =>
              obtain ⟨front, rfl, hfront⟩ := h.sound hitem
              generalize hfurther : further sep item n rest₁ = tail at hread
              obtain ⟨as', rest'⟩ := tail
              cases hread
              right
              rcases ih hfurther with ⟨rfl, rfl⟩ | ⟨front', rfl, hfront'⟩
              · exact ⟨front, by rw [hsep, List.cons_append], .one hfront⟩
              · refine ⟨front ++ sep :: front', ?_, .more hfront hfront'⟩
                simp [hsep]
            next =>
              cases hread
              exact Or.inl ⟨rfl, rfl⟩
          next =>
            cases hread
            exact Or.inl ⟨rfl, rfl⟩

theorem further_of_stops (item : Reader α) (n : Nat) {rest : List Char}
    (hstop : Stops (· == sep) rest) : further sep item n rest = ([], rest) := by
  cases n with
  | zero => rfl
  | succ n =>
      cases rest with
      | nil => rfl
      | cons c cs =>
          have hc : c ≠ sep := by simpa using stops_cons.1 hstop
          rw [further, if_neg hc]

theorem further_of_none {item : Reader α} (n : Nat) {rest : List Char} (h : item rest = none) :
    further sep item n (sep :: rest) = ([], sep :: rest) := by
  cases n with
  | zero => rfl
  | succ n => rw [further, if_pos rfl, h]

/-- Further items are read whole if there is room for them and none can be read behind them. -/
theorem further_complete (h : Reads item language more) (hsep : more sep = false)
    {front rest : List Char} {as : List α} (hfront : Sequence sep language front as)
    (hmore : Stops more rest) (hend : ∀ n, further sep item n rest = ([], rest)) {n : Nat}
    (hn : (front ++ rest).length < n) :
    further sep item n (sep :: (front ++ rest)) = (as, rest) := by
  induction hfront generalizing n with
  | one hitem =>
      obtain ⟨k, rfl⟩ := Nat.exists_eq_add_of_lt hn
      rw [further, if_pos rfl, h.complete hitem hmore]
      simp only [hend]
  | @more cs rest' a as hitem hrest ih =>
      obtain ⟨k, rfl⟩ := Nat.exists_eq_add_of_lt hn
      have hroom : (rest' ++ rest).length < (cs ++ sep :: rest' ++ rest).length + k := by
        simp only [List.length_append, List.length_cons]
        omega
      rw [further, if_pos rfl, List.append_assoc, List.cons_append,
        h.complete hitem (stops_cons.2 hsep)]
      rw [List.append_assoc, List.cons_append] at hroom
      simp only [ih hroom]

theorem separated_complete (h : Reads item language more) (hsep : more sep = false)
    {front rest : List Char} {as : List α} (hfront : Sequence sep language front as)
    (hmore : Stops more rest) (hend : ∀ n, further sep item n rest = ([], rest)) :
    separated sep item (front ++ rest) = some (as, rest) := by
  unfold separated
  cases hfront with
  | one hitem =>
      rw [h.complete hitem hmore]
      simp only [hend]
  | more hitem hrest =>
      rw [List.append_assoc, List.cons_append, h.complete hitem (stops_cons.2 hsep)]
      simp only [further_complete h hsep hrest hmore hend (Nat.lt_succ_self _), List.length_cons]

/-- A sequence is read in front of a mark that no item follows. -/
theorem separated_of_none (h : Reads item language more) (hsep : more sep = false)
    {front rest : List Char} {as : List α} (hfront : Sequence sep language front as)
    (hnone : item rest = none) :
    separated sep item (front ++ sep :: rest) = some (as, sep :: rest) :=
  separated_complete h hsep hfront (stops_cons.2 hsep) fun n => further_of_none n hnone

/-- A sequence is read by a reader of its items if none of them goes on with the mark between
them. -/
theorem reads_separated (h : Reads item language more) (hsep : more sep = false) :
    Reads (separated sep item) (Sequence sep language) (fun c => more c || c == sep) := by
  constructor
  · intro cs as rest hread
    unfold separated at hread
    split at hread
    next a rest₁ hitem =>
      obtain ⟨front, rfl, hfront⟩ := h.sound hitem
      generalize hfurther : further sep item rest₁.length rest₁ = tail at hread
      obtain ⟨as', rest'⟩ := tail
      cases hread
      rcases further_sound h hfurther with ⟨rfl, rfl⟩ | ⟨front', rfl, hfront'⟩
      · exact ⟨front, rfl, .one hfront⟩
      · refine ⟨front ++ sep :: front', ?_, .more hfront hfront'⟩
        rw [List.append_assoc]
    next => cases hread
  · intro front as rest hfront hstops
    have hmore : Stops more rest := fun c hc => (Bool.or_eq_false_iff.1 (hstops c hc)).1
    have hstop : Stops (· == sep) rest := fun c hc => (Bool.or_eq_false_iff.1 (hstops c hc)).2
    exact separated_complete h hsep hfront hmore fun n => further_of_stops item n hstop

end Sequences

end ServiceModel.Text
