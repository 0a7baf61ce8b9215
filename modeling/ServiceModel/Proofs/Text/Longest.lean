import ServiceModel.Proofs.Text.Scan

/-!
Reading as far as possible.  Some fronts of a text belong to a language, and a reader may well stop at a
short one.  A reader that never does stops at the longest, and the bytes of what it has read say where the
text ceases to belong to the language.
-/

namespace ServiceModel.Text

variable {α β : Type}

/-! ### Bytes -/

theorem byteLength_toList (s : String) : byteLength s.toList = s.utf8ByteSize := by
  have hofList : ∀ cs : List Char, byteLength cs = (String.ofList cs).utf8ByteSize := by
    intro cs
    induction cs with
    | nil => rfl
    | cons c cs ih =>
        rw [byteLength, ih, String.ofList_cons, String.utf8ByteSize_append,
          String.utf8ByteSize_singleton]
  rw [hofList, String.ofList_toList]

/-- Where some characters of a text end, no character is cut. -/
theorem isValid_byteLength {s : String} {front rest : List Char} (h : s.toList = front ++ rest) :
    (⟨byteLength front⟩ : String.Pos.Raw).IsValid s := by
  rw [String.Pos.Raw.isValid_iff_exists_append]
  refine ⟨String.ofList front, String.ofList rest, ?_, ?_⟩
  · rw [← String.ofList_append, ← h, String.ofList_toList]
  · show (⟨byteLength front⟩ : String.Pos.Raw) = ⟨(String.ofList front).utf8ByteSize⟩
    rw [← byteLength_toList, String.toList_ofList]

theorem byteLength_le_of_prefix {front cs : List Char} (h : front <+: cs) :
    byteLength front ≤ byteLength cs := by
  obtain ⟨rest, rfl⟩ := h
  rw [byteLength_append]
  omega

theorem byteLength_append_sub (front rest : List Char) :
    byteLength (front ++ rest) - byteLength rest = byteLength front := by
  rw [byteLength_append]
  omega

/-! ### Longest fronts -/

/-- A front of a text that satisfies `P`, and goes at least as far as any other. -/
structure LongestFront (P : List Char → Prop) (cs front : List Char) : Prop where
  holds : P front
  here : front <+: cs
  longest : ∀ other, P other → other <+: cs → other <+: front

theorem LongestFront.unique {P : List Char → Prop} {cs front front' : List Char}
    (h : LongestFront P cs front) (h' : LongestFront P cs front') : front = front' := by
  have hle := (h'.longest front h.holds h.here).length_le
  exact (h.longest front' h'.holds h'.here).eq_of_length_le hle |>.symm

/-! ### Readers -/

/-- Whatever front of a text belongs to the language, the reader reads at least as much. -/
def ReadsLongest (item : Reader α) (language : List Char → α → Prop) : Prop :=
  ∀ ⦃front : List Char⦄ ⦃a : α⦄, language front a → ∀ rest,
    ∃ b rest', item (front ++ rest) = some (b, rest') ∧ rest'.length ≤ rest.length

theorem readsLongest_run (p : Char → Bool) :
    ReadsLongest (run p) (fun cs taken => cs = taken ∧ cs ≠ [] ∧ ∀ c ∈ cs, p c = true) := by
  rintro front taken ⟨rfl, hne, hall⟩ rest
  obtain ⟨c, tail, rfl⟩ := List.exists_cons_of_ne_nil hne
  refine ⟨c :: tail ++ rest.takeWhile p, rest.dropWhile p, ?_, (List.dropWhile_suffix p).length_le⟩
  unfold run
  rw [List.takeWhile_append_of_pos hall, List.dropWhile_append_of_pos hall, List.cons_append]

theorem ReadsLongest.map {item : Reader α} {language : List Char → α → Prop}
    (h : ReadsLongest item language) (f : α → β) :
    ReadsLongest (fun cs => (item cs).map fun (a, rest) => (f a, rest))
      (fun cs b => ∃ a, language cs a ∧ b = f a) := by
  rintro front b ⟨a, hfront, -⟩ rest
  obtain ⟨a', rest', hread, hle⟩ := h hfront rest
  refine ⟨f a', rest', ?_, hle⟩
  show (item (front ++ rest)).map _ = _
  rw [hread]
  rfl

theorem ReadsLongest.imp {item : Reader α} {language language' : List Char → α → Prop}
    (h : ReadsLongest item language) (hsub : ∀ cs a, language' cs a → ∃ b, language cs b) :
    ReadsLongest item language' := by
  intro front a hfront
  obtain ⟨b, hb⟩ := hsub front a hfront
  exact h hb

section Reading

variable {item : Reader α} {language : List Char → α → Prop} {more : Char → Bool}

/-- What is read is the longest front of the language. -/
theorem ReadsLongest.longestFront (hlongest : ReadsLongest item language)
    (h : Reads item language more) {cs rest : List Char} {a : α} (hread : item cs = some (a, rest)) :
    ∃ front, cs = front ++ rest ∧ language front a ∧
      LongestFront (fun ds => ∃ b, language ds b) cs front := by
  obtain ⟨front, rfl, hfront⟩ := h.sound hread
  refine ⟨front, rfl, hfront, ⟨a, hfront⟩, List.prefix_append _ _, ?_⟩
  rintro other ⟨b, hother⟩ hlead
  apply List.prefix_of_prefix_length_le hlead (List.prefix_append front rest)
  obtain ⟨rest', heq⟩ := hlead
  obtain ⟨c, rest'', hread', hle⟩ := hlongest hother rest'
  rw [heq, hread] at hread'
  cases hread'
  have hlength := congrArg List.length heq
  simp only [List.length_append] at hlength
  omega

/-- If nothing is read, no front belongs to the language. -/
theorem ReadsLongest.not_front (hlongest : ReadsLongest item language) {cs : List Char}
    (hnone : item cs = none) {front : List Char} (hlead : front <+: cs) :
    ¬∃ b, language front b := by
  rintro ⟨b, hfront⟩
  obtain ⟨rest, rfl⟩ := hlead
  obtain ⟨c, rest', hread, -⟩ := hlongest hfront rest
  rw [hnone] at hread
  cases hread

/-- The longest front of the language is read, with what is left of the text. -/
theorem ReadsLongest.read_longestFront (hlongest : ReadsLongest item language)
    (h : Reads item language more) {front rest : List Char}
    (hfront : LongestFront (fun ds => ∃ b, language ds b) (front ++ rest) front) :
    ∃ a, item (front ++ rest) = some (a, rest) := by
  obtain ⟨b, hb⟩ := hfront.holds
  obtain ⟨a, rest', hread, -⟩ := hlongest hb rest
  obtain ⟨front', heq, -, hfront'⟩ := hlongest.longestFront h hread
  rw [← hfront.unique hfront'] at heq
  rw [List.append_cancel_left heq] at hread ⊢
  exact ⟨a, hread⟩

/-! ### Sequences -/

variable {sep : Char}

/-- Further items leave no more of the text than was there. -/
theorem length_further_le (h : Reads item language more) (n : Nat) (cs : List Char) :
    (further sep item n cs).2.length ≤ cs.length := by
  rcases further_sound h (rfl : further sep item n cs = (_, _)) with ⟨-, heq⟩ | ⟨front, heq, -⟩
  · exact Nat.le_of_eq (congrArg List.length heq).symm
  · have hlength := congrArg List.length heq
    simp only [List.length_append, List.length_cons] at hlength
    omega

theorem further_longest (hlongest : ReadsLongest item language) (h : Reads item language more)
    (hsep : more sep = false) {front rest : List Char} {as : List α}
    (hfront : Sequence sep language front as) {n : Nat} (hn : (front ++ rest).length < n) :
    (further sep item n (sep :: (front ++ rest))).2.length ≤ rest.length := by
  induction hfront generalizing n with
  | one hitem =>
      obtain ⟨k, rfl⟩ := Nat.exists_eq_add_of_lt hn
      obtain ⟨b, rest', hread, hle⟩ := hlongest hitem rest
      rw [further, if_pos rfl, hread]
      exact Nat.le_trans (length_further_le h _ _) hle
  | @more cs rest' a as hitem hrest ih =>
      obtain ⟨k, rfl⟩ := Nat.exists_eq_add_of_lt hn
      have hroom : (rest' ++ rest).length < (cs ++ sep :: rest' ++ rest).length + k := by
        simp only [List.length_append, List.length_cons]
        omega
      -- the mark behind an item ends it, so only the last item can be read any further
      rw [further, if_pos rfl, List.append_assoc, List.cons_append,
        h.complete hitem (stops_cons.2 hsep)]
      rw [List.append_assoc, List.cons_append] at hroom
      exact ih hroom

theorem readsLongest_separated (hlongest : ReadsLongest item language)
    (h : Reads item language more) (hsep : more sep = false) :
    ReadsLongest (separated sep item) (Sequence sep language) := by
  intro front as hfront rest
  unfold separated
  cases hfront with
  | one hitem =>
      obtain ⟨b, rest', hread, hle⟩ := hlongest hitem rest
      rw [hread]
      exact ⟨_, _, rfl, Nat.le_trans (length_further_le h _ _) hle⟩
  | more hitem hrest =>
      rw [List.append_assoc, List.cons_append, h.complete hitem (stops_cons.2 hsep)]
      exact ⟨_, _, rfl, further_longest hlongest h hsep hrest (Nat.lt_succ_self _)⟩

end Reading

end ServiceModel.Text
