import ServiceModel.Proofs.Data.JsonScalar

/-!
Texts that give JSON values back.  A value is legible when its numbers are integers of a word and its
collections are not too deep; both written forms of a legible value are read as the node that has its
notation, wherever they stand in a longer text.
-/

namespace ServiceModel

/-- The numbers of the value are integers of a word, and no collection is more than `levels` levels
deep. -/
inductive Json.Legible : Nat → Json → Prop where
  | null {levels : Nat} : Legible levels .null
  | bool {levels : Nat} (b : Bool) : Legible levels (.bool b)
  | int {levels : Nat} {i : Int} (hmin : -Int.pow 2 63 ≤ i) (hmax : i < Int.pow 2 64) :
      Legible levels (.int i)
  | string {levels : Nat} (s : String) : Legible levels (.string s)
  | array {levels : Nat} {items : List Json} (h : ∀ j ∈ items, Legible levels j) :
      Legible (levels + 1) (.array items)
  | object {levels : Nat} {members : List (String × Json)}
      (h : ∀ m ∈ members, Legible levels m.2) : Legible (levels + 1) (.object members)

attribute [simp] Json.Legible.null Json.Legible.bool Json.Legible.string

@[simp] theorem Json.legible_array {levels : Nat} {items : List Json} :
    Json.Legible (levels + 1) (.array items) ↔ ∀ j ∈ items, Json.Legible levels j :=
  ⟨fun | .array h => h, .array⟩

@[simp] theorem Json.legible_object {levels : Nat} {members : List (String × Json)} :
    Json.Legible (levels + 1) (.object members) ↔ ∀ m ∈ members, Json.Legible levels m.2 :=
  ⟨fun | .object h => h, .object⟩

theorem Json.Legible.mono {levels levels' : Nat} {j : Json} (h : j.Legible levels)
    (hle : levels ≤ levels') : j.Legible levels' := by
  induction h generalizing levels' with
  | null => exact .null
  | bool b => exact .bool b
  | int hmin hmax => exact .int hmin hmax
  | string s => exact .string s
  | array h ih =>
      obtain ⟨k, rfl⟩ := Nat.exists_eq_add_of_lt hle
      exact .array fun j hj => ih j hj (Nat.le_add_right _ _)
  | object h ih =>
      obtain ⟨k, rfl⟩ := Nat.exists_eq_add_of_lt hle
      exact .object fun m hm => ih m hm (Nat.le_add_right _ _)

/-! ### The node of a value -/

namespace Node

@[simp] theorem ofJsonItems_eq_map (js : List Json) : ofJsonItems js = js.map ofJson := by
  induction js with
  | nil => rfl
  | cons j js ih => rw [ofJsonItems, ih, List.map_cons]

@[simp] theorem ofJsonMembers_eq_map (ms : List (String × Json)) :
    ofJsonMembers ms = ms.map fun m => (.string m.1, ofJson m.2) := by
  induction ms with
  | nil => rfl
  | cons m ms ih => rw [ofJsonMembers, ih, List.map_cons]

@[simp] theorem pruneItems_eq_map (levels : Nat) (ns : List Node) :
    pruneItems levels ns = ns.map (prune levels) := by
  induction ns with
  | nil => rfl
  | cons n ns ih => rw [pruneItems, ih, List.map_cons]

@[simp] theorem pruneMembers_eq_map (levels : Nat) (ms : List (Node × Node)) :
    pruneMembers levels ms = ms.map fun m => (prune levels m.1, prune levels m.2) := by
  induction ms with
  | nil => rfl
  | cons m ms ih => rw [pruneMembers, ih, List.map_cons]

/-- Nothing of a legible value is too deep. -/
theorem prune_ofJson {levels : Nat} {j : Json} (h : j.Legible levels) :
    prune levels (ofJson j) = ofJson j := by
  induction h with
  | null => simp [ofJson, prune]
  | bool b => simp [ofJson, prune]
  | int hmin hmax => simp [Json.int, ofJson, prune]
  | string s => simp [ofJson, prune]
  | array h ih =>
      simp only [ofJson, prune, ofJsonItems_eq_map, pruneItems_eq_map, List.map_map]
      congr 1
      exact List.map_congr_left fun j hj => ih j hj
  | object h ih =>
      simp only [ofJson, prune, ofJsonMembers_eq_map, pruneMembers_eq_map, List.map_map]
      congr 1
      refine List.map_congr_left fun m hm => ?_
      simp [prune, ih m hm]

end Node

namespace JsonText

open Text (Stops stops_cons)

/-! ### Blanks -/

/-- The text consists of characters that may stand between the parts of a value. -/
def Blank (cs : List Char) : Prop := ∀ c ∈ cs, isSpace c = true

theorem blank_nil : Blank [] := by simp [Blank]

theorem blank_newLine (level : Nat) : Blank (Json.newLine level).toList := by
  intro c hc
  simp only [Json.newLine, String.toList_append, String.toList_ofList, List.mem_append,
    List.mem_replicate] at hc
  rcases hc with hc | ⟨-, rfl⟩
  · rw [List.mem_singleton.1 hc]
    rfl
  · rfl

section

variable {blank cs : List Char}

theorem skipSpace_append (h : Blank blank) : skipSpace (blank ++ cs) = skipSpace cs :=
  List.dropWhile_append_of_pos h

theorem skipSpace_cons {c : Char} (h : isSpace c = false) : skipSpace (c :: cs) = c :: cs := by
  simp [skipSpace, h]

theorem stops_append_of_blank (h : Blank blank) (hcs : Stops isNumberTail cs) :
    Stops isNumberTail (blank ++ cs) := by
  cases blank with
  | nil => exact hcs
  | cons c blank =>
      have hc := h c List.mem_cons_self
      simp only [isSpace, Bool.or_eq_true, decide_eq_true_eq] at hc
      rw [List.cons_append, stops_cons]
      rcases hc with ((rfl | rfl) | rfl) | rfl <;> rfl

theorem value?_append (h : Blank blank) (steps : Nat) :
    value? steps (blank ++ cs) = value? steps cs := by
  cases steps with
  | zero => rfl
  | succ n => simp only [value?, skipSpace_append h]

theorem items?_append (h : Blank blank) (steps : Nat) (done : List Node) :
    items? steps done (blank ++ cs) = items? steps done cs := by
  cases steps with
  | zero => rfl
  | succ n => simp only [items?, value?_append h]

theorem members?_append (h : Blank blank) (steps : Nat) (done : List (Node × Node)) :
    members? steps done (blank ++ cs) = members? steps done cs := by
  cases steps with
  | zero => rfl
  | succ n => simp only [members?, skipSpace_append h]

end

/-! ### Texts that give values -/

/-- The text begins with a character that may begin a value. -/
def Starts (cs : List Char) : Prop := ∃ c ds, cs = c :: ds ∧ isSpace c = false ∧ c ≠ ']'

theorem Starts.append {cs : List Char} (h : Starts cs) (ds : List Char) : Starts (cs ++ ds) := by
  obtain ⟨c, cs, rfl, hc⟩ := h
  exact ⟨c, cs ++ ds, rfl, hc⟩

/-- A text that begins takes at least one step. -/
theorem Starts.exists_succ {cs : List Char} (h : Starts cs) {steps : Nat}
    (hsteps : cs.length ≤ steps) : ∃ n, steps = n + 1 := by
  obtain ⟨c, ds, rfl, -⟩ := h
  exact Nat.exists_eq_add_one.2 (Nat.lt_of_lt_of_le (Nat.succ_pos ds.length) hsteps)

/-- The text is read as the value wherever it stands.  As many steps as it has characters are
enough. -/
structure Gives (cs : List Char) (j : Json) : Prop where
  starts : Starts cs
  value : ∀ (steps : Nat) (rest : List Char), cs.length ≤ steps → Stops isNumberTail rest →
    value? steps (cs ++ rest) = some (.ofJson j, rest)

/-- The text, with a bracket at its end, is read as further items of a list. -/
structure GivesItems (cs : List Char) (js : List Json) : Prop where
  starts : Starts cs
  items : ∀ (steps : Nat) (done : List Node) (rest : List Char), cs.length ≤ steps →
    items? steps done (cs ++ rest) = some (.array (done.reverse ++ js.map .ofJson), rest)

/-- The text, with a brace at its end, is read as further members of an object. -/
structure GivesMembers (cs : List Char) (ms : List (String × Json)) : Prop where
  starts : ∃ ds, cs = '"' :: ds
  members : ∀ (steps : Nat) (done : List (Node × Node)) (rest : List Char), cs.length ≤ steps →
    members? steps done (cs ++ rest) =
      some (.record (done.reverse ++ ms.map fun m => (.string m.1, .ofJson m.2)), rest)

theorem gives_null : Gives "null".toList .null := by
  refine ⟨⟨_, _, rfl, by decide, by decide⟩, fun steps rest hsteps hrest => ?_⟩
  obtain ⟨n, rfl⟩ := Nat.exists_eq_add_of_lt hsteps
  simp [value?, skipSpace, isSpace, Node.ofJson]

theorem gives_bool (b : Bool) : Gives (Json.compact (.bool b)).toList (.bool b) := by
  cases b
  all_goals
    refine ⟨⟨_, _, rfl, by decide, by decide⟩, fun steps rest hsteps hrest => ?_⟩
    obtain ⟨n, rfl⟩ := Nat.exists_eq_add_of_lt hsteps
    simp [Json.compact, value?, skipSpace, isSpace, Node.ofJson]

theorem gives_string (s : String) : Gives (Json.quote s).toList (.string s) := by
  rw [toList_quote]
  refine ⟨⟨_, _, rfl, by decide, by decide⟩, fun steps rest hsteps hrest => ?_⟩
  obtain ⟨n, rfl⟩ := Nat.exists_eq_add_of_lt hsteps
  simp [value?, skipSpace, isSpace, quoted?_quote, Node.ofJson]

/-- Whether a number may begin with a character. -/
def isNumberHead (c : Char) : Bool := c.isDigit || c == '-'

theorem isSpace_of_isNumberHead {c : Char} (hc : isNumberHead c = true) : isSpace c = false := by
  rw [isSpace, Bool.eq_false_iff]
  intro h
  simp only [Bool.or_eq_true, decide_eq_true_eq] at h
  rcases h with ((rfl | rfl) | rfl) | rfl <;> cases hc

theorem value?_of_isNumberHead {c : Char} (hc : isNumberHead c = true) (steps : Nat)
    (cs : List Char) : value? (steps + 1) (c :: cs) = number? (c :: cs) := by
  rw [value?, skipSpace_cons (isSpace_of_isNumberHead hc)]
  -- no other value begins like a number
  split <;> (try rfl)
  all_goals
    next heq =>
      rw [(List.cons.inj heq).1] at hc
      cases hc

theorem exists_numberHead (i : Int) :
    ∃ c cs, (toString i).toList = c :: cs ∧ isNumberHead c = true := by
  cases i with
  | ofNat n =>
      obtain ⟨c, cs, hcs⟩ := List.exists_cons_of_ne_nil (Nat.toDigits_ne_nil (n := n) (b := 10))
      have hc := isDigit_of_mem_toDigits (n := n) (hcs ▸ List.mem_cons_self)
      exact ⟨c, cs, by simpa [toString, Int.repr] using hcs, by simp [isNumberHead, hc]⟩
  | negSucc n => exact ⟨'-', Nat.toDigits 10 (n + 1), by simp [toString, Int.repr], rfl⟩

theorem gives_int {i : Int} (hmin : -Int.pow 2 63 ≤ i) (hmax : i < Int.pow 2 64) :
    Gives (toString i).toList (.int i) := by
  obtain ⟨c, cs, hcs, hc⟩ := exists_numberHead i
  constructor
  · refine ⟨c, cs, hcs, isSpace_of_isNumberHead hc, ?_⟩
    rintro rfl
    cases hc
  · intro steps rest hsteps hrest
    have hread := number?_toString hmin hmax hrest
    rw [hcs] at hsteps hread ⊢
    obtain ⟨n, rfl⟩ := Nat.exists_eq_add_of_lt hsteps
    rw [List.cons_append] at hread ⊢
    rw [value?_of_isNumberHead hc, hread]
    rfl

theorem gives_array_nil : Gives ['[', ']'] (.array []) := by
  refine ⟨⟨_, _, rfl, by decide, by decide⟩, fun steps rest hsteps hrest => ?_⟩
  obtain ⟨n, rfl⟩ := Nat.exists_eq_add_of_lt hsteps
  simp [value?, skipSpace, isSpace, Node.ofJson]

theorem gives_array {blank cs : List Char} {js : List Json} (hblank : Blank blank)
    (hcs : GivesItems cs js) : Gives ('[' :: (blank ++ cs)) (.array js) := by
  refine ⟨⟨_, _, rfl, by decide, by decide⟩, fun steps rest hsteps hrest => ?_⟩
  obtain ⟨n, rfl⟩ := Nat.exists_eq_add_of_lt hsteps
  have hitems : items? ((blank ++ cs).length + n) [] (cs ++ rest) =
      some (.array (js.map .ofJson), rest) := hcs.items _ _ _ (by rw [List.length_append]; omega)
  obtain ⟨c, ds, rfl, hspace, hbracket⟩ := hcs.starts
  have hskip : skipSpace (blank ++ (c :: ds) ++ rest) = c :: ds ++ rest := by
    rw [List.append_assoc, skipSpace_append hblank, List.cons_append, skipSpace_cons hspace]
  rw [value?, List.cons_append, skipSpace_cons (by rfl)]
  simp only [hskip]
  split
  next heq => exact absurd (List.cons.inj heq).1 hbracket
  next =>
    rw [hitems, Node.ofJson, Node.ofJsonItems_eq_map]

theorem givesItems_one {cs blank : List Char} {j : Json} (hj : Gives cs j) (hblank : Blank blank) :
    GivesItems (cs ++ (blank ++ [']'])) [j] := by
  have hstarts := hj.starts.append (blank ++ [']'])
  refine ⟨hstarts, fun steps done rest hsteps => ?_⟩
  obtain ⟨n, rfl⟩ := hstarts.exists_succ hsteps
  have hstops : Stops isNumberTail (blank ++ ']' :: rest) :=
    stops_append_of_blank hblank (stops_cons.2 rfl)
  have hvalue := hj.value n _ (by simp at hsteps; omega) hstops
  rw [items?, List.append_assoc, List.append_assoc, List.singleton_append, hvalue]
  simp [skipSpace_append hblank, skipSpace_cons (show isSpace ']' = false from rfl)]

theorem givesItems_cons {cs blank ds : List Char} {j : Json} {js : List Json} (hj : Gives cs j)
    (hblank : Blank blank) (hds : GivesItems ds js) :
    GivesItems (cs ++ ',' :: (blank ++ ds)) (j :: js) := by
  have hstarts := hj.starts.append (',' :: (blank ++ ds))
  refine ⟨hstarts, fun steps done rest hsteps => ?_⟩
  obtain ⟨n, rfl⟩ := hstarts.exists_succ hsteps
  have hstops : Stops isNumberTail (',' :: (blank ++ (ds ++ rest))) := stops_cons.2 rfl
  have hvalue := hj.value n _ (by simp at hsteps; omega) hstops
  have hitems := hds.items n (.ofJson j :: done) rest (by simp at hsteps; omega)
  rw [items?, List.append_assoc, List.cons_append, List.append_assoc, hvalue]
  simp [skipSpace_cons (show isSpace ',' = false from rfl), items?_append hblank, hitems]

theorem gives_object_nil : Gives ['\x7b', '\x7d'] (.object []) := by
  refine ⟨⟨_, _, rfl, by decide, by decide⟩, fun steps rest hsteps hrest => ?_⟩
  obtain ⟨n, rfl⟩ := Nat.exists_eq_add_of_lt hsteps
  simp [value?, skipSpace, isSpace, Node.ofJson]

theorem gives_object {blank cs : List Char} {ms : List (String × Json)} (hblank : Blank blank)
    (hcs : GivesMembers cs ms) : Gives ('\x7b' :: (blank ++ cs)) (.object ms) := by
  refine ⟨⟨_, _, rfl, by decide, by decide⟩, fun steps rest hsteps hrest => ?_⟩
  obtain ⟨n, rfl⟩ := Nat.exists_eq_add_of_lt hsteps
  have hmembers : members? ((blank ++ cs).length + n) [] (cs ++ rest) =
      some (.record (ms.map fun m => (.string m.1, .ofJson m.2)), rest) :=
    hcs.members _ _ _ (by rw [List.length_append]; omega)
  obtain ⟨cs, rfl⟩ := hcs.starts
  have hskip : skipSpace (blank ++ '"' :: cs ++ rest) = '"' :: cs ++ rest := by
    rw [List.append_assoc, skipSpace_append hblank, List.cons_append, skipSpace_cons (by rfl)]
  rw [value?, List.cons_append, skipSpace_cons (by rfl)]
  simp only [hskip]
  rw [Node.ofJson, Node.ofJsonMembers_eq_map]
  exact hmembers

section

variable (k : String) {blank cs blank' : List Char} {j : Json}

/-- A member with a comma behind it is taken in. -/
theorem members?_comma (hblank : Blank blank) (hj : Gives cs j) (steps : Nat)
    (done : List (Node × Node)) (rest : List Char) (hsteps : cs.length ≤ steps) :
    members? (steps + 1) done
        ((Json.quote k).toList ++ ':' :: (blank ++ (cs ++ ',' :: rest))) =
      members? steps ((.string k, .ofJson j) :: done) rest := by
  have hvalue := hj.value steps (',' :: rest) hsteps (stops_cons.2 rfl)
  rw [members?, toList_quote, List.cons_append, skipSpace_cons (by rfl), List.append_assoc,
    List.singleton_append]
  simp only [quoted?_quote, skipSpace_cons (show isSpace ':' = false from rfl),
    value?_append hblank, hvalue, skipSpace_cons (show isSpace ',' = false from rfl)]

/-- The last member is taken in, with the brace behind it. -/
theorem members?_brace (hblank : Blank blank) (hj : Gives cs j) (hblank' : Blank blank')
    (steps : Nat) (done : List (Node × Node)) (rest : List Char) (hsteps : cs.length ≤ steps) :
    members? (steps + 1) done
        ((Json.quote k).toList ++ ':' :: (blank ++ (cs ++ (blank' ++ '\x7d' :: rest)))) =
      some (.record ((.string k, .ofJson j) :: done).reverse, rest) := by
  have hvalue := hj.value steps (blank' ++ '\x7d' :: rest) hsteps
    (stops_append_of_blank hblank' (stops_cons.2 rfl))
  rw [members?, toList_quote, List.cons_append, skipSpace_cons (by rfl), List.append_assoc,
    List.singleton_append]
  simp only [quoted?_quote, skipSpace_cons (show isSpace ':' = false from rfl),
    value?_append hblank, hvalue, skipSpace_append hblank',
    skipSpace_cons (show isSpace '\x7d' = false from rfl)]

theorem givesMembers_one (hblank : Blank blank) (hj : Gives cs j) (hblank' : Blank blank') :
    GivesMembers ((Json.quote k).toList ++ ':' :: (blank ++ (cs ++ (blank' ++ ['\x7d']))))
      [(k, j)] := by
  refine ⟨⟨_, by rw [toList_quote, List.cons_append]⟩, fun steps done rest hsteps => ?_⟩
  obtain ⟨n, rfl⟩ := ((gives_string k).starts.append _).exists_succ hsteps
  have hmember := members?_brace k hblank hj hblank' n done rest (by simp at hsteps; omega)
  simpa using hmember

theorem givesMembers_cons {ds : List Char} {ms : List (String × Json)} (hblank : Blank blank)
    (hj : Gives cs j) (hblank' : Blank blank') (hds : GivesMembers ds ms) :
    GivesMembers ((Json.quote k).toList ++ ':' :: (blank ++ (cs ++ ',' :: (blank' ++ ds))))
      ((k, j) :: ms) := by
  refine ⟨⟨_, by rw [toList_quote, List.cons_append]⟩, fun steps done rest hsteps => ?_⟩
  obtain ⟨n, rfl⟩ := ((gives_string k).starts.append _).exists_succ hsteps
  have hmember := members?_comma k hblank hj n done (blank' ++ (ds ++ rest))
    (by simp at hsteps; omega)
  have hmembers := hds.members n ((.string k, .ofJson j) :: done) rest
    (by simp at hsteps; omega)
  rw [members?_append hblank', hmembers] at hmember
  simpa using hmember

end

/-! ### The written forms -/

theorem givesItems_compactItems {js : List Json} (hne : js ≠ [])
    (h : ∀ j ∈ js, Gives j.compact.toList j) :
    GivesItems ((Json.compactItems js).toList ++ [']']) js := by
  match js with
  | [] => exact absurd rfl hne
  | [j] => exact givesItems_one (h j List.mem_cons_self) blank_nil
  | j :: k :: js =>
      have hrest := givesItems_compactItems (List.cons_ne_nil k js) fun i hi =>
        h i (List.mem_cons_of_mem j hi)
      have hitems := givesItems_cons (h j List.mem_cons_self) blank_nil hrest
      simpa [Json.compactItems] using hitems

theorem givesMembers_compactMembers {ms : List (String × Json)} (hne : ms ≠ [])
    (h : ∀ m ∈ ms, Gives m.2.compact.toList m.2) :
    GivesMembers ((Json.compactMembers ms).toList ++ ['\x7d']) ms := by
  match ms with
  | [] => exact absurd rfl hne
  | [(k, j)] =>
      have hmember := givesMembers_one k blank_nil (h _ List.mem_cons_self) blank_nil
      simpa [Json.compactMembers] using hmember
  | (k, j) :: m :: ms =>
      have hrest := givesMembers_compactMembers (List.cons_ne_nil m ms) fun i hi =>
        h i (List.mem_cons_of_mem (k, j) hi)
      have hmembers := givesMembers_cons k blank_nil (h _ List.mem_cons_self) blank_nil hrest
      simpa [Json.compactMembers] using hmembers

/-- A legible value is read from its compact form. -/
theorem gives_compact {levels : Nat} {j : Json} (h : j.Legible levels) :
    Gives j.compact.toList j := by
  induction h with
  | null => exact gives_null
  | bool b => exact gives_bool b
  | int hmin hmax => exact gives_int hmin hmax
  | string s => exact gives_string s
  | @array levels items h ih =>
      cases items with
      | nil => exact gives_array_nil
      | cons j js =>
          have harray := gives_array blank_nil (givesItems_compactItems (List.cons_ne_nil j js) ih)
          simpa [Json.compact] using harray
  | @object levels members h ih =>
      cases members with
      | nil => exact gives_object_nil
      | cons m ms =>
          have hobject :=
            gives_object blank_nil (givesMembers_compactMembers (List.cons_ne_nil m ms) ih)
          simpa [Json.compact] using hobject

/-- Items laid out over lines, the first of them before the others. -/
theorem givesItems_prettyItems {level : Nat} (level' : Nat) {cs : List Char} {j : Json}
    {js : List Json} (hj : Gives cs j) (hjs : ∀ i ∈ js, Gives (i.prettyAt level).toList i) :
    GivesItems (cs ++ ((Json.prettyItems level js).toList ++
      ((Json.newLine level').toList ++ [']']))) (j :: js) := by
  induction js generalizing j cs with
  | nil => exact givesItems_one hj (blank_newLine level')
  | cons i js ih =>
      have hrest := ih (hjs i List.mem_cons_self) fun k hk => hjs k (List.mem_cons_of_mem i hk)
      have hitems := givesItems_cons hj (blank_newLine level) hrest
      simpa [Json.prettyItems] using hitems

/-- Members laid out over lines, the first of them before the others. -/
theorem givesMembers_prettyMembers {level : Nat} (level' : Nat) {k : String} {cs : List Char}
    {j : Json} {ms : List (String × Json)} (hj : Gives cs j)
    (hms : ∀ m ∈ ms, Gives (m.2.prettyAt level).toList m.2) :
    GivesMembers ((Json.quote k).toList ++ ':' :: ' ' :: (cs ++
      ((Json.prettyMembers level ms).toList ++ ((Json.newLine level').toList ++ ['\x7d']))))
      ((k, j) :: ms) := by
  have hspace : Blank [' '] := by simp [Blank, isSpace]
  induction ms generalizing k j cs with
  | nil => exact givesMembers_one k hspace hj (blank_newLine level')
  | cons m ms ih =>
      have hrest := ih (k := m.1) (hms m List.mem_cons_self) fun i hi =>
        hms i (List.mem_cons_of_mem m hi)
      have hmembers := givesMembers_cons k hspace hj (blank_newLine level) hrest
      simpa [Json.prettyMembers] using hmembers

/-- A legible value is read from its form over lines, at any level. -/
theorem gives_prettyAt {levels : Nat} {j : Json} (h : j.Legible levels) (level : Nat) :
    Gives (j.prettyAt level).toList j := by
  induction h generalizing level with
  | null => exact gives_null
  | bool b =>
      have hbool := gives_bool b
      cases b <;> simpa [Json.prettyAt, Json.compact] using hbool
  | int hmin hmax => exact gives_int hmin hmax
  | string s => exact gives_string s
  | @array levels items h ih =>
      cases items with
      | nil => simpa [Json.prettyAt] using gives_array_nil
      | cons j js =>
          have hitems := givesItems_prettyItems level (ih j List.mem_cons_self (level + 1))
            fun i hi => ih i (List.mem_cons_of_mem j hi) (level + 1)
          have harray := gives_array (blank_newLine (level + 1)) hitems
          simpa [Json.prettyAt] using harray
  | @object levels members h ih =>
      cases members with
      | nil => simpa [Json.prettyAt] using gives_object_nil
      | cons m ms =>
          have hmembers := givesMembers_prettyMembers level (k := m.1)
            (ih m List.mem_cons_self (level + 1))
            fun i hi => ih i (List.mem_cons_of_mem m hi) (level + 1)
          have hobject := gives_object (blank_newLine (level + 1)) hmembers
          simpa [Json.prettyAt] using hobject

/-- A text that gives a legible value is parsed as its node. -/
theorem parse?_of_gives {text : String} {j : Json} (hgives : Gives text.toList j)
    (hj : j.Legible deepest) : parse? text = some (.ofJson j) := by
  have hvalue := hgives.value (text.toList.length + 1) [] (Nat.le_succ _)
    (Text.stops_nil isNumberTail)
  rw [List.append_nil] at hvalue
  simp [parse?, hvalue, skipSpace, Node.prune_ofJson hj]

/-- Both written forms of a legible value are parsed as its node. -/
theorem parse?_written {j : Json} (hj : j.Legible deepest) :
    parse? j.compact = some (.ofJson j) ∧ parse? j.pretty = some (.ofJson j) :=
  ⟨parse?_of_gives (gives_compact hj) hj, parse?_of_gives (gives_prettyAt hj 0) hj⟩

end JsonText

end ServiceModel
