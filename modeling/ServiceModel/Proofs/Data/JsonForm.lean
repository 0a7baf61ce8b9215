import ServiceModel.Model.Read
import ServiceModel.Proofs.Data.JsonText

/-!
JSON forms: ways to write the values of a type that a reader of the type undoes.  Forms of lists,
options, names and records are put together from the forms of their parts, and with them the number
of levels that a text has to be read down to.
-/

namespace ServiceModel

/-- The reader gives each value back: from its JSON value, and from both of its written forms. -/
def ReadsBack {α : Type} (write : α → Json) (read : Node → Read α) : Prop :=
  ∀ a : α, (Node.ofJson (write a)).read? 0 read = some a ∧
    JsonText.read? read (write a).compact = some a ∧
    JsonText.read? read (write a).pretty = some a

/-- A form of at most so many levels in which values are written and read back. -/
structure JsonForm {α : Type} (levels : Nat) (write : α → Json) (read : Node → Read α) :
    Prop where
  back (a : α) : read (.ofJson (write a)) = pure a
  legible (a : α) : (write a).Legible levels

namespace JsonForm

variable {α : Type} {levels : Nat} {write : α → Json} {read : Node → Read α}

theorem readsBack (h : JsonForm levels write read) (hlevels : levels ≤ JsonText.deepest) :
    ReadsBack write read := by
  intro a
  have hback : (Node.ofJson (write a)).read? 0 read = some a := by
    rw [Node.read?, h.back]
    rfl
  obtain ⟨hcompact, hpretty⟩ := JsonText.parse?_written ((h.legible a).mono hlevels)
  refine ⟨hback, ?_, ?_⟩
  · rw [JsonText.read?, hcompact, Option.bind_some, hback]
  · rw [JsonText.read?, hpretty, Option.bind_some, hback]

theorem mono (h : JsonForm levels write read) {levels' : Nat} (hle : levels ≤ levels') :
    JsonForm levels' write read :=
  ⟨h.back, fun a => (h.legible a).mono hle⟩

/-! ### Values without fields -/

@[simp] theorem text?_ofJson (s : String) : (Node.ofJson (.string s)).text? = pure s := rfl

@[simp] theorem flag?_ofJson (b : Bool) : (Node.ofJson (.bool b)).flag? = pure b := rfl

theorem text : JsonForm 0 .string Node.text? := ⟨fun _ => rfl, .string⟩

theorem int32 : JsonForm 0 (fun i : Int32 => .int i.toInt) Node.int32? := by
  constructor
  · intro i
    have hrange : -Int.pow 2 31 ≤ i.toInt ∧ i.toInt < Int.pow 2 31 :=
      ⟨Int32.le_toInt i, Int32.toInt_lt i⟩
    simp only [Json.int, Node.ofJson, Node.int32?, Node.reach, pure_bind, if_pos hrange,
      Int32.ofInt_toInt]
  · intro i
    refine .int ?_ ?_
    · exact Int.le_trans (by decide) (Int32.le_toInt i)
    · exact Int.lt_trans (Int32.toInt_lt i) (by decide)

theorem list (h : JsonForm levels write read) :
    JsonForm (levels + 1) (fun as : List α => .array (as.map write)) (Node.list? read) := by
  constructor
  · intro as
    have hmap : (as.map fun a => Node.ofJson (write a)).mapM read = pure as := by
      induction as with
      | nil => rfl
      | cons a as ih => rw [List.map_cons, List.mapM_cons, h.back, pure_bind, ih, pure_bind]
    simpa [Node.ofJson, Node.list?, Node.items?, Node.reach, Node.bare, Function.comp_def]
      using hmap
  · intro as
    refine .array fun j hj => ?_
    obtain ⟨a, -, rfl⟩ := List.mem_map.1 hj
    exact h.legible a

theorem texts : JsonForm 1 .strings Node.texts? := list text

theorem option (h : JsonForm levels write read) (hgiven : ∀ a, write a ≠ .null) :
    JsonForm levels (.option write) (Node.optional? read) := by
  constructor
  · rintro (_ | a)
    · rfl
    · have hback := h.back a
      have hne := hgiven a
      simp only [Json.option]
      cases hj : write a with
      | null => exact absurd hj hne
      | _ =>
          rw [hj] at hback
          simp [Node.ofJson] at hback ⊢
          simp [Node.optional?, Node.reach, hback]
  · rintro (_ | a)
    · exact .null
    · exact h.legible a

/-- A name for each value. -/
theorem choice (name : α → String) {choices : List (String × α)}
    (h : ∀ a, Keyed.get? (name a) choices = some a) :
    JsonForm 0 (fun a => .string (name a)) (Node.choice? choices) := by
  constructor
  · intro a
    simp [Node.ofJson, Node.choice?, Node.variant?, Node.reach, h, Read.given]
  · intro a
    exact .string (name a)

end JsonForm

/-! ### Records -/

namespace Node

/-- A name that none of the first fields is spelled with is the name of a later one. -/
theorem fieldIndex_append {name : String} {front back : Spellings}
    (h : ∀ names ∈ front, name ∉ names) :
    fieldIndex name (front ++ back) = (fieldIndex name back).map (· + front.length) := by
  induction front with
  | nil => simp
  | cons names front ih =>
      have hnames : ¬names.contains name = true := by
        simpa using h names List.mem_cons_self
      rw [List.cons_append, fieldIndex, if_neg hnames,
        ih fun others hothers => h others (List.mem_cons_of_mem names hothers), Option.map_map]
      simp [Function.comp_def, Nat.add_assoc]

theorem give_append (front back : Fields) (n : Node) :
    give front.length n (front ++ none :: back) = some (front ++ some n :: back) := by
  simp [give]

theorem keyIndex?_string (spellings : Spellings) (name : String) :
    keyIndex? spellings (.string name) = pure (fieldIndex name spellings) :=
  rfl

theorem gatherFields_give {spellings : Spellings} {fields fields' : Fields} {i : Nat}
    {key value : Node} (members : List (Node × Node))
    (hkey : keyIndex? spellings key = pure (some i)) (hgive : give i value fields = some fields') :
    gatherFields spellings fields ((key, value) :: members) =
      gatherFields spellings fields' members := by
  simp [gatherFields, hkey, hgive, Read.given]

/-- Members named like the fields, in their order, fill one field after the other. -/
theorem gatherFields_of_names {spellings : Spellings} (given rest : List (String × Json))
    (hnames : spellings = (given ++ rest).map fun m => [m.1]) (hdistinct : spellings.Nodup) :
    gatherFields spellings
        ((given.map fun m => some (ofJson m.2)) ++ rest.map fun _ => none)
        (rest.map fun m => (.string m.1, ofJson m.2)) =
      pure ((given ++ rest).map fun m => some (ofJson m.2)) := by
  induction rest generalizing given with
  | nil => simp [gatherFields]
  | cons m rest ih =>
      have hindex : fieldIndex m.1 spellings = some given.length := by
        rw [hnames, List.map_append, fieldIndex_append]
        · simp [fieldIndex]
        · rw [hnames, List.map_append, List.nodup_append] at hdistinct
          intro names hmem hname
          obtain ⟨m', hm', rfl⟩ := List.mem_map.1 hmem
          refine hdistinct.2.2 _ hmem [m.1] (by simp) ?_
          rw [List.mem_singleton.1 hname]
      have hgive := give_append (given.map fun m => some (ofJson m.2)) (rest.map fun _ => none)
        (ofJson m.2)
      rw [List.length_map] at hgive
      have hrest := ih (given ++ [m]) (by simpa using hnames)
      simp only [List.map_append, List.map_cons, List.map_nil, List.append_assoc,
        List.singleton_append] at hrest ⊢
      rw [gatherFields_give _ (by rw [keyIndex?_string, hindex]) hgive, hrest]

/-- All fields of a record are there when each is a member of its own, in their order. -/
theorem allFields?_object {spellings : Spellings} {members : List (String × Json)}
    (hnames : spellings = members.map fun m => [m.1]) (hdistinct : spellings.Nodup) :
    (ofJson (.object members)).allFields? spellings =
      pure (members.map fun m => some (ofJson m.2)) := by
  have hgather := gatherFields_of_names [] members hnames hdistinct
  have hempty : (spellings.map fun _ => none : Fields) = members.map fun _ => none := by
    rw [hnames, List.map_map]
    rfl
  simp only [ofJson, ofJsonMembers_eq_map, allFields?, reach, bare, pure_bind, fields?, members?,
    hempty]
  exact hgather

end Node

namespace JsonForm

variable {α : Type} {levels : Nat} {write : α → Json} {read : Node → Read α}

theorem record {members : α → List (String × Json)} {spellings : Node.Spellings}
    {build : Node.Fields → Read α} (hwrite : ∀ a, write a = .object (members a))
    (hread : ∀ n, read n = n.allFields? spellings >>= build)
    (hnames : ∀ a, spellings = (members a).map fun m => [m.1]) (hdistinct : spellings.Nodup)
    (hbuild : ∀ a, build ((members a).map fun m => some (.ofJson m.2)) = pure a)
    (hlegible : ∀ a, ∀ m ∈ members a, m.2.Legible levels) : JsonForm (levels + 1) write read := by
  constructor
  · intro a
    rw [hread, hwrite, Node.allFields?_object (hnames a) hdistinct, pure_bind, hbuild]
  · intro a
    rw [hwrite]
    exact .object (hlegible a)

end JsonForm

namespace Node.Fields

variable {α : Type} (read : Node → Read α) (n : Node) (given : Option Node) (f : Fields) (i : Nat)

@[simp] theorem need_zero : need (some n :: f) 0 read = read n := rfl

@[simp] theorem need_succ : need (given :: f) (i + 1) read = need f i read := rfl

@[simp] theorem maybe_zero : maybe (some n :: f) 0 read = n.optional? read := rfl

@[simp] theorem maybe_succ : maybe (given :: f) (i + 1) read = maybe f i read := rfl

end Node.Fields

end ServiceModel
