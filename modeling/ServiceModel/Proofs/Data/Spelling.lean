import ServiceModel.Model.Names
import ServiceModel.Proofs.Data.JsonForm

/-!
Spellings of members.  A schema says which members the records of each kind have; each may be spelled
with underscores or in lower camel case.  A reader that knows both spellings of every member, and reads
alike what the members hold, does not notice when some of them are spelled the other way.
-/

namespace ServiceModel

variable {K : Type}

/-! ### Schemas -/

/-- What a member holds: a value of its own, a record of some kind, or a list of such records. -/
inductive Shape (K : Type) where
  | plain
  | record (kind : K)
  | list (kind : K)
  deriving DecidableEq

/-- The spellings of a member that has a name with underscores. -/
def spellingsOf (name : String) : List String :=
  if lowerCamel name = name then [name] else [lowerCamel name, name]

/-- The members of the records of each kind, under their names with underscores and in the order in
which they are declared. -/
structure Schema (K : Type) where
  members : K → List (String × Shape K)
  /-- No two members have a spelling in common. -/
  distinct : ∀ k, ((members k).flatMap fun m => spellingsOf m.1).Nodup

namespace Schema

variable (S : Schema K)

def spellings (k : K) : Node.Spellings := (S.members k).map fun m => spellingsOf m.1

/-- Each spelling of a member names its position. -/
theorem fieldIndex_spellings {k : K} {m : String × Shape K} {front back : List (String × Shape K)}
    (hmembers : S.members k = front ++ m :: back) {name : String} (hname : name ∈ spellingsOf m.1) :
    Node.fieldIndex name (S.spellings k) = some front.length := by
  have hdistinct := S.distinct k
  rw [hmembers, List.flatMap_append, List.nodup_append] at hdistinct
  rw [spellings, hmembers, List.map_append, Node.fieldIndex_append, List.map_cons, Node.fieldIndex,
    if_pos (by simpa using hname)]
  · simp
  · intro names hnames hother
    obtain ⟨m', hm', rfl⟩ := List.mem_map.1 hnames
    refine hdistinct.2.2 name (List.mem_flatMap_of_mem hm' hother) name ?_ rfl
    exact List.mem_flatMap_of_mem List.mem_cons_self hname

end Schema

namespace Node

/-! ### Respelling -/

/-- The second node comes from the first by spelling known members in other ways, in the records that
the shape leads to.  Members under texts may change places, as they do where they are kept in the order
of their keys. -/
inductive Respells (S : Schema K) : Shape K → Node → Node → Prop where
  | refl {shape : Shape K} (n : Node) : Respells S shape n n
  | trans {shape : Shape K} {n n' n'' : Node} (h : Respells S shape n n')
      (h' : Respells S shape n' n'') : Respells S shape n n''
  /-- A member is spelled in another way. -/
  | member {k : K} {m : String × Shape K} (hm : m ∈ S.members k) {name name' : String}
      (hname : name ∈ spellingsOf m.1) (hname' : name' ∈ spellingsOf m.1) (value : Node)
      (front back : List (Node × Node)) :
      Respells S (.record k) (.record (front ++ (.string name, value) :: back))
        (.record (front ++ (.string name', value) :: back))
  /-- Two members change places. -/
  | swap {k : K} (name name' : String) (value value' : Node) (front back : List (Node × Node)) :
      Respells S (.record k)
        (.record (front ++ (.string name, value) :: (.string name', value') :: back))
        (.record (front ++ (.string name', value') :: (.string name, value) :: back))
  /-- What a member holds is respelled. -/
  | inside {k : K} {m : String × Shape K} (hm : m ∈ S.members k) {name : String}
      (hname : name ∈ spellingsOf m.1) {value value' : Node} (h : Respells S m.2 value value')
      (front back : List (Node × Node)) :
      Respells S (.record k) (.record (front ++ (.string name, value) :: back))
        (.record (front ++ (.string name, value') :: back))
  /-- A field that is given by position is respelled. -/
  | field {k : K} {m : String × Shape K} {front : List Node}
      (hm : (S.members k)[front.length]? = some m) {value value' : Node}
      (h : Respells S m.2 value value') (back : List Node) :
      Respells S (.record k) (.array (front ++ value :: back)) (.array (front ++ value' :: back))
  /-- An item of a list is respelled. -/
  | item {k : K} {value value' : Node} (h : Respells S (.record k) value value')
      (front back : List Node) :
      Respells S (.list k) (.array (front ++ value :: back)) (.array (front ++ value' :: back))

variable {S : Schema K} {k : K} {n n' : Node}

/-- Nothing in a value of its own is respelled. -/
theorem Respells.eq_of_plain (h : Respells S .plain n n') : n = n' := by
  generalize hshape : Shape.plain = shape at h
  induction h with
  | refl n => rfl
  | trans h h' ih ih' => exact (ih hshape).trans (ih' hshape)
  | _ => cases hshape

theorem heightMembers_append (ms ms' : List (Node × Node)) :
    heightMembers (ms ++ ms') = max (heightMembers ms) (heightMembers ms') := by
  induction ms with
  | nil => simp [heightMembers]
  | cons m ms ih => simp only [List.cons_append, heightMembers, ih, Nat.max_assoc]

theorem heightItems_append (ns ns' : List Node) :
    heightItems (ns ++ ns') = max (heightItems ns) (heightItems ns') := by
  induction ns with
  | nil => simp [heightItems]
  | cons n ns ih => simp only [List.cons_append, heightItems, ih, Nat.max_assoc]

theorem Respells.height_eq {shape : Shape K} (h : Respells S shape n n') : n.height = n'.height := by
  induction h with
  | refl n => rfl
  | trans h h' ih ih' => exact ih.trans ih'
  | member hm hname hname' value front back =>
      simp only [height, heightMembers_append, heightMembers]
  | swap name name' value value' front back =>
      simp only [height, heightMembers_append, heightMembers]
      rw [Nat.max_left_comm (max 1 value.height)]
  | inside hm hname h front back ih => simp only [height, heightMembers_append, heightMembers, ih]
  | field hm h back ih => simp only [height, heightItems_append, heightItems, ih]
  | item h front back ih => simp only [height, heightItems_append, heightItems, ih]

end Node

/-! ### Related steps -/

namespace Read

variable {α β γ δ : Type}

/-- Two steps that fail together, or else follow equally many aliases and have related results. -/
def Related (R : α → β → Prop) (x : Read α) (y : Read β) : Prop :=
  ∀ s, Option.Rel (fun p q => R p.1 q.1 ∧ p.2 = q.2) (x.run s) (y.run s)

theorem Related.refl {R : α → α → Prop} (hR : ∀ a, R a a) (x : Read α) : Related R x x := by
  intro s
  cases x.run s with
  | none => exact .none
  | some p => exact .some ⟨hR p.1, rfl⟩

theorem Related.pure {R : α → β → Prop} {a : α} {b : β} (h : R a b) :
    Related R (Pure.pure a) (Pure.pure b) :=
  fun _ => .some ⟨h, rfl⟩

theorem Related.given {R : α → β → Prop} {a : Option α} {b : Option β} (h : Option.Rel R a b) :
    Related R (Read.given a) (Read.given b) := by
  cases h with
  | none => exact fun _ => .none
  | some h => exact .pure h

theorem Related.bind {R : α → β → Prop} {Q : γ → δ → Prop} {x : Read α} {y : Read β}
    {f : α → Read γ} {g : β → Read δ} (h : Related R x y)
    (hfg : ∀ a b, R a b → Related Q (f a) (g b)) : Related Q (x >>= f) (y >>= g) := by
  intro s
  rw [StateT.run_bind, StateT.run_bind]
  have hs := h s
  generalize x.run s = p at hs ⊢
  generalize y.run s = q at hs ⊢
  cases hs with
  | none => exact .none
  | some hpq =>
      simp only [Option.bind_eq_bind, Option.bind_some, ← hpq.2]
      exact hfg _ _ hpq.1 _

theorem Related.eq {x y : Read α} (h : Related Eq x y) : x = y := by
  refine StateT.ext fun s => ?_
  have hs := h s
  generalize x.run s = p at hs ⊢
  generalize y.run s = q at hs ⊢
  cases hs with
  | none => rfl
  | some hpq => rw [Prod.ext hpq.1 hpq.2]

theorem given_bind_given (a : Option α) (f : α → Option β) :
    (Read.given a >>= fun a => Read.given (f a)) = Read.given (a.bind f) := by
  cases a <;> rfl

end Read

namespace Node

/-! ### Fields -/

/-- The fields with a value put in the one at a position, if there is one. -/
def fill (value : Node) (f : Fields) : Option Nat → Option Fields
  | none => some f
  | some i => give i value f

theorem give_eq_some_iff {i : Nat} {n : Node} {f g : Fields} :
    give i n f = some g ↔ f[i]? = some none ∧ g = f.set i (some n) := by
  unfold give
  split
  next heq => simp [heq, eq_comm]
  next hne => exact ⟨nofun, fun h => absurd h.1 hne⟩

theorem give_bind_give {i j : Nat} {a b : Node} {f g : Fields} :
    (give i a f).bind (give j b) = some g ↔
      i ≠ j ∧ f[i]? = some none ∧ f[j]? = some none ∧
        g = (f.set i (some a)).set j (some b) := by
  simp only [Option.bind_eq_some_iff, give_eq_some_iff]
  constructor
  · rintro ⟨_, ⟨hi, rfl⟩, hj, rfl⟩
    have hij : i ≠ j := by
      rintro rfl
      simp [List.getElem?_set_self (List.getElem?_eq_some_iff.1 hi).1] at hj
    rw [List.getElem?_set_ne hij] at hj
    exact ⟨hij, hi, hj, rfl⟩
  · rintro ⟨hij, hi, hj, rfl⟩
    exact ⟨_, ⟨hi, rfl⟩, by rwa [List.getElem?_set_ne hij], rfl⟩

theorem give_comm (i j : Nat) (a b : Node) (f : Fields) :
    (give i a f).bind (give j b) = (give j b f).bind (give i a) := by
  refine Option.ext fun g => ?_
  rw [give_bind_give, give_bind_give]
  constructor
  · rintro ⟨hij, hi, hj, rfl⟩
    exact ⟨hij.symm, hj, hi, List.set_comm _ _ hij⟩
  · rintro ⟨hij, hj, hi, rfl⟩
    exact ⟨hij.symm, hi, hj, List.set_comm _ _ hij⟩

theorem fill_comm (i j : Option Nat) (a b : Node) (f : Fields) :
    (fill a f i).bind (fill b · j) = (fill b f j).bind (fill a · i) := by
  cases i with
  | none =>
      cases j with
      | none => rfl
      | some j => exact (Option.bind_fun_some _).symm
  | some i =>
      cases j with
      | none => exact Option.bind_fun_some _
      | some j => exact give_comm i j a b f

theorem gatherFields_string (spellings : Spellings) (f : Fields) (name : String) (value : Node)
    (ms : List (Node × Node)) :
    gatherFields spellings f ((.string name, value) :: ms) =
      Read.given (fill value f (fieldIndex name spellings)) >>= fun f =>
        gatherFields spellings f ms := by
  rw [gatherFields, keyIndex?_string, pure_bind]
  cases fieldIndex name spellings <;> rfl

theorem gatherFields_append (spellings : Spellings) (f : Fields) (ms ms' : List (Node × Node)) :
    gatherFields spellings f (ms ++ ms') =
      gatherFields spellings f ms >>= fun f => gatherFields spellings f ms' := by
  induction ms generalizing f with
  | nil => rw [List.nil_append, gatherFields, pure_bind]
  | cons m ms ih =>
      rw [List.cons_append, gatherFields, gatherFields, bind_assoc]
      refine congrArg _ (funext fun index => ?_)
      cases index with
      | none => exact ih f
      | some i => simp only [bind_assoc, ih]

/-- Two members under texts are taken in in either order. -/
theorem gatherFields_swap (spellings : Spellings) (f : Fields) (name name' : String)
    (value value' : Node) (ms : List (Node × Node)) :
    gatherFields spellings f ((.string name, value) :: (.string name', value') :: ms) =
      gatherFields spellings f ((.string name', value') :: (.string name, value) :: ms) := by
  simp only [gatherFields_string, ← bind_assoc, Read.given_bind_given, fill_comm]

/-- Fields of a record that hold the same up to respelling. -/
def Fields.Agree (S : Schema K) (k : K) (f f' : Fields) : Prop :=
  ∀ i : Nat, f[i]? = f'[i]? ∨ ∃ m value value', (S.members k)[i]? = some m ∧
    Respells S m.2 value value' ∧ f[i]? = some (some value) ∧ f'[i]? = some (some value')

variable {S : Schema K} {k : K} {f f' : Fields} {n n' : Node}

theorem Fields.Agree.refl (f : Fields) : Fields.Agree S k f f := fun _ => Or.inl rfl

theorem Fields.Agree.give (h : Fields.Agree S k f f') {i : Nat} {value value' : Node}
    (hvalue : value = value' ∨
      ∃ m, (S.members k)[i]? = some m ∧ Respells S m.2 value value') :
    Option.Rel (Fields.Agree S k) (Node.give i value f) (Node.give i value' f') := by
  have hfree : f[i]? = some none ↔ f'[i]? = some none := by
    rcases h i with hi | ⟨m, v, v', -, -, hi, hi'⟩
    · rw [hi]
    · simp [hi, hi']
  by_cases hnone : f[i]? = some none
  · have hgiven : Node.give i value f = some (f.set i (some value)) :=
      give_eq_some_iff.2 ⟨hnone, rfl⟩
    have hgiven' : Node.give i value' f' = some (f'.set i (some value')) :=
      give_eq_some_iff.2 ⟨hfree.1 hnone, rfl⟩
    rw [hgiven, hgiven']
    refine .some fun j => ?_
    by_cases hij : i = j
    · subst hij
      rw [List.getElem?_set_self (List.getElem?_eq_some_iff.1 hnone).1,
        List.getElem?_set_self (List.getElem?_eq_some_iff.1 (hfree.1 hnone)).1]
      rcases hvalue with rfl | ⟨m, hm, hvalue⟩
      · exact Or.inl rfl
      · exact Or.inr ⟨m, value, value', hm, hvalue, rfl, rfl⟩
    · rw [List.getElem?_set_ne hij, List.getElem?_set_ne hij]
      exact h j
  · have hgive : ∀ (n : Node) (g : Fields), g[i]? ≠ some none → Node.give i n g = none :=
      fun n g hg => Option.eq_none_iff_forall_ne_some.2 fun g' hg' =>
        hg (give_eq_some_iff.1 hg').1
    rw [hgive value f hnone, hgive value' f' (mt hfree.2 hnone)]
    exact .none

/-- Agreeing fields take the same members in. -/
theorem Fields.Agree.gatherFields (h : Fields.Agree S k f f') (spellings : Spellings)
    (ms : List (Node × Node)) :
    Read.Related (Fields.Agree S k) (Node.gatherFields spellings f ms)
      (Node.gatherFields spellings f' ms) := by
  induction ms generalizing f f' with
  | nil => exact .pure h
  | cons m ms ih =>
      rw [Node.gatherFields, Node.gatherFields]
      refine (Read.Related.refl (R := Eq) (fun _ => rfl) _).bind fun index _ heq => ?_
      subst heq
      cases index with
      | none => exact ih h
      | some i => exact (Read.Related.given (h.give (Or.inl rfl))).bind fun _ _ hgive => ih hgive

/-- A member and its respelling are taken in alike. -/
theorem gatherFields_respells {m : String × Shape K} (hm : m ∈ S.members k) {name name' : String}
    (hname : name ∈ spellingsOf m.1) (hname' : name' ∈ spellingsOf m.1) {value value' : Node}
    (hvalue : Respells S m.2 value value') (f : Fields) (front back : List (Node × Node)) :
    Read.Related (Fields.Agree S k)
      (gatherFields (S.spellings k) f (front ++ (.string name, value) :: back))
      (gatherFields (S.spellings k) f (front ++ (.string name', value') :: back)) := by
  obtain ⟨before, after, hmembers⟩ := List.append_of_mem hm
  rw [gatherFields_append, gatherFields_append]
  refine (Read.Related.refl (R := Eq) (fun _ => rfl) _).bind fun f _ heq => ?_
  subst heq
  rw [gatherFields_string, gatherFields_string, S.fieldIndex_spellings hmembers hname,
    S.fieldIndex_spellings hmembers hname']
  refine (Read.Related.given ((Fields.Agree.refl f).give (Or.inr ⟨m, ?_, hvalue⟩))).bind
    fun _ _ hgive => hgive.gatherFields _ back
  rw [hmembers, List.getElem?_append_right (Nat.le_refl _), Nat.sub_self, List.getElem?_cons_zero]

theorem Fields.Agree.of_respells {m : String × Shape K} {value value' : Node}
    (hvalue : Respells S m.2 value value') {front : Fields}
    (hm : (S.members k)[front.length]? = some m) (back : Fields) :
    Fields.Agree S k (front ++ some value :: back) (front ++ some value' :: back) := by
  intro i
  rcases Nat.lt_trichotomy i front.length with hlt | rfl | hgt
  · left
    rw [List.getElem?_append_left hlt, List.getElem?_append_left hlt]
  · exact Or.inr ⟨m, value, value', hm, hvalue, by simp, by simp⟩
  · left
    obtain ⟨j, rfl⟩ := Nat.exists_eq_add_of_lt hgt
    rw [List.getElem?_append_right (by omega), List.getElem?_append_right (by omega),
      show front.length + j + 1 - front.length = j + 1 by omega, List.getElem?_cons_succ,
      List.getElem?_cons_succ]

theorem fields?_array (spellings : Spellings) (items : List Node) :
    (Node.array items).fields? spellings =
      if items.length ≤ spellings.length then
        pure (items.map some ++ List.replicate (spellings.length - items.length) none)
      else failure :=
  rfl

/-- What is made of the fields of a record is made of a respelling of it. -/
theorem Respells.bind_fields? {α : Type} {spellings : Spellings} {build : Fields → Read α}
    (h : Respells S (.record k) n n') (hspellings : spellings = S.spellings k)
    (hbuild : ∀ f f', Fields.Agree S k f f' → build f = build f') :
    n.fields? spellings >>= build = n'.fields? spellings >>= build := by
  subst hspellings
  have hrelated : ∀ {x y : Read Fields}, Read.Related (Fields.Agree S k) x y →
      x >>= build = y >>= build := fun hxy =>
    (hxy.bind fun f f' hagree => by
      rw [hbuild f f' hagree]
      exact .refl (fun _ => rfl) _).eq
  generalize hshape : Shape.record k = shape at h
  induction h with
  | refl n => rfl
  | trans h h' ih ih' => exact (ih hshape).trans (ih' hshape)
  | member hm hname hname' value front back =>
      cases hshape
      exact hrelated (gatherFields_respells hm hname hname' (.refl value) _ front back)
  | swap name name' value value' front back =>
      cases hshape
      have hgather : ∀ f, gatherFields (S.spellings k)
          f (front ++ (.string name, value) :: (.string name', value') :: back) =
          gatherFields (S.spellings k)
            f (front ++ (.string name', value') :: (.string name, value) :: back) := fun f => by
        rw [gatherFields_append, gatherFields_append]
        exact congrArg _ (funext fun f => gatherFields_swap _ f name name' value value' back)
      exact congrArg (· >>= build) (hgather _)
  | inside hm hname h front back =>
      cases hshape
      exact hrelated (gatherFields_respells hm hname hname h _ front back)
  | @field k m front hm value value' h back =>
      cases hshape
      have hm' : (S.members k)[(front.map some).length]? = some m := by rwa [List.length_map]
      have hlength : (front ++ value' :: back).length = (front ++ value :: back).length := by simp
      rw [fields?_array, fields?_array, hlength]
      split
      · simp only [pure_bind, List.map_append, List.map_cons, List.append_assoc, List.cons_append]
        exact hbuild _ _ (.of_respells h hm' _)
      · rfl
  | item h front back => cases hshape

/-! ### Readers of fields -/

section Readers

variable {α : Type} {read : Node → Read α}

theorem Respells.list? (h : Respells S (.list k) n n')
    (hread : ∀ {n n'}, Respells S (.record k) n n' → read n = read n') :
    n.list? read = n'.list? read := by
  generalize hshape : Shape.list k = shape at h
  induction h with
  | refl n => rfl
  | trans h h' ih ih' => exact (ih hshape).trans (ih' hshape)
  | item h front back =>
      cases hshape
      simp only [Node.list?, items?, reach, bare, pure_bind, List.mapM_append, List.mapM_cons,
        hread h]
  | _ => cases hshape

theorem Respells.optional? (h : Respells S (.record k) n n')
    (hread : ∀ {n n'}, Respells S (.record k) n n' → read n = read n') :
    n.optional? read = n'.optional? read := by
  have hgiven : ∀ {n n' : Node}, read n = read n' →
      (read n >>= fun a => (pure (some a) : Read (Option α))) = read n' >>= fun a => pure (some a) :=
    fun heq => congrArg (· >>= fun a => pure (some a)) heq
  generalize hshape : Shape.record k = shape at h
  induction h with
  | refl n => rfl
  | trans h h' ih ih' => exact (ih hshape).trans (ih' hshape)
  | member hm hname hname' value front back =>
      cases hshape
      exact hgiven (hread (.member hm hname hname' value front back))
  | swap name name' value value' front back =>
      cases hshape
      exact hgiven (hread (.swap name name' value value' front back))
  | inside hm hname h front back =>
      cases hshape
      exact hgiven (hread (.inside hm hname h front back))
  | field hm h back =>
      cases hshape
      exact hgiven (hread (.field hm h back))
  | item h front back => cases hshape

/-- Records that hold nothing but values of their own agree only with themselves. -/
theorem Fields.Agree.eq_of_plain (h : Fields.Agree S k f f')
    (hplain : ∀ m ∈ S.members k, m.2 = .plain) : f = f' := by
  refine List.ext_getElem? fun i => ?_
  rcases h i with hi | ⟨m, value, value', hm, hvalue, hi, hi'⟩
  · exact hi
  · rw [hplain m (List.mem_of_getElem? hm)] at hvalue
    rw [hi, hi', hvalue.eq_of_plain]

theorem Fields.Agree.orElse (h : Fields.Agree S k f f') {i : Nat} {m : String × Shape K}
    (hm : (S.members k)[i]? = some m)
    (hread : ∀ {n n'}, Respells S m.2 n n' → read n = read n') (default : α) :
    f.orElse i read default = f'.orElse i read default := by
  rcases h i with hi | ⟨m', value, value', hm', hvalue, hi, hi'⟩
  · rw [Fields.orElse, Fields.orElse, Fields.node?, Fields.node?, hi]
  · cases hm.symm.trans hm'
    rw [Fields.orElse, Fields.orElse, Fields.node?, Fields.node?, hi, hi']
    exact hread hvalue

theorem Fields.Agree.maybe (h : Fields.Agree S k f f') {i : Nat} {m : String × Shape K}
    (hm : (S.members k)[i]? = some m)
    (hread : ∀ {n n'}, Respells S m.2 n n' → n.optional? read = n'.optional? read) :
    f.maybe i read = f'.maybe i read := by
  have horElse : f.orElse i (Node.optional? read) none = f'.orElse i (Node.optional? read) none :=
    h.orElse hm hread none
  exact horElse

theorem Fields.Agree.orElse_plain (h : Fields.Agree S k f f') {i : Nat} {name : String}
    (hm : (S.members k)[i]? = some (name, .plain)) (read : Node → Read α) (default : α) :
    f.orElse i read default = f'.orElse i read default :=
  h.orElse hm (fun hn => congrArg read hn.eq_of_plain) default

theorem Fields.Agree.maybe_plain (h : Fields.Agree S k f f') {i : Nat} {name : String}
    (hm : (S.members k)[i]? = some (name, .plain)) (read : Node → Read α) :
    f.maybe i read = f'.maybe i read :=
  h.maybe hm fun hn => congrArg (Node.optional? read) hn.eq_of_plain

end Readers

theorem Respells.bind_fields?_of_plain {α : Type} {spellings : Spellings} {build : Fields → Read α}
    (h : Respells S (.record k) n n') (hspellings : spellings = S.spellings k)
    (hplain : ∀ m ∈ S.members k, m.2 = .plain) :
    n.fields? spellings >>= build = n'.fields? spellings >>= build :=
  h.bind_fields? hspellings fun _ _ hagree => by rw [hagree.eq_of_plain hplain]

end Node

/-! ### Texts -/

/-- The second text writes a respelling of what the first writes, or neither is JSON. -/
def JsonText.Respells (S : Schema K) (shape : Shape K) (text text' : String) : Prop :=
  Option.Rel (Node.Respells S shape) (parse? text) (parse? text')

theorem JsonText.Respells.read?_eq {S : Schema K} {shape : Shape K} {text text' : String}
    (h : Respells S shape text text') {α : Type} {read : Node → Read α}
    (hread : ∀ {n n'}, Node.Respells S shape n n' → read n = read n') :
    read? read text = read? read text' := by
  unfold Respells at h
  unfold read?
  generalize parse? text = n at h ⊢
  generalize parse? text' = n' at h ⊢
  cases h with
  | none => rfl
  | some h => rw [Option.bind_some, Option.bind_some, Node.read?, Node.read?, hread h]

/-- Respelled values are written as respelled texts. -/
theorem JsonText.respells_compact {S : Schema K} {shape : Shape K} {j j' : Json}
    (hj : j.Legible deepest) (hj' : j'.Legible deepest)
    (h : Node.Respells S shape (.ofJson j) (.ofJson j')) : Respells S shape j.compact j'.compact := by
  rw [Respells, (parse?_written hj).1, (parse?_written hj').1]
  exact .some h

end ServiceModel
