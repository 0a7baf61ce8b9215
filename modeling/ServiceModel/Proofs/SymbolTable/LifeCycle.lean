import ServiceModel.Model.TableCall
import ServiceModel.Proofs.Growth

/-!
The life of a symbol table, from the empty table or the well-known entities, under any calls in any
order.  Every entry stands under its own ID.  A refused call leaves no trace.  Messages, enums and
services stay once they are in, and a method is changed or taken out by calls for its own ID alone.
A frozen table stays what it is.
-/

namespace ServiceModel

/-! ### Catalogs of entities -/

namespace Catalog

variable {α : Type} {id : α → String} {c : Catalog α}

/-- Every entity stands under its own ID. -/
def Filed (id : α → String) (c : Catalog α) : Prop := ∀ name a, c.get? name = some a → id a = name

theorem filed_empty : (empty : Catalog α).Filed id := nofun

theorem Filed.insert (h : c.Filed id) (a : α) : (c.insert (id a) a).Filed id := by
  intro name b hb
  rw [get?_insert] at hb
  split at hb
  next hname =>
    cases hb
    exact hname.symm
  next => exact h name b hb

theorem Filed.modify (h : c.Filed id) (name : String) (edit : Edit id) :
    (c.modify name edit.change).Filed id := by
  intro other b hb
  rw [get?_modify] at hb
  split at hb
  next =>
    obtain ⟨a, ha, rfl⟩ := Option.map_eq_some_iff.1 hb
    rw [edit.keeps]
    exact h other a ha
  next => exact h other b hb

theorem Filed.erase (h : c.Filed id) (name : String) : (c.erase name).Filed id := by
  intro other b hb
  rw [get?_erase] at hb
  split at hb
  next => cases hb
  next => exact h other b hb

theorem filed_foldl_insert {as : List α} (h : c.Filed id) :
    ((as.map fun a => (id a, a)).foldl (fun c e => c.insert e.1 e.2) c).Filed id := by
  induction as generalizing c with
  | nil => exact h
  | cons a as ih => exact ih (h.insert a)

end Catalog

/-- Every entity of a table stands under its own ID. -/
structure SymbolTable.Filed (t : SymbolTable) : Prop where
  messages : t.messages.Filed Message.id
  enums : t.enums.Filed Enum.id
  services : t.services.Filed Service.id
  methods : t.methods.Filed Method.id

theorem SymbolTable.filed_empty : empty.Filed :=
  ⟨Catalog.filed_empty, Catalog.filed_empty, Catalog.filed_empty, Catalog.filed_empty⟩

theorem SymbolTable.filed_wellKnown : wellKnown.Filed where
  messages := by
    let entries := wellKnownMessages.map fun name =>
      ({ name, id := wellKnownId name, package := wellKnownPackage } : Message)
    have h : (Catalog.ofList (entries.map fun m => (m.id, m))).Filed Message.id :=
      Catalog.filed_foldl_insert Catalog.filed_empty
    rw [List.map_map] at h
    exact h
  enums := by
    let nullValue : Enum :=
      { name := "NullValue", id := wellKnownId "NullValue", package := wellKnownPackage }
    have h : (Catalog.empty.insert nullValue.id nullValue).Filed Enum.id :=
      Catalog.filed_empty.insert nullValue
    exact h
  services := Catalog.filed_empty
  methods := Catalog.filed_empty

namespace TableCall

/-! ### Calls in terms of operations -/

/-- An operation that may be refused, as a call: refused, it leaves the table as it is. -/
def ofInsertion (t : SymbolTable) :
    Except ModelError SymbolTable → Except ModelError TableAnswer × SymbolTable
  | .ok t' => (.ok .done, t')
  | .error e => (.error e, t)

/-- An edit, as a call: where nothing is found the table stays as it is. -/
def ofEdit (t : SymbolTable) :
    Option SymbolTable → Except ModelError TableAnswer × SymbolTable
  | some t' => (.ok (.edited true), t')
  | none => (.ok (.edited false), t)

/-- What a call comes to in terms of the operations of tables. -/
def outcome (t : SymbolTable) : TableCall → Except ModelError TableAnswer × SymbolTable
  | insertMessage m => ofInsertion t (t.insertMessage m)
  | insertEnum e => ofInsertion t (t.insertEnum e)
  | insertService s => ofInsertion t (t.insertService s)
  | insertMethod m => ofInsertion t (t.insertMethod m)
  | removeMethod id =>
      match t.removeMethod id with
      | .ok (found, t') => (.ok (.removed found), t')
      | .error e => (.error e, t)
  | editMessage id edit => ofEdit t (t.editMessage? id edit.change)
  | editEnum id edit => ofEdit t (t.editEnum? id edit.change)
  | editService id edit => ofEdit t (t.editService? id edit.change)
  | editMethod id edit => ofEdit t (t.editMethod? id edit.change)
  | freeze => (.ok .done, t.freeze)

theorem run_refuseIf {α : Type} (bad : SymbolTable → Bool) (e : ModelError) (rest : Work α)
    (t : SymbolTable) :
    (refuseIf bad e >>= fun _ => rest).run.run t =
      if bad t then (.error e, t) else rest.run.run t := by
  have hget : (refuseIf bad e >>= fun _ => rest).run.run t =
      ((if bad t then throw e else pure ()) >>= fun _ => rest : Work α).run.run t := rfl
  rw [hget]
  cases bad t <;> rfl

theorem run_register (id : String) (put : SymbolTable → SymbolTable) (t : SymbolTable) :
    (register id put).run.run t =
      ofInsertion t (if t.frozen then .error (.frozen id) else .ok (put t)) := by
  rw [register, checkOpen, run_refuseIf]
  split <;> rfl

theorem run_editFound (find : SymbolTable → Bool) (change : SymbolTable → SymbolTable)
    (t : SymbolTable) :
    (editFound find change).run.run t =
      ofEdit t (if !t.frozen && find t then some (change t) else none) := by
  have hget : (editFound find change).run.run t =
      (if t.frozen then pure (.edited false)
        else if !find t then pure (.edited false)
        else do
          modify change
          return .edited true : Work TableAnswer).run.run t := rfl
  rw [hget]
  cases t.frozen <;> cases find t <;> rfl

/-- Working on the table in place comes to the same as the operations. -/
theorem on_eq_outcome (c : TableCall) (t : SymbolTable) : c.on t = c.outcome t := by
  cases c with
  | insertMessage m => exact run_register ..
  | insertEnum e => exact run_register ..
  | insertService s => exact run_register ..
  | insertMethod m =>
      rw [on, perform, checkOpen, run_refuseIf, run_refuseIf, outcome, SymbolTable.insertMethod]
      split
      · rfl
      · split <;> rfl
  | removeMethod id =>
      rw [on, perform, checkOpen, run_refuseIf, outcome, SymbolTable.removeMethod]
      split <;> rfl
  | editMessage id edit => exact run_editFound ..
  | editEnum id edit => exact run_editFound ..
  | editService id edit => exact run_editFound ..
  | editMethod id edit => exact run_editFound ..
  | freeze => rfl

variable {t : SymbolTable} {c : TableCall}

/-! ### One call -/

/-- What a call answers on a frozen table. -/
def frozenAnswer : TableCall → Except ModelError TableAnswer
  | insertMessage m => .error (.frozen m.id)
  | insertEnum e => .error (.frozen e.id)
  | insertService s => .error (.frozen s.id)
  | insertMethod m => .error (.frozen m.id)
  | removeMethod id => .error (.frozen id)
  | editMessage .. | editEnum .. | editService .. | editMethod .. => .ok (.edited false)
  | freeze => .ok .done

theorem on_of_frozen (h : t.frozen = true) (c : TableCall) : c.on t = (c.frozenAnswer, t) := by
  cases t
  cases h
  rw [on_eq_outcome]
  cases c <;> rfl

/-- What a call makes of an open table. -/
def effect (t : SymbolTable) : TableCall → SymbolTable
  | insertMessage m => { t with messages := t.messages.insert m.id m }
  | insertEnum e => { t with enums := t.enums.insert e.id e }
  | insertService s => { t with services := t.services.insert s.id s }
  | insertMethod m =>
      if t.methods.contains m.id then t else { t with methods := t.methods.insert m.id m }
  | removeMethod id => { t with methods := t.methods.erase id }
  | editMessage id edit => { t with messages := t.messages.modify id edit.change }
  | editEnum id edit => { t with enums := t.enums.modify id edit.change }
  | editService id edit => { t with services := t.services.modify id edit.change }
  | editMethod id edit => { t with methods := t.methods.modify id edit.change }
  | freeze => t.freeze

theorem snd_ofEdit {t' : SymbolTable} {found : Bool} (h : found = false → t' = t) :
    (ofEdit t (if found then some t' else none)).2 = t' := by
  cases found with
  | true => rfl
  | false => exact (h rfl).symm

theorem after_of_open (h : t.frozen = false) (c : TableCall) : c.after t = c.effect t := by
  obtain ⟨messages, enums, services, methods, frozen⟩ := t
  cases h
  rw [after, on_eq_outcome]
  cases c with
  | insertMessage m => rfl
  | insertEnum e => rfl
  | insertService s => rfl
  | insertMethod m =>
      rw [outcome, SymbolTable.insertMethod, effect]
      cases methods.contains m.id <;> rfl
  | removeMethod id => rfl
  | editMessage id edit =>
      exact snd_ofEdit fun hfound => by rw [Catalog.modify_of_missing hfound]
  | editEnum id edit =>
      exact snd_ofEdit fun hfound => by rw [Catalog.modify_of_missing hfound]
  | editService id edit =>
      exact snd_ofEdit fun hfound => by rw [Catalog.modify_of_missing hfound]
  | editMethod id edit =>
      exact snd_ofEdit fun hfound => by rw [Catalog.modify_of_missing hfound]
  | freeze => rfl

/-- A call is made on a frozen table, which it leaves as it is, or has its effect on an open one. -/
theorem after_cases (c : TableCall) (t : SymbolTable) :
    t.frozen = true ∧ c.after t = t ∨ t.frozen = false ∧ c.after t = c.effect t := by
  cases h : t.frozen with
  | true => exact Or.inl ⟨rfl, congrArg Prod.snd (on_of_frozen h c)⟩
  | false => exact Or.inr ⟨rfl, after_of_open h c⟩

theorem snd_ofInsertion {r : Except ModelError SymbolTable} {e : ModelError}
    (h : (ofInsertion t r).1 = .error e) : (ofInsertion t r).2 = t := by
  cases r with
  | ok t' => cases h
  | error e' => rfl

theorem fst_ofEdit_ne_error {found : Option SymbolTable} {e : ModelError} :
    (ofEdit t found).1 ≠ .error e := by
  cases found <;> nofun

/-- A refused call leaves the table exactly as it was. -/
theorem after_of_refused {e : ModelError} (h : c.answer t = .error e) : c.after t = t := by
  rw [answer, on_eq_outcome] at h
  rw [after, on_eq_outcome]
  cases c with
  | insertMessage m => exact snd_ofInsertion h
  | insertEnum e => exact snd_ofInsertion h
  | insertService s => exact snd_ofInsertion h
  | insertMethod m => exact snd_ofInsertion h
  | removeMethod id =>
      rw [outcome] at h ⊢
      cases hremove : t.removeMethod id with
      | ok removed => rw [hremove] at h; cases h
      | error e' => rfl
  | editMessage id edit => exact absurd h fst_ofEdit_ne_error
  | editEnum id edit => exact absurd h fst_ofEdit_ne_error
  | editService id edit => exact absurd h fst_ofEdit_ne_error
  | editMethod id edit => exact absurd h fst_ofEdit_ne_error
  | freeze => cases h

theorem after_filed (h : t.Filed) (c : TableCall) : (c.after t).Filed := by
  rcases after_cases c t with ⟨-, hafter⟩ | ⟨-, hafter⟩ <;> rw [hafter]
  · exact h
  · cases c with
    | insertMessage m => exact { h with messages := h.messages.insert m }
    | insertEnum e => exact { h with enums := h.enums.insert e }
    | insertService s => exact { h with services := h.services.insert s }
    | insertMethod m =>
        rw [effect]
        split
        · exact h
        · exact { h with methods := h.methods.insert m }
    | removeMethod id => exact { h with methods := h.methods.erase id }
    | editMessage id edit => exact { h with messages := h.messages.modify id edit }
    | editEnum id edit => exact { h with enums := h.enums.modify id edit }
    | editService id edit => exact { h with services := h.services.modify id edit }
    | editMethod id edit => exact { h with methods := h.methods.modify id edit }
    | freeze => exact { h with }

theorem extends_after (c : TableCall) (t : SymbolTable) : t.Extends (c.after t) := by
  have hself := SymbolTable.Extends.refl t
  rcases after_cases c t with ⟨-, hafter⟩ | ⟨-, hafter⟩ <;> rw [hafter]
  · exact hself
  · cases c with
    | insertMessage m =>
        exact { hself with messages := fun id hid => Catalog.contains_insert.2 (Or.inr hid) }
    | insertEnum e =>
        exact { hself with enums := fun id hid => Catalog.contains_insert.2 (Or.inr hid) }
    | insertService s =>
        exact { hself with services := fun id hid => Catalog.contains_insert.2 (Or.inr hid) }
    | insertMethod m =>
        rw [effect]
        split
        · exact hself
        · exact { hself with }
    | removeMethod id => exact { hself with }
    | editMessage id edit =>
        exact { hself with messages := fun _ hid => Catalog.contains_modify.trans hid }
    | editEnum id edit =>
        exact { hself with enums := fun _ hid => Catalog.contains_modify.trans hid }
    | editService id edit =>
        exact { hself with services := fun _ hid => Catalog.contains_modify.trans hid }
    | editMethod id edit => exact { hself with }
    | freeze => exact { hself with }

/-- What a call makes of a method that is there: a removal of its ID takes it out, an edit of its ID
changes it, and any other call leaves it. -/
theorem method?_after {id : String} {m : Method} (hm : t.method? id = some m) (c : TableCall) :
    (c.after t).method? id = some m ∨
      c = .removeMethod id ∧ (c.after t).method? id = none ∨
      ∃ edit, c = .editMethod id edit ∧ (c.after t).method? id = some (edit.change m) := by
  rcases after_cases c t with ⟨-, hafter⟩ | ⟨-, hafter⟩ <;> rw [hafter]
  · exact Or.inl hm
  · cases c with
    | insertMessage n => exact Or.inl hm
    | insertEnum e => exact Or.inl hm
    | insertService s => exact Or.inl hm
    | insertMethod n =>
        rw [effect]
        split
        · exact Or.inl hm
        next hfree =>
          have hne : id ≠ n.id := by
            rintro rfl
            exact hfree (Catalog.contains_of_get? hm)
          refine Or.inl ?_
          rw [SymbolTable.method?, Catalog.get?_insert, if_neg hne]
          exact hm
    | removeMethod other =>
        rw [effect, SymbolTable.method?, Catalog.get?_erase]
        split
        next heq => exact Or.inr (Or.inl ⟨by rw [heq], rfl⟩)
        next => exact Or.inl hm
    | editMessage other edit => exact Or.inl hm
    | editEnum other edit => exact Or.inl hm
    | editService other edit => exact Or.inl hm
    | editMethod other edit =>
        rw [effect, SymbolTable.method?, Catalog.get?_modify]
        split
        next heq => exact Or.inr (Or.inr ⟨edit, by rw [heq], Option.map_eq_some_iff.2 ⟨m, hm, rfl⟩⟩)
        next => exact Or.inl hm
    | freeze => exact Or.inl hm

/-! ### Runs of calls -/

variable {calls : List TableCall} {id : String} {m : Method}

theorem run_filed (h : t.Filed) (calls : List TableCall) : (run calls t).Filed := by
  induction calls generalizing t with
  | nil => exact h
  | cons c calls ih => exact ih (after_filed h c)

theorem extends_run (calls : List TableCall) (t : SymbolTable) : t.Extends (run calls t) := by
  induction calls generalizing t with
  | nil => exact .refl t
  | cons c calls ih => exact (extends_after c t).trans (ih (c.after t))

theorem run_of_frozen (h : t.frozen = true) (calls : List TableCall) : run calls t = t := by
  induction calls with
  | nil => rfl
  | cons c calls ih =>
      have hafter : c.after t = t := congrArg Prod.snd (on_of_frozen h c)
      rw [run, List.foldl_cons, hafter]
      exact ih

/-- Removes or edits the method under an ID. -/
def Touches (id : String) : TableCall → Prop
  | removeMethod other => other = id
  | editMethod other _ => other = id
  | _ => False

/-- A method that no call touches is there at the end as it was. -/
theorem run_untouched (hm : t.method? id = some m) (h : ∀ c ∈ calls, ¬ c.Touches id) :
    (run calls t).method? id = some m := by
  induction calls generalizing t with
  | nil => exact hm
  | cons c calls ih =>
      obtain ⟨hc, hcalls⟩ := List.forall_mem_cons.1 h
      rcases method?_after hm c with hkept | ⟨rfl, -⟩ | ⟨edit, rfl, -⟩
      · exact ih hkept hcalls
      · exact absurd rfl hc
      · exact absurd rfl hc

/-- A method that is no longer there was removed. -/
theorem mem_of_run_removed (hm : t.method? id = some m) (h : (run calls t).method? id = none) :
    removeMethod id ∈ calls := by
  induction calls generalizing t m with
  | nil => exact absurd (hm.symm.trans h) nofun
  | cons c calls ih =>
      rcases method?_after hm c with hkept | ⟨rfl, -⟩ | ⟨edit, -, hedited⟩
      · exact List.mem_cons_of_mem _ (ih hkept h)
      · exact List.mem_cons_self
      · exact List.mem_cons_of_mem _ (ih hedited h)

/-! ### The life cycle -/

/-- An open table takes every entity, in place of an earlier one with its ID; but a method only where
there is none. -/
structure Takes (t : SymbolTable) : Prop where
  message : ∀ m, (insertMessage m).answer t = .ok .done ∧
    ((insertMessage m).after t).message? m.id = some m
  enum : ∀ e, (insertEnum e).answer t = .ok .done ∧ ((insertEnum e).after t).enum? e.id = some e
  service : ∀ s, (insertService s).answer t = .ok .done ∧
    ((insertService s).after t).service? s.id = some s
  method : ∀ m, t.methods.contains m.id = false →
    (insertMethod m).answer t = .ok .done ∧ ((insertMethod m).after t).method? m.id = some m
  duplicate : ∀ m, t.methods.contains m.id = true →
    (insertMethod m).answer t = .error (.duplicate m.id)

theorem takes_of_open (h : t.frozen = false) : Takes t := by
  obtain ⟨messages, enums, services, methods, frozen⟩ := t
  cases h
  have hinsert (m : Method) :=
    on_eq_outcome (insertMethod m) ⟨messages, enums, services, methods, false⟩
  refine ⟨fun m => ⟨rfl, Catalog.get?_insert_self ..⟩, fun e => ⟨rfl, Catalog.get?_insert_self ..⟩,
    fun s => ⟨rfl, Catalog.get?_insert_self ..⟩, fun m hm => ?_, fun m hm => ?_⟩
  · rw [answer, after, hinsert, outcome, SymbolTable.insertMethod, hm]
    exact ⟨rfl, Catalog.get?_insert_self ..⟩
  · rw [answer, hinsert, outcome, SymbolTable.insertMethod, hm]
    rfl

/-- What holds of a table at any time of its life, and of all that may still be done to it. -/
structure LifeCycle (t : SymbolTable) : Prop where
  filed : t.Filed
  refused : ∀ (c : TableCall) e, c.answer t = .error e → c.after t = t
  takes : t.frozen = false → Takes t
  /-- A call leaves a method, unless it removes or edits the method under its ID. -/
  method : ∀ id m, t.method? id = some m → ∀ c : TableCall,
    (c.after t).method? id = some m ∨
      c = removeMethod id ∧ (c.after t).method? id = none ∨
      ∃ edit, c = editMethod id edit ∧ (c.after t).method? id = some (edit.change m)
  untouched : ∀ id m, t.method? id = some m → ∀ calls : List TableCall,
    (∀ c ∈ calls, ¬ c.Touches id) → (run calls t).method? id = some m
  removed : ∀ id m, t.method? id = some m → ∀ calls,
    (run calls t).method? id = none → removeMethod id ∈ calls
  /-- Messages, enums and services stay. -/
  stays : ∀ calls, t.Extends (run calls t)
  freezes : freeze.on t = (.ok .done, { t with frozen := true })
  /-- A frozen table stays what it is, takes nothing in or out, and shows nothing to edit. -/
  frozen : t.frozen = true → ∀ calls, run calls t = t ∧ ∀ c ∈ calls, c.answer t = c.frozenAnswer

theorem run_lifeCycle {start : SymbolTable} (h : start = .empty ∨ start = .wellKnown)
    (calls : List TableCall) : LifeCycle (run calls start) where
  filed := by
    have hstart : start.Filed := by
      rcases h with rfl | rfl
      · exact SymbolTable.filed_empty
      · exact SymbolTable.filed_wellKnown
    exact run_filed hstart calls
  refused := fun _ _ => after_of_refused
  takes := takes_of_open
  method := fun _ _ hm c => method?_after hm c
  untouched := fun _ _ hm _ => run_untouched hm
  removed := fun _ _ hm _ => mem_of_run_removed hm
  stays := fun more => extends_run more _
  freezes := rfl
  frozen := fun hfrozen more =>
    ⟨run_of_frozen hfrozen more, fun c _ => congrArg Prod.fst (on_of_frozen hfrozen c)⟩

/-- A method that is inserted twice, a freeze, and a removal that comes too late. -/
theorem run_lifeCycle_frozen :
    ∃ m t, t = run [insertMethod m, insertMethod { m with deprecated := true }, freeze] .wellKnown ∧
      LifeCycle t ∧ t.method? m.id = some m ∧
        (removeMethod m.id).answer t = .error (.frozen m.id) ∧
          run [removeMethod m.id, insertService default] t = t := by
  have hlife := run_lifeCycle (Or.inr rfl) [insertMethod default,
    insertMethod { (default : Method) with deprecated := true }, freeze]
  obtain ⟨hrun, hanswers⟩ := hlife.frozen rfl [removeMethod "", insertService default]
  exact ⟨default, _, rfl, hlife, rfl, hanswers _ List.mem_cons_self, hrun⟩

end TableCall

end ServiceModel
