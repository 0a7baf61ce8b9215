import ServiceModel.Proofs.Mixin
import ServiceModel.Proofs.Text.Split

/-!
What composition is going to do.  Its steps are one for each mixin with enabled methods, and one for each
enabled method and each service of the model; a service is offered the methods in the order of their
mixins and names.
-/

namespace ServiceModel.Composition

/-! ### Enabled methods -/

/-- A configuration declares a mixin beside an API of its own, and has an HTTP rule for a method of it. -/
structure Ruled (c : ServiceConfig) (m : Mixin) (name : String) : Prop where
  own : ∃ api ∈ c.apiNames, isMixinApi api = false
  declared : ∃ api ∈ c.apiNames, selectorOf api = m.service
  rule : ∃ r ∈ c.httpRules, r.selector = m.service ++ "." ++ name
  plain : '.' ∉ name.toList

/-- Some method of the services of a model starts an operation. -/
def StartsOperations (a : Api) : Prop :=
  ∃ id ∈ a.services, ∃ s, a.table.service? id = some s ∧
    ∃ n ∈ s.methods, ∃ m, a.table.method? n = some m ∧ m.isLongRunning = true

/-- A method of a mixin that goes to every service: one that the configuration has a rule for, or the
one that polls operations if some are started. -/
def Enables (a : Api) (config : Option ServiceConfig) (m : Mixin) (name : String) : Prop :=
  (∃ c, config = some c ∧ Ruled c m name) ∨
    m = .operations ∧ name = pollingMethod ∧ StartsOperations a

variable {a : Api} {config : Option ServiceConfig} {m m' : Mixin} {serviceId name name' : String}

theorem needsOperations_iff : needsOperations a = true ↔ StartsOperations a := by
  simp only [needsOperations, List.any_eq_true, Api.serviceList, Api.methodList, List.mem_filterMap]
  constructor
  · rintro ⟨s, ⟨id, hid, hs⟩, n, ⟨k, hk, hn⟩, hlong⟩
    exact ⟨id, hid, s, hs, k, hk, n, hn, hlong⟩
  · rintro ⟨id, hid, s, hs, k, hk, n, hn, hlong⟩
    exact ⟨s, ⟨id, hid, hs⟩, n, ⟨k, hk, hn⟩, hlong⟩

theorem service_inj (h : m.service = m'.service) : m = m' := by
  cases m <;> cases m' <;> first | rfl | (simp [Mixin.service] at h)

theorem ofService?_eq_some_iff : Mixin.ofService? name = some m ↔ selectorOf name = m.service := by
  rw [Mixin.ofService?]
  constructor
  · intro h
    have hservice := List.find?_some h
    exact (eq_of_beq hservice).symm
  · intro h
    cases hfind : Mixin.all.find? fun m => m.service == selectorOf name with
    | none => simpa [h] using List.find?_eq_none.1 hfind m (Mixin.mem_all m)
    | some n =>
        have hservice := List.find?_some hfind
        rw [service_inj ((eq_of_beq hservice).trans h)]

theorem mem_declared_iff {c : ServiceConfig} : m ∈ declared c ↔
    (∃ api ∈ c.apiNames, isMixinApi api = false) ∧ ∃ api ∈ c.apiNames, selectorOf api = m.service := by
  have hown : c.primaryApi?.isSome = true ↔ ∃ api ∈ c.apiNames, isMixinApi api = false := by
    simp [ServiceConfig.primaryApi?, List.find?_isSome]
  rw [declared, ← hown]
  split
  next h => simp only [h, true_and, List.mem_filterMap, ofService?_eq_some_iff]
  next h => simp [h]

theorem mem_ruledMethods_iff {c : ServiceConfig} : name ∈ ruledMethods c m ↔
    (∃ r ∈ c.httpRules, r.selector = m.service ++ "." ++ name) ∧ '.' ∉ name.toList := by
  rw [ruledMethods, List.mem_filterMap]
  constructor
  · rintro ⟨r, hr, h⟩
    split at h
    next service method hcut =>
      split at h
      next hservice =>
        cases h
        obtain ⟨hselector, hplain⟩ := Text.splitLast?_dot_eq_some_iff.1 hcut
        exact ⟨⟨r, hr, hservice ▸ hselector⟩, hplain⟩
      · cases h
    · cases h
  · rintro ⟨⟨r, hr, hselector⟩, hplain⟩
    refine ⟨r, hr, ?_⟩
    rw [Text.splitLast?_dot_eq_some_iff.2 ⟨hselector, hplain⟩]
    exact if_pos rfl

theorem mem_ofRules_iff {c : ServiceConfig} :
    name ∈ (if (declared c).contains m then NameSet.ofList (ruledMethods c m) else .empty) ↔
      Ruled c m name := by
  split
  next hdeclared =>
    obtain ⟨hown, hdeclared⟩ := mem_declared_iff.1 (List.contains_iff_mem.1 hdeclared)
    rw [NameSet.mem_ofList, mem_ruledMethods_iff]
    exact ⟨fun ⟨hrule, hplain⟩ => ⟨hown, hdeclared, hrule, hplain⟩, fun h => ⟨h.rule, h.plain⟩⟩
  next hdeclared =>
    refine iff_of_false List.not_mem_nil fun h => hdeclared (List.contains_iff_mem.2 ?_)
    exact mem_declared_iff.2 ⟨h.own, h.declared⟩

theorem mem_enabledMethods_iff : name ∈ enabledMethods a config m ↔ Enables a config m name := by
  have hpolled : ∀ s : NameSet,
      name ∈ (if m = .operations ∧ needsOperations a then s.insert pollingMethod else s) ↔
        name ∈ s ∨ m = .operations ∧ name = pollingMethod ∧ StartsOperations a := by
    intro s
    split
    next h =>
      rw [NameSet.mem_insert, or_comm]
      simp only [h.1, needsOperations_iff.1 h.2, true_and, and_true]
    next h =>
      refine (or_iff_left ?_).symm
      rintro ⟨hm, -, hstarts⟩
      exact h ⟨hm, needsOperations_iff.2 hstarts⟩
  cases config with
  | none => exact (hpolled .empty).trans (or_congr_left (iff_of_false List.not_mem_nil nofun))
  | some c =>
      refine (hpolled _).trans (or_congr_left (mem_ofRules_iff.trans ⟨fun h => ⟨c, rfl, h⟩, ?_⟩))
      rintro ⟨c', heq, h⟩
      cases heq
      exact h

theorem Enables.plain (h : Enables a config m name) : '.' ∉ name.toList := by
  rcases h with ⟨c, -, hruled⟩ | ⟨-, rfl, -⟩
  · exact hruled.plain
  · decide

/-! ### Steps -/

theorem mem_enabled_iff {names : NameSet} : (m, names) ∈ enabled a config ↔
    names = enabledMethods a config m ∧ ∃ name, name ∈ names := by
  have hnames : names.names.isEmpty = false ↔ ∃ name, name ∈ names := by
    rw [List.isEmpty_eq_false_iff_exists_mem]
    rfl
  simp only [enabled, List.mem_filter, List.mem_map, Mixin.mem_all, true_and, Prod.mk.injEq,
    Bool.not_eq_true', hnames]
  exact and_congr_left fun _ => ⟨fun ⟨_, hm, heq⟩ => hm ▸ heq.symm, fun heq => ⟨m, rfl, heq.symm⟩⟩

theorem load_mem_actions_iff : .load m ∈ actions a config ↔ ∃ name, Enables a config m name := by
  rw [actions, List.mem_flatMap]
  constructor
  · rintro ⟨⟨n, names⟩, he, h⟩
    obtain ⟨rfl, name, hname⟩ := mem_enabled_iff.1 he
    rcases List.mem_cons.1 h with h | h
    · cases h
      exact ⟨name, mem_enabledMethods_iff.1 hname⟩
    · simp at h
  · rintro ⟨name, hname⟩
    exact ⟨(m, enabledMethods a config m),
      mem_enabled_iff.2 ⟨rfl, name, mem_enabledMethods_iff.2 hname⟩, List.mem_cons_self⟩

theorem add_mem_actions_iff : .add m serviceId name ∈ actions a config ↔
    serviceId ∈ targets a ∧ Enables a config m name := by
  rw [actions, List.mem_flatMap]
  constructor
  · rintro ⟨⟨n, names⟩, he, h⟩
    obtain ⟨rfl, -⟩ := mem_enabled_iff.1 he
    obtain ⟨id, hid, k, hk, heq⟩ : ∃ id ∈ targets a, ∃ k ∈ (enabledMethods a config n).names,
        Action.add n id k = .add m serviceId name := by simpa using h
    cases heq
    exact ⟨hid, mem_enabledMethods_iff.1 hk⟩
  · rintro ⟨hid, hname⟩
    have hmem := mem_enabledMethods_iff.2 hname
    refine ⟨(m, enabledMethods a config m), mem_enabled_iff.2 ⟨rfl, name, hmem⟩,
      List.mem_cons_of_mem _ ?_⟩
    exact List.mem_flatMap.2 ⟨serviceId, hid, List.mem_map_of_mem hmem⟩

/-! ### The order of the steps -/

/-- A method of a mixin goes to a service after those of earlier mixins, and after those of its own
mixin with earlier names. -/
def Precedes (p q : Mixin × String) : Prop :=
  p.1.service < q.1.service ∨ p.1 = q.1 ∧ p.2 < q.2

theorem precedes_trichotomy (p q : Mixin × String) : Precedes p q ∨ p = q ∨ Precedes q p := by
  by_cases hservice : p.1 = q.1
  · rcases Std.lt_trichotomy p.2 q.2 with hlt | heq | hlt
    · exact Or.inl (Or.inr ⟨hservice, hlt⟩)
    · exact Or.inr (Or.inl (Prod.ext hservice heq))
    · exact Or.inr (Or.inr (Or.inr ⟨hservice.symm, hlt⟩))
  · rcases Std.lt_trichotomy p.1.service q.1.service with hlt | heq | hlt
    · exact Or.inl (Or.inl hlt)
    · exact absurd (service_inj heq) hservice
    · exact Or.inr (Or.inr (Or.inl hlt))

/-- A step that has to be taken before another: a mixin is loaded before its methods are added, and a
service is offered methods in their order. -/
def GoesBefore : Action → Action → Prop
  | .load m, .add n _ _ => m = n
  | .add m id name, .add m' id' name' => id = id' ∧ Precedes (m, name) (m', name')
  | _, _ => False

/-- Where an element of a concatenation stands. -/
theorem exists_split_of_flatMap {α β : Type} {f : α → List β} {xs : List α} {before after : List β}
    {y : β} (h : xs.flatMap f = before ++ y :: after) :
    ∃ xs₁ x xs₂ ys₁ ys₂, xs = xs₁ ++ x :: xs₂ ∧ f x = ys₁ ++ y :: ys₂ ∧
      before = xs₁.flatMap f ++ ys₁ := by
  induction xs generalizing before with
  | nil => simp at h
  | cons x xs ih =>
      have hrest : ∀ front, before = f x ++ front → xs.flatMap f = front ++ y :: after →
          ∃ xs₁ z xs₂ ys₁ ys₂, x :: xs = xs₁ ++ z :: xs₂ ∧ f z = ys₁ ++ y :: ys₂ ∧
            before = xs₁.flatMap f ++ ys₁ := by
        rintro front rfl hfront
        obtain ⟨xs₁, z, xs₂, ys₁, ys₂, rfl, hz, rfl⟩ := ih hfront
        exact ⟨x :: xs₁, z, xs₂, ys₁, ys₂, rfl, hz, by rw [List.flatMap_cons, List.append_assoc]⟩
      rw [List.flatMap_cons] at h
      rcases List.append_eq_append_iff.1 h with ⟨front, hbefore, hfront⟩ | ⟨back, hx, hback⟩
      · exact hrest front hbefore hfront
      · cases back with
        | nil => exact hrest [] (by simpa using hx.symm) hback.symm
        | cons z back =>
            cases hback
            exact ⟨[], x, xs, before, back, rfl, hx, rfl⟩

/-- In an ascending arrangement, what is less than an element stands in front of it. -/
theorem mem_front_of_pairwise {α : Type} {r : α → α → Prop} (hr : ∀ x y, r x y → ¬ r y x)
    {xs ys : List α} {x y : α} (h : (xs ++ x :: ys).Pairwise r) (hy : y ∈ xs ++ x :: ys)
    (hlt : r y x) : y ∈ xs := by
  obtain ⟨-, hxs, -⟩ := List.pairwise_append.1 h
  rcases List.mem_append.1 hy with hy | hy
  · exact hy
  · rcases List.mem_cons.1 hy with rfl | hy
    · exact absurd hlt (hr y y hlt)
    · exact absurd hlt (hr x y ((List.pairwise_cons.1 hxs).1 y hy))

theorem pairwise_enabled (a : Api) (config : Option ServiceConfig) :
    (enabled a config).Pairwise fun e e' => e.1.service < e'.1.service := by
  have hall : Mixin.all.Pairwise fun m m' => m.service < m'.service := by decide
  exact List.Pairwise.filter _ (List.pairwise_map.2 hall)

/-- Whatever has to be done before a step is done in front of it. -/
theorem goesBefore_actions {before after : List Action} {x y : Action}
    (h : actions a config = before ++ x :: after) (hy : y ∈ actions a config)
    (hyx : GoesBefore y x) : y ∈ before := by
  cases x with
  | load m => cases y <;> exact absurd hyx id
  | add m serviceId name =>
      obtain ⟨es₁, ⟨n, names⟩, es₂, xs₁, xs₂, henabled, hsteps, rfl⟩ := exists_split_of_flatMap h
      obtain ⟨rfl, -⟩ := mem_enabled_iff.1 (henabled ▸ List.mem_append_right _ List.mem_cons_self)
      -- The step is one of its mixin: behind the step that loads the mixin, and in the round of its
      -- service behind the methods with earlier names.
      obtain ⟨steps, rfl, hround⟩ : ∃ steps, xs₁ = .load n :: steps ∧
          ((targets a).flatMap fun id => (enabledMethods a config n).names.map fun k => .add n id k) =
            steps ++ .add m serviceId name :: xs₂ := by
        cases xs₁ with
        | nil => cases hsteps
        | cons z steps =>
            obtain ⟨rfl, hround⟩ := List.cons.inj hsteps
            exact ⟨steps, rfl, hround⟩
      obtain ⟨ids₁, id, ids₂, ys₁, ys₂, -, hmap, rfl⟩ := exists_split_of_flatMap hround
      obtain ⟨names₁, rest, hsplit, rfl, hrest⟩ := List.map_eq_append_iff.1 hmap
      obtain ⟨k, names₂, rfl, hk, -⟩ := List.map_eq_cons_iff.1 hrest
      cases hk
      cases y with
      | load m' =>
          cases hyx
          exact List.mem_append_right _ List.mem_cons_self
      | add m' serviceId' name' =>
          obtain ⟨rfl, hprecedes⟩ := hyx
          obtain ⟨htarget, henables⟩ := add_mem_actions_iff.1 hy
          have hmem := mem_enabledMethods_iff.2 henables
          rcases hprecedes with hlt | ⟨heq, hlt⟩
          · have hfront : (m', enabledMethods a config m') ∈ es₁ := by
              refine mem_front_of_pairwise (fun _ _ => Std.not_gt_of_lt)
                (henabled ▸ pairwise_enabled a config) (henabled ▸ ?_) hlt
              exact mem_enabled_iff.2 ⟨rfl, name', hmem⟩
            refine List.mem_append_left _ (List.mem_flatMap.2 ⟨_, hfront, List.mem_cons_of_mem _ ?_⟩)
            exact List.mem_flatMap.2 ⟨serviceId', htarget, List.mem_map_of_mem hmem⟩
          · cases heq
            have hascending := (enabledMethods a config m).ascending
            rw [hsplit] at hascending
            change name' ∈ (enabledMethods a config m).names at hmem
            rw [hsplit] at hmem
            have hfront := mem_front_of_pairwise (fun _ _ => Std.not_gt_of_lt) hascending hmem hlt
            refine List.mem_append_right _ (List.mem_cons_of_mem _ (List.mem_append_right _ ?_))
            exact List.mem_map_of_mem hfront

end ServiceModel.Composition
