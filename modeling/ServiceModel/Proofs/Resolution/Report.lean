import ServiceModel.Proofs.Resolution

/-!
What the check of a model reports.  Every mention stands at a spot, and the spots have an order:
messages by ID with their fields in order, methods by ID, services by ID, then the lists of the
model.  The report has one error for each spot whose mention leads nowhere, in this order.
-/

namespace ServiceModel

/-! ### Spots -/

/-- A spot of a model where something may be mentioned. -/
inductive Spot where
  | fieldType (message : String) (place : Nat)
  | parent (message : String)
  | service (method : String)
  | input (method : String)
  | output (method : String)
  | response (method : String)
  | metadata (method : String)
  | offered (service : String) (place : Nat)
  | listedService (place : Nat)
  | listedMessage (place : Nat)
  | listedEnum (place : Nat)
  deriving DecidableEq, Repr

namespace Spot

def round : Spot → Nat
  | fieldType .. | parent _ => 0
  | service _ | input _ | output _ | response _ | metadata _ => 1
  | offered .. => 2
  | listedService _ => 3
  | listedMessage _ => 4
  | listedEnum _ => 5

def holder : Spot → String
  | fieldType id _ | parent id => id
  | service id | input id | output id | response id | metadata id => id
  | offered id _ => id
  | listedService _ | listedMessage _ | listedEnum _ => ""

def part : Spot → Nat
  | fieldType .. | service _ | offered .. => 0
  | listedService _ | listedMessage _ | listedEnum _ => 0
  | parent _ | input _ => 1
  | output _ => 2
  | response _ => 3
  | metadata _ => 4

def place : Spot → Nat
  | fieldType _ k | offered _ k | listedService k | listedMessage k | listedEnum k => k
  | _ => 0

/-- The order of the spots: by round, in a round by ID, in an entity by part and place. -/
def Before (p q : Spot) : Prop :=
  p.round < q.round ∨ p.round = q.round ∧
    (p.holder < q.holder ∨ p.holder = q.holder ∧
      (p.part < q.part ∨ p.part = q.part ∧ p.place < q.place))

theorem before_of_round {p q : Spot} (h : p.round < q.round) : p.Before q := Or.inl h

theorem before_of_holder {p q : Spot} (hround : p.round = q.round) (h : p.holder < q.holder) :
    p.Before q :=
  Or.inr ⟨hround, Or.inl h⟩

theorem before_of_part {p q : Spot} (hround : p.round = q.round) (hholder : p.holder = q.holder)
    (h : p.part < q.part) : p.Before q :=
  Or.inr ⟨hround, Or.inr ⟨hholder, Or.inl h⟩⟩

theorem before_of_place {p q : Spot} (hround : p.round = q.round) (hholder : p.holder = q.holder)
    (hpart : p.part = q.part) (h : p.place < q.place) : p.Before q :=
  Or.inr ⟨hround, Or.inr ⟨hholder, Or.inr ⟨hpart, h⟩⟩⟩

theorem not_before_self (p : Spot) : ¬ p.Before p := by
  rintro (h | ⟨-, h | ⟨-, h | ⟨-, h⟩⟩⟩)
  · exact Nat.lt_irrefl _ h
  · exact absurd h (Std.lt_irrefl (α := String))
  · exact Nat.lt_irrefl _ h
  · exact Nat.lt_irrefl _ h

end Spot

/-! ### What is mentioned at a spot -/

inductive Field.Mentions (f : Field) : Mention → Prop
  | message (h : f.wireType = .message) : Mentions f ⟨f.id, .message, f.typeId⟩
  | group (h : f.wireType = .group) : Mentions f ⟨f.id, .message, f.typeId⟩
  | enum (h : f.wireType = .enum) : Mentions f ⟨f.id, .enum, f.typeId⟩

/-- The ID is the one that the message is registered under, which need not be its own. -/
inductive Message.MentionsAt (id : String) (m : Message) : Spot → Mention → Prop
  | fieldType {k : Nat} {f : Field} {n : Mention} (hf : m.fields[k]? = some f) (hn : f.Mentions n) :
      MentionsAt id m (.fieldType id k) n
  | parent {p : String} (hp : m.parent = some p) :
      MentionsAt id m (.parent id) ⟨m.id, .message, p⟩

inductive Method.MentionsAt (id : String) (m : Method) : Spot → Mention → Prop
  | service : MentionsAt id m (.service id) ⟨m.id, .service, m.serviceId⟩
  | input : MentionsAt id m (.input id) ⟨m.id, .message, m.inputTypeId⟩
  | output : MentionsAt id m (.output id) ⟨m.id, .message, m.outputTypeId⟩
  | response {o : OperationTypes} (ho : m.operation = some o) :
      MentionsAt id m (.response id) ⟨m.id, .message, o.responseTypeId⟩
  | metadata {o : OperationTypes} (ho : m.operation = some o) :
      MentionsAt id m (.metadata id) ⟨m.id, .message, o.metadataTypeId⟩

inductive Service.MentionsAt (id : String) (s : Service) : Spot → Mention → Prop
  | offered {k : Nat} {n : String} (hn : s.methods[k]? = some n) :
      MentionsAt id s (.offered id k) ⟨s.id, .method, n⟩

inductive Api.ListsAt (a : Api) : Spot → Mention → Prop
  | service {k : Nat} {id : String} (h : a.services[k]? = some id) :
      ListsAt a (.listedService k) ⟨a.name, .service, id⟩
  | message {k : Nat} {id : String} (h : a.messages[k]? = some id) :
      ListsAt a (.listedMessage k) ⟨a.name, .message, id⟩
  | enum {k : Nat} {id : String} (h : a.enums[k]? = some id) :
      ListsAt a (.listedEnum k) ⟨a.name, .enum, id⟩

inductive Api.MentionsAt (a : Api) : Spot → Mention → Prop
  | message {id : String} {m : Message} {s : Spot} {n : Mention}
      (hm : a.table.message? id = some m) (hn : m.MentionsAt id s n) : MentionsAt a s n
  | method {id : String} {m : Method} {s : Spot} {n : Mention}
      (hm : a.table.method? id = some m) (hn : m.MentionsAt id s n) : MentionsAt a s n
  | service {id : String} {e : Service} {s : Spot} {n : Mention}
      (he : a.table.service? id = some e) (hn : e.MentionsAt id s n) : MentionsAt a s n
  | lists {s : Spot} {n : Mention} (h : a.ListsAt s n) : MentionsAt a s n

theorem Message.MentionsAt.owned {id : String} {m : Message} {s : Spot} {n : Mention}
    (h : m.MentionsAt id s n) : s.round = 0 ∧ s.holder = id := by
  cases h <;> exact ⟨rfl, rfl⟩

theorem Method.MentionsAt.owned {id : String} {m : Method} {s : Spot} {n : Mention}
    (h : m.MentionsAt id s n) : s.round = 1 ∧ s.holder = id := by
  cases h <;> exact ⟨rfl, rfl⟩

theorem Service.MentionsAt.owned {id : String} {e : Service} {s : Spot} {n : Mention}
    (h : e.MentionsAt id s n) : s.round = 2 ∧ s.holder = id := by
  cases h
  exact ⟨rfl, rfl⟩

theorem Api.ListsAt.round {a : Api} {s : Spot} {n : Mention} (h : a.ListsAt s n) : 3 ≤ s.round := by
  cases h <;> simp [Spot.round]

def SymbolTable.Has (t : SymbolTable) : EntityKind → String → Prop
  | .message, id => ∃ m, t.message? id = some m
  | .enum, id => ∃ e, t.enum? id = some e
  | .service, id => ∃ s, t.service? id = some s
  | .method, id => ∃ m, t.method? id = some m

/-- The mention at the spot leads nowhere. -/
def Api.DanglesAt (a : Api) (s : Spot) (n : Mention) : Prop :=
  a.MentionsAt s n ∧ ¬ a.table.Has n.kind n.target

theorem SymbolTable.resolves_iff {t : SymbolTable} {kind : EntityKind} {id : String} :
    t.resolves kind id = true ↔ t.Has kind id := by
  cases kind <;> exact Catalog.contains_iff

/-! ### Lists in the order of their spots -/

/-- The list has the values that a relation puts at spots: one for each spot, in ascending order. -/
def Enumerates (R : Spot → Mention → Prop) (xs : List Mention) : Prop :=
  ∃ pairs : List (Spot × Mention),
    pairs.Pairwise (fun p q => p.1.Before q.1) ∧ (∀ s n, (s, n) ∈ pairs ↔ R s n) ∧
      pairs.map Prod.snd = xs

namespace Enumerates

variable {R S : Spot → Mention → Prop} {xs ys : List Mention}

theorem congr (h : Enumerates R xs) (hiff : ∀ s n, R s n ↔ S s n) : Enumerates S xs := by
  obtain ⟨pairs, hsorted, hmem, hxs⟩ := h
  exact ⟨pairs, hsorted, fun s n => (hmem s n).trans (hiff s n), hxs⟩

theorem nil (h : ∀ s n, ¬ R s n) : Enumerates R [] :=
  ⟨[], List.Pairwise.nil, fun s n => by simpa using h s n, rfl⟩

theorem singleton {s₀ : Spot} {n₀ : Mention} (h : ∀ s n, R s n ↔ s = s₀ ∧ n = n₀) :
    Enumerates R [n₀] :=
  ⟨[(s₀, n₀)], List.pairwise_singleton _ _, fun s n => by simp [h s n], rfl⟩

theorem append (hx : Enumerates R xs) (hy : Enumerates S ys)
    (hbefore : ∀ s n s' n', R s n → S s' n' → s.Before s') :
    Enumerates (fun s n => R s n ∨ S s n) (xs ++ ys) := by
  obtain ⟨ps, hps, hpmem, rfl⟩ := hx
  obtain ⟨qs, hqs, hqmem, rfl⟩ := hy
  refine ⟨ps ++ qs, List.pairwise_append.2 ⟨hps, hqs, ?_⟩, fun s n => ?_, List.map_append⟩
  · rintro ⟨s, n⟩ hp ⟨s', n'⟩ hq
    exact hbefore s n s' n' ((hpmem s n).1 hp) ((hqmem s' n').1 hq)
  · rw [List.mem_append, hpmem, hqmem]

theorem flatMap {β : Type} {bs : List β} {f : β → List Mention} {T : β → Spot → Mention → Prop}
    (hf : ∀ b ∈ bs, Enumerates (T b) (f b))
    (hbefore : bs.Pairwise fun b c => ∀ s n s' n', T b s n → T c s' n' → s.Before s') :
    Enumerates (fun s n => ∃ b ∈ bs, T b s n) (bs.flatMap f) := by
  induction bs with
  | nil => exact nil (by simp)
  | cons b bs ih =>
      obtain ⟨hb, hbs⟩ := List.pairwise_cons.1 hbefore
      have hrest := ih (fun c hc => hf c (List.mem_cons_of_mem b hc)) hbs
      have hall := append (hf b List.mem_cons_self) hrest (by
        rintro s n s' n' hs ⟨c, hc, hs'⟩
        exact hb c hc s n s' n' hs hs')
      exact hall.congr fun s n => by simp

/-- The places of a list ascend with its positions. -/
theorem flatMap_places {β : Type} {bs : List β} {f : β → List Mention}
    {T : Nat → β → Spot → Mention → Prop} (hf : ∀ k b, Enumerates (T k b) (f b))
    (hbefore : ∀ k l b c s n s' n', k < l → T k b s n → T l c s' n' → s.Before s') :
    Enumerates (fun s n => ∃ k b, bs[k]? = some b ∧ T k b s n) (bs.flatMap f) := by
  have hzip : bs.flatMap f = bs.zipIdx.flatMap fun p => f p.1 := by
    rw [← List.flatMap_map Prod.fst f, List.zipIdx_map_fst]
  have hplaces : (bs.zipIdx.map Prod.snd).Pairwise (· < ·) := by
    rw [List.zipIdx_map_snd]
    exact List.pairwise_lt_range'
  rw [hzip]
  have h : Enumerates (fun s n => ∃ p ∈ bs.zipIdx, T p.2 p.1 s n)
      (bs.zipIdx.flatMap fun p => f p.1) :=
    flatMap (fun p _ => hf p.2 p.1)
      ((List.pairwise_map.1 hplaces).imp fun hlt s n s' n' => hbefore _ _ _ _ s n s' n' hlt)
  refine h.congr fun s n => ?_
  constructor
  · rintro ⟨⟨b, k⟩, hmem, hT⟩
    exact ⟨k, b, List.mem_zipIdx_iff_getElem?.1 hmem, hT⟩
  · rintro ⟨k, b, hget, hT⟩
    exact ⟨(b, k), List.mem_zipIdx_iff_getElem?.2 hget, hT⟩

theorem of_places (xs : List String) {spot : Nat → Spot} (mention : String → Mention)
    (hbefore : ∀ k l, k < l → (spot k).Before (spot l)) :
    Enumerates (fun s n => ∃ k x, xs[k]? = some x ∧ s = spot k ∧ n = mention x)
      (xs.map mention) := by
  rw [List.map_eq_flatMap]
  refine flatMap_places (T := fun k x s n => s = spot k ∧ n = mention x) (fun k x => ?_) ?_
  · exact singleton fun s n => Iff.rfl
  · rintro k l x y s n s' n' hlt ⟨rfl, -⟩ ⟨rfl, -⟩
    exact hbefore k l hlt

/-- The values of a catalog ascend with their names. -/
theorem flatMap_values {β : Type} {c : Catalog β} {f : β → List Mention}
    {T : String → β → Spot → Mention → Prop} {round : Nat}
    (hf : ∀ id b, Enumerates (T id b) (f b))
    (howned : ∀ id b s n, T id b s n → s.round = round ∧ s.holder = id) :
    Enumerates (fun s n => ∃ id b, c.get? id = some b ∧ T id b s n) (c.values.flatMap f) := by
  have hbefore : c.entries.Pairwise fun d e =>
      ∀ s n s' n', T d.1 d.2 s n → T e.1 e.2 s' n' → s.Before s' := by
    refine c.ascending.imp fun hlt s n s' n' hs hs' => ?_
    obtain ⟨hround, hholder⟩ := howned _ _ _ _ hs
    obtain ⟨hround', hholder'⟩ := howned _ _ _ _ hs'
    apply Spot.before_of_holder (hround.trans hround'.symm)
    rwa [hholder, hholder']
  have h : Enumerates (fun s n => ∃ e ∈ c.entries, T e.1 e.2 s n)
      (c.entries.flatMap fun e => f e.2) :=
    flatMap (fun e _ => hf e.1 e.2) hbefore
  rw [Catalog.values, List.flatMap_map]
  refine h.congr fun s n => ?_
  constructor
  · rintro ⟨⟨id, b⟩, hmem, hT⟩
    exact ⟨id, b, Catalog.mem_entries_iff.1 hmem, hT⟩
  · rintro ⟨id, b, hget, hT⟩
    exact ⟨(id, b), Catalog.mem_entries_iff.2 hget, hT⟩

theorem filter (h : Enumerates R xs) (p : Mention → Bool) :
    Enumerates (fun s n => R s n ∧ p n = true) (xs.filter p) := by
  obtain ⟨pairs, hsorted, hmem, rfl⟩ := h
  refine ⟨pairs.filter fun q => p q.2, hsorted.filter _, fun s n => ?_, ?_⟩
  · rw [List.mem_filter, hmem]
  · rw [List.filter_map]
    rfl

end Enumerates

/-! ### What is mentioned, in order -/

theorem Field.enumerates_mentions {s₀ : Spot} (f : Field) :
    Enumerates (fun s n => s = s₀ ∧ f.Mentions n) (Mention.ofField f) := by
  unfold Mention.ofField
  split
  next hw =>
    refine Enumerates.singleton fun s n => and_congr_right fun _ => ⟨?_, ?_⟩
    · rintro (_ | h | h)
      · rfl
      all_goals cases hw.symm.trans h
    · rintro rfl
      exact .message hw
  next hw =>
    refine Enumerates.singleton fun s n => and_congr_right fun _ => ⟨?_, ?_⟩
    · rintro (h | _ | h)
      · cases hw.symm.trans h
      · rfl
      · cases hw.symm.trans h
    · rintro rfl
      exact .group hw
  next hw =>
    refine Enumerates.singleton fun s n => and_congr_right fun _ => ⟨?_, ?_⟩
    · rintro (h | h | _)
      · cases hw.symm.trans h
      · cases hw.symm.trans h
      · rfl
    · rintro rfl
      exact .enum hw
  next hmessage hgroup henum =>
    refine Enumerates.nil ?_
    rintro s n ⟨-, h | h | h⟩
    · exact hmessage h
    · exact hgroup h
    · exact henum h

theorem Message.enumerates_mentions (id : String) (m : Message) :
    Enumerates (m.MentionsAt id) (Mention.ofMessage m) := by
  have hfields : Enumerates (fun s n => ∃ k f, m.fields[k]? = some f ∧
      s = .fieldType id k ∧ f.Mentions n) (m.fields.flatMap Mention.ofField) := by
    refine Enumerates.flatMap_places (T := fun k (f : Field) s n => s = .fieldType id k ∧ f.Mentions n)
      (fun k f => f.enumerates_mentions) ?_
    rintro k l f g s n s' n' hlt ⟨rfl, -⟩ ⟨rfl, -⟩
    exact Spot.before_of_place rfl rfl rfl hlt
  have hparent : Enumerates (fun s n => ∃ p, m.parent = some p ∧
      s = .parent id ∧ n = ⟨m.id, .message, p⟩)
      (m.parent.toList.map fun p => ⟨m.id, .message, p⟩) := by
    cases hp : m.parent with
    | none => exact Enumerates.nil (by simp)
    | some p =>
        have hone : Enumerates (fun s n => s = .parent id ∧ n = ⟨m.id, .message, p⟩)
            [⟨m.id, .message, p⟩] := Enumerates.singleton fun s n => Iff.rfl
        exact hone.congr fun s n => by simp
  refine (hfields.append hparent ?_).congr fun s n => ⟨?_, ?_⟩
  · rintro s n s' n' ⟨k, f, -, rfl, -⟩ ⟨p, -, rfl, -⟩
    exact Spot.before_of_part rfl rfl Nat.zero_lt_one
  · rintro (⟨k, f, hf, rfl, hn⟩ | ⟨p, hp, rfl, rfl⟩)
    · exact .fieldType hf hn
    · exact .parent hp
  · rintro (⟨hf, hn⟩ | hp)
    · exact Or.inl ⟨_, _, hf, rfl, hn⟩
    · exact Or.inr ⟨_, hp, rfl, rfl⟩

theorem Method.enumerates_mentions (id : String) (m : Method) :
    Enumerates (m.MentionsAt id) (Mention.ofMethod m) := by
  refine ⟨[(.service id, ⟨m.id, .service, m.serviceId⟩),
      (.input id, ⟨m.id, .message, m.inputTypeId⟩),
      (.output id, ⟨m.id, .message, m.outputTypeId⟩)] ++
    m.operation.toList.flatMap fun o =>
      [(.response id, ⟨m.id, .message, o.responseTypeId⟩),
        (.metadata id, ⟨m.id, .message, o.metadataTypeId⟩)], ?_, fun s n => ⟨?_, ?_⟩, ?_⟩
  · cases m.operation <;> simp [Spot.Before, Spot.round, Spot.holder, Spot.part]
  · intro hmem
    rcases List.mem_append.1 hmem with hown | hoperation
    · simp only [List.mem_cons, Prod.mk.injEq, List.not_mem_nil, or_false] at hown
      rcases hown with ⟨rfl, rfl⟩ | ⟨rfl, rfl⟩ | ⟨rfl, rfl⟩
      · exact .service
      · exact .input
      · exact .output
    · obtain ⟨o, ho, hmem⟩ := List.mem_flatMap.1 hoperation
      rw [Option.mem_toList] at ho
      simp only [List.mem_cons, Prod.mk.injEq, List.not_mem_nil, or_false] at hmem
      rcases hmem with ⟨rfl, rfl⟩ | ⟨rfl, rfl⟩
      · exact .response ho
      · exact .metadata ho
  · rintro (_ | _ | _ | ho | ho) <;> simp_all
  · simp [Mention.ofMethod, List.map_flatMap]

theorem Service.enumerates_mentions (id : String) (e : Service) :
    Enumerates (e.MentionsAt id) (Mention.ofService e) := by
  have hbefore : ∀ k l, k < l → (Spot.offered id k).Before (.offered id l) :=
    fun k l hlt => Spot.before_of_place rfl rfl rfl hlt
  have h := Enumerates.of_places e.methods (fun n => ⟨e.id, .method, n⟩) hbefore
  refine h.congr fun s n => ⟨?_, ?_⟩
  · rintro ⟨k, x, hx, rfl, rfl⟩
    exact .offered hx
  · rintro ⟨hx⟩
    exact ⟨_, _, hx, rfl, rfl⟩

theorem Api.enumerates_lists (a : Api) : Enumerates a.ListsAt (Mention.ofLists a) := by
  have hservice : ∀ k l, k < l → (Spot.listedService k).Before (.listedService l) :=
    fun k l hlt => Spot.before_of_place rfl rfl rfl hlt
  have hmessage : ∀ k l, k < l → (Spot.listedMessage k).Before (.listedMessage l) :=
    fun k l hlt => Spot.before_of_place rfl rfl rfl hlt
  have henum : ∀ k l, k < l → (Spot.listedEnum k).Before (.listedEnum l) :=
    fun k l hlt => Spot.before_of_place rfl rfl rfl hlt
  have hservices := Enumerates.of_places a.services (fun id => ⟨a.name, .service, id⟩) hservice
  have hmessages := Enumerates.of_places a.messages (fun id => ⟨a.name, .message, id⟩) hmessage
  have henums := Enumerates.of_places a.enums (fun id => ⟨a.name, .enum, id⟩) henum
  have hall := (hservices.append hmessages ?_).append henums ?_
  · refine hall.congr fun s n => ⟨?_, ?_⟩
    · rintro ((⟨k, id, h, rfl, rfl⟩ | ⟨k, id, h, rfl, rfl⟩) | ⟨k, id, h, rfl, rfl⟩)
      · exact .service h
      · exact .message h
      · exact .enum h
    · rintro (h | h | h)
      · exact Or.inl (Or.inl ⟨_, _, h, rfl, rfl⟩)
      · exact Or.inl (Or.inr ⟨_, _, h, rfl, rfl⟩)
      · exact Or.inr ⟨_, _, h, rfl, rfl⟩
  · rintro s n s' n' ⟨k, x, -, rfl, -⟩ ⟨l, y, -, rfl, -⟩
    exact Spot.before_of_round (by simp [Spot.round])
  · rintro s n s' n' (⟨k, x, -, rfl, -⟩ | ⟨k, x, -, rfl, -⟩) ⟨l, y, -, rfl, -⟩
    · exact Spot.before_of_round (by simp [Spot.round])
    · exact Spot.before_of_round (by simp [Spot.round])

/-- The mentions of a model are listed in the order of their spots. -/
theorem Api.enumerates_mentions (a : Api) : Enumerates a.MentionsAt (Mention.ofApi a) := by
  have hmessages := Enumerates.flatMap_values (c := a.table.messages)
    (fun id m => Message.enumerates_mentions id m) (fun _ _ _ _ h => h.owned)
  have hmethods := Enumerates.flatMap_values (c := a.table.methods)
    (fun id m => Method.enumerates_mentions id m) (fun _ _ _ _ h => h.owned)
  have hservices := Enumerates.flatMap_values (c := a.table.services)
    (fun id e => Service.enumerates_mentions id e) (fun _ _ _ _ h => h.owned)
  have hall := ((hmessages.append hmethods ?_).append hservices ?_).append a.enumerates_lists ?_
  · refine hall.congr fun s n => ⟨?_, ?_⟩
    · rintro (((⟨id, m, hm, hn⟩ | ⟨id, m, hm, hn⟩) | ⟨id, e, he, hn⟩) | h)
      · exact .message hm hn
      · exact .method hm hn
      · exact .service he hn
      · exact .lists h
    · rintro (⟨hm, hn⟩ | ⟨hm, hn⟩ | ⟨he, hn⟩ | h)
      · exact Or.inl (Or.inl (Or.inl ⟨_, _, hm, hn⟩))
      · exact Or.inl (Or.inl (Or.inr ⟨_, _, hm, hn⟩))
      · exact Or.inl (Or.inr ⟨_, _, he, hn⟩)
      · exact Or.inr h
  -- Each family stands in a round of its own, so the IDs need not be compared between two of them.
  · rintro s n s' n' ⟨id, m, -, h⟩ ⟨id', m', -, h'⟩
    apply Spot.before_of_round
    rw [h.owned.1, h'.owned.1]
    exact Nat.zero_lt_one
  · rintro s n s' n' h ⟨id', e, -, h'⟩
    apply Spot.before_of_round
    rw [h'.owned.1]
    rcases h with ⟨id, m, -, h⟩ | ⟨id, m, -, h⟩
    · rw [h.owned.1]
      omega
    · rw [h.owned.1]
      omega
  · rintro s n s' n' h h'
    apply Spot.before_of_round
    have hround := h'.round
    rcases h with (⟨id, m, -, h⟩ | ⟨id, m, -, h⟩) | ⟨id, e, -, h⟩
    · rw [h.owned.1]
      omega
    · rw [h.owned.1]
      omega
    · rw [h.owned.1]
      omega

/-! ### The report -/

theorem Api.enumerates_dangling (a : Api) : Enumerates a.DanglesAt a.dangling := by
  refine (a.enumerates_mentions.filter _).congr fun s n => and_congr_right fun _ => ?_
  rw [← SymbolTable.resolves_iff]
  simp

/-- The error tells of every dangling mention once, in the order of the spots: the error of the
mention itself if there is one, and otherwise all of them together. -/
def Api.Reports (a : Api) (e : ModelError) : Prop :=
  ∃ pairs : List (Spot × Mention),
    pairs.Pairwise (fun p q => p.1.Before q.1) ∧ (pairs.map Prod.fst).Nodup ∧
      (∀ s n, (s, n) ∈ pairs ↔ a.DanglesAt s n) ∧
      ((∃ s n, pairs = [(s, n)] ∧ e = .unresolved n.source n.kind n.target) ∨
        2 ≤ pairs.length ∧
          e = .several (pairs.map fun p => .unresolved p.2.source p.2.kind p.2.target))

theorem ModelError.collect_eq_error {errors : List ModelError} {e : ModelError}
    (h : collect errors = .error e) :
    errors = [e] ∨ 2 ≤ errors.length ∧ e = .several errors := by
  match errors with
  | [] => cases h
  | [e'] =>
      cases h
      exact Or.inl rfl
  | e₁ :: e₂ :: es =>
      cases h
      exact Or.inr ⟨by simp, rfl⟩

theorem Api.reports_of_checkMentions {a : Api} {e : ModelError}
    (h : a.checkMentions = .error e) : a.Reports e := by
  obtain ⟨pairs, hsorted, hmem, hpairs⟩ := a.enumerates_dangling
  have hnodup : (pairs.map Prod.fst).Nodup := by
    refine List.pairwise_map.2 (hsorted.imp ?_)
    intro p q hbefore heq
    rw [heq] at hbefore
    exact q.1.not_before_self hbefore
  rw [checkMentions, ← hpairs, List.map_map] at h
  refine ⟨pairs, hsorted, hnodup, hmem, ?_⟩
  rcases ModelError.collect_eq_error h with hone | ⟨hlength, rfl⟩
  · obtain ⟨⟨s, n⟩, rfl, rfl⟩ := List.map_eq_singleton_iff.1 hone
    exact Or.inl ⟨s, n, rfl, rfl⟩
  · rw [List.length_map] at hlength
    exact Or.inr ⟨hlength, rfl⟩

/-! ### Freezing in place -/

theorem Api.run_finalizing (a : Api) :
    finalizing.run.run a = match a.finalize with
      | .ok b => (.ok (), b)
      | .error e => (.error e, a) := by
  have hrun : finalizing.run.run a = match a.checkMentions with
      | .ok () => (.ok (), { a with table := a.table.freeze })
      | .error e => (.error e, a) := by
    change ((MonadExcept.ofExcept a.checkMentions >>= fun _ =>
      modify fun a => { a with table := a.table.freeze } :
        ExceptT ModelError (StateM Api) Unit).run.run a) = _
    cases a.checkMentions <;> rfl
  rw [hrun, finalize]
  cases a.checkMentions <;> rfl

/-- A closed model passes the check and is frozen, and nothing else changes.  Any other model is
refused with a report of all that dangles, and stays as it is. -/
theorem Api.finalizing_settles (a : Api) :
    (a.Closed ∧ a.checkMentions = .ok () ∧
      a.finalize = .ok { a with table := { a.table with frozen := true } } ∧
      finalizing.run.run a = (.ok (), { a with table := { a.table with frozen := true } })) ∨
    (¬ a.Closed ∧ ∃ e, a.Reports e ∧ a.checkMentions = .error e ∧ a.finalize = .error e ∧
      finalizing.run.run a = (.error e, a)) := by
  rw [run_finalizing, finalize]
  cases h : a.checkMentions with
  | ok u => exact Or.inl ⟨checkMentions_eq_ok_iff.1 h, rfl, rfl, rfl⟩
  | error e =>
      refine Or.inr ⟨fun hclosed => ?_, e, reports_of_checkMentions h, rfl, rfl, rfl⟩
      rw [checkMentions_eq_ok_iff.2 hclosed] at h
      cases h

end ServiceModel
