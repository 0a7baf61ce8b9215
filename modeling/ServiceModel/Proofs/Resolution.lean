import ServiceModel.Proofs.Catalog
import ServiceModel.Resolution

/-!
Closed models.  A model is closed when every ID that its entities and its lists mention is that of an
entity of the right kind.  The check at the end of a build passes exactly the closed models.
-/

namespace ServiceModel

/-! ### What it means to resolve -/

/-- The message or enum that the type of a field refers to is there. -/
def SymbolTable.TypeResolves (t : SymbolTable) (f : Field) : Prop :=
  (f.wireType = .message ∨ f.wireType = .group → t.messages.contains f.typeId = true) ∧
    (f.wireType = .enum → t.enums.contains f.typeId = true)

/-- What a message mentions is there: the types of its fields, and the message around it. -/
structure Message.Resolves (t : SymbolTable) (m : Message) : Prop where
  types : ∀ f ∈ m.fields, t.TypeResolves f
  parent : ∀ p, m.parent = some p → t.messages.contains p = true

/-- What a method mentions is there: its service, its types, and those of its operation. -/
structure Method.Resolves (t : SymbolTable) (m : Method) : Prop where
  service : t.services.contains m.serviceId = true
  input : t.messages.contains m.inputTypeId = true
  output : t.messages.contains m.outputTypeId = true
  operation : ∀ o, m.operation = some o →
    t.messages.contains o.responseTypeId = true ∧ t.messages.contains o.metadataTypeId = true

/-- Every ID that the model mentions is that of an entity of the right kind. -/
structure Api.Closed (a : Api) : Prop where
  messages : ∀ id m, a.table.message? id = some m → m.Resolves a.table
  methods : ∀ id m, a.table.method? id = some m → m.Resolves a.table
  listedMethods : ∀ id s, a.table.service? id = some s →
    ∀ n ∈ s.methods, a.table.methods.contains n = true
  listedServices : ∀ id ∈ a.services, a.table.services.contains id = true
  listedMessages : ∀ id ∈ a.messages, a.table.messages.contains id = true
  listedEnums : ∀ id ∈ a.enums, a.table.enums.contains id = true

/-! ### Mentions of each kind of entity -/

namespace Mention

variable {t : SymbolTable}

theorem forall_ofField {f : Field} :
    (∀ n ∈ ofField f, t.resolves n.kind n.target = true) ↔ t.TypeResolves f := by
  unfold ofField SymbolTable.TypeResolves
  cases f.wireType <;> simp [SymbolTable.resolves]

theorem forall_ofMessage {m : Message} :
    (∀ n ∈ ofMessage m, t.resolves n.kind n.target = true) ↔ m.Resolves t := by
  rw [ofMessage, List.forall_mem_append]
  constructor
  · rintro ⟨hfields, hparent⟩
    refine ⟨fun f hf => forall_ofField.1 fun n hn => hfields n ?_, fun p hp => ?_⟩
    · exact List.mem_flatMap.2 ⟨f, hf, hn⟩
    · exact hparent ⟨m.id, .message, p⟩ (by simp [hp])
  · rintro ⟨htypes, hparent⟩
    constructor
    · intro n hn
      obtain ⟨f, hf, hn⟩ := List.mem_flatMap.1 hn
      exact forall_ofField.2 (htypes f hf) n hn
    · intro n hn
      obtain ⟨p, hp, rfl⟩ := List.mem_map.1 hn
      exact hparent p (by simpa using hp)

theorem forall_ofMethod {m : Method} :
    (∀ n ∈ ofMethod m, t.resolves n.kind n.target = true) ↔ m.Resolves t := by
  rw [ofMethod, List.forall_mem_append]
  constructor
  · rintro ⟨hown, hoperation⟩
    refine ⟨hown ⟨m.id, .service, m.serviceId⟩ (by simp),
      hown ⟨m.id, .message, m.inputTypeId⟩ (by simp),
      hown ⟨m.id, .message, m.outputTypeId⟩ (by simp), fun o ho => ?_⟩
    exact ⟨hoperation ⟨m.id, .message, o.responseTypeId⟩ (by simp [ho]),
      hoperation ⟨m.id, .message, o.metadataTypeId⟩ (by simp [ho])⟩
  · rintro ⟨hservice, hinput, houtput, hoperation⟩
    constructor
    · intro n hn
      simp only [List.mem_cons, List.not_mem_nil, or_false] at hn
      rcases hn with rfl | rfl | rfl
      · exact hservice
      · exact hinput
      · exact houtput
    · intro n hn
      obtain ⟨o, ho, hn⟩ := List.mem_flatMap.1 hn
      obtain ⟨hresponse, hmetadata⟩ := hoperation o (by simpa using ho)
      simp only [List.mem_cons, List.not_mem_nil, or_false] at hn
      rcases hn with rfl | rfl
      · exact hresponse
      · exact hmetadata

theorem forall_ofService {s : Service} :
    (∀ n ∈ ofService s, t.resolves n.kind n.target = true) ↔
      ∀ id ∈ s.methods, t.methods.contains id = true := by
  rw [ofService, List.forall_mem_map]
  rfl

theorem forall_ofLists {a : Api} :
    (∀ n ∈ ofLists a, t.resolves n.kind n.target = true) ↔
      (∀ id ∈ a.services, t.services.contains id = true) ∧
        (∀ id ∈ a.messages, t.messages.contains id = true) ∧
          ∀ id ∈ a.enums, t.enums.contains id = true := by
  rw [ofLists, List.forall_mem_append, List.forall_mem_append, and_assoc]
  simp only [List.forall_mem_map]
  rfl

/-- The mentions of all values of a catalog resolve if those of each entry do. -/
theorem forall_values {α : Type} {c : Catalog α} {mentions : α → List Mention} :
    (∀ n ∈ c.values.flatMap mentions, t.resolves n.kind n.target = true) ↔
      ∀ id x, c.get? id = some x → ∀ n ∈ mentions x, t.resolves n.kind n.target = true := by
  constructor
  · intro h id x hx n hn
    exact h n (List.mem_flatMap.2 ⟨x, Catalog.mem_values_iff.2 ⟨id, hx⟩, hn⟩)
  · intro h n hn
    obtain ⟨x, hx, hn⟩ := List.mem_flatMap.1 hn
    obtain ⟨id, hx⟩ := Catalog.mem_values_iff.1 hx
    exact h id x hx n hn

theorem forall_ofApi {a : Api} :
    (∀ n ∈ ofApi a, a.table.resolves n.kind n.target = true) ↔ a.Closed := by
  rw [ofApi, List.forall_mem_append, List.forall_mem_append, List.forall_mem_append,
    forall_values, forall_values, forall_values, forall_ofLists]
  simp only [forall_ofMessage, forall_ofMethod, forall_ofService]
  constructor
  · rintro ⟨⟨⟨hmessages, hmethods⟩, hservices⟩, hlists⟩
    exact ⟨hmessages, hmethods, hservices, hlists.1, hlists.2.1, hlists.2.2⟩
  · rintro ⟨hmessages, hmethods, hservices, h₁, h₂, h₃⟩
    exact ⟨⟨⟨hmessages, hmethods⟩, hservices⟩, h₁, h₂, h₃⟩

end Mention

/-! ### The check -/

theorem ModelError.collect_eq_ok_iff {errors : List ModelError} :
    collect errors = .ok () ↔ errors = [] := by
  match errors with
  | [] => simp [collect]
  | [_] => simp [collect]
  | _ :: _ :: _ => simp [collect]

namespace Api

/-- The check passes exactly the closed models. -/
theorem checkMentions_eq_ok_iff {a : Api} : a.checkMentions = .ok () ↔ a.Closed := by
  rw [checkMentions, ModelError.collect_eq_ok_iff, List.map_eq_nil_iff, dangling,
    List.filter_eq_nil_iff, ← Mention.forall_ofApi]
  simp

/-- A model is finished exactly when it is closed; nothing but its table changes, which is frozen. -/
theorem finalize_eq_ok_iff {a b : Api} :
    a.finalize = .ok b ↔ a.Closed ∧ b = { a with table := a.table.freeze } := by
  rw [← checkMentions_eq_ok_iff, finalize]
  cases h : a.checkMentions with
  | error e => simp
  | ok u => simp [eq_comm]

end Api

end ServiceModel
