import ServiceModel.Proofs.Data.JsonForm

/-!
Entities of a model survive being written and read.  Each type of an entity or of a part of one has a
JSON form; those of methods are the deepest, with the segments of their templates ten levels down.
-/

namespace ServiceModel

/-! ### Templates and routing -/

theorem VariableSegment.jsonForm : JsonForm 1 VariableSegment.toJson VariableSegment.ofNode? := by
  constructor
  · rintro (l | _ | _) <;> rfl
  · rintro (l | _ | _)
    · exact .object (by simp)
    · exact .string _
    · exact .string _

theorem PathVariable.jsonForm : JsonForm 3 PathVariable.toJson PathVariable.ofNode? := by
  have hfieldPath := JsonForm.texts.mono (show 1 ≤ 2 by decide)
  have hsegments := VariableSegment.jsonForm.list
  refine .record (fun _ => rfl) (fun _ => rfl) (fun _ => rfl) (by decide) (fun v => ?_) fun v => ?_
  · simp [hfieldPath.back, hsegments.back]
  · simp [hfieldPath.legible, hsegments.legible]

theorem PathSegment.jsonForm : JsonForm 4 PathSegment.toJson PathSegment.ofNode? := by
  constructor
  · rintro (l | v | w)
    · rfl
    · change (do return PathSegment.variable (← PathVariable.ofNode? (.ofJson v.toJson))) = _
      rw [PathVariable.jsonForm.back, pure_bind]
    · rfl
  · rintro (l | v | w)
    · exact .object (by simp)
    · exact .object (by simp [PathVariable.jsonForm.legible])
    · exact .object (by simp)

theorem PathTemplate.jsonForm : JsonForm 6 PathTemplate.toJson PathTemplate.ofNode? := by
  have hsegments := PathSegment.jsonForm.list
  refine .record (fun _ => rfl) (fun _ => rfl) (fun _ => rfl) (by decide) (fun t => ?_) fun t => ?_
  · simp [hsegments.back]
  · simp [hsegments.legible]

theorem RoutingPath.jsonForm : JsonForm 2 RoutingPath.toJson RoutingPath.ofNode? := by
  have hsegments := JsonForm.texts
  refine .record (fun _ => rfl) (fun _ => rfl) (fun _ => rfl) (by decide) (fun p => ?_) fun p => ?_
  · simp [hsegments.back]
  · simp [hsegments.legible]

theorem RoutingVariant.jsonForm : JsonForm 3 RoutingVariant.toJson RoutingVariant.ofNode? := by
  have hfieldPath := JsonForm.texts.mono (show 1 ≤ 2 by decide)
  have hpath := RoutingPath.jsonForm
  refine .record (fun _ => rfl) (fun _ => rfl) (fun _ => rfl) (by decide) (fun v => ?_) fun v => ?_
  · simp [hfieldPath.back, hpath.back]
  · simp [hfieldPath.legible, hpath.legible]

theorem RoutingHeader.jsonForm : JsonForm 5 RoutingHeader.toJson RoutingHeader.ofNode? := by
  have hvariants := RoutingVariant.jsonForm.list
  refine .record (fun _ => rfl) (fun _ => rfl) (fun _ => rfl) (by decide) (fun h => ?_) fun h => ?_
  · simp [hvariants.back]
  · simp [hvariants.legible]

/-! ### Fields and messages -/

theorem WireType.jsonForm : JsonForm 0 WireType.toJson WireType.ofNode? :=
  .choice WireType.jsonName fun t => by cases t <;> rfl

theorem Behavior.jsonForm : JsonForm 0 Behavior.toJson Behavior.ofNode? :=
  .choice Behavior.jsonName fun b => by cases b <;> rfl

theorem TextFormat.jsonForm : JsonForm 0 TextFormat.toJson TextFormat.ofNode? :=
  .choice TextFormat.jsonName fun f => by cases f <;> rfl

theorem Field.jsonForm : JsonForm 2 Field.toJson Field.ofNode? := by
  have hwireType := WireType.jsonForm.mono (show 0 ≤ 1 by decide)
  have hbehavior := Behavior.jsonForm.list
  have hformat := (JsonForm.option TextFormat.jsonForm nofun).mono (show 0 ≤ 1 by decide)
  refine .record (fun _ => rfl) (fun _ => rfl) (fun _ => rfl) (by decide) (fun f => ?_) fun f => ?_
  · simp [hwireType.back, hbehavior.back, hformat.back]
  · simp [hwireType.legible, hbehavior.legible, hformat.legible]

theorem OneOf.jsonForm : JsonForm 2 OneOf.toJson OneOf.ofNode? := by
  have hfields := JsonForm.texts
  refine .record (fun _ => rfl) (fun _ => rfl) (fun _ => rfl) (by decide) (fun o => ?_) fun o => ?_
  · simp [hfields.back]
  · simp [hfields.legible]

theorem PageFields.jsonForm : JsonForm 1 PageFields.toJson PageFields.ofNode? := by
  refine .record (fun _ => rfl) (fun _ => rfl) (fun _ => rfl) (by decide) (fun p => ?_) fun p => ?_
  · simp
  · simp

theorem Message.jsonForm : JsonForm 4 Message.toJson Message.ofNode? := by
  have hparent := (JsonForm.option .text nofun).mono (show 0 ≤ 3 by decide)
  have hfields := Field.jsonForm.list
  have htexts := JsonForm.texts.mono (show 1 ≤ 3 by decide)
  have honeOfs := OneOf.jsonForm.list
  have hpagination := (JsonForm.option PageFields.jsonForm nofun).mono (show 1 ≤ 3 by decide)
  refine .record (fun _ => rfl) (fun _ => rfl) (fun _ => rfl) (by decide) (fun m => ?_) fun m => ?_
  · simp [hparent.back, hfields.back, htexts.back, honeOfs.back, hpagination.back]
  · simp [hparent.legible, hfields.legible, htexts.legible, honeOfs.legible, hpagination.legible]

/-! ### Enums -/

theorem EnumValue.jsonForm : JsonForm 1 EnumValue.toJson EnumValue.ofNode? := by
  have hnumber := JsonForm.int32
  refine .record (fun _ => rfl) (fun _ => rfl) (fun _ => rfl) (by decide) (fun v => ?_) fun v => ?_
  · simp [hnumber.back]
  · simp [hnumber.legible]

theorem Enum.jsonForm : JsonForm 3 Enum.toJson Enum.ofNode? := by
  have hparent := (JsonForm.option .text nofun).mono (show 0 ≤ 2 by decide)
  have hvalues := EnumValue.jsonForm.list
  refine .record (fun _ => rfl) (fun _ => rfl) (fun _ => rfl) (by decide) (fun e => ?_) fun e => ?_
  · simp [hparent.back, hvalues.back]
  · simp [hparent.legible, hvalues.legible]

/-! ### Services -/

namespace NameSet

theorem place_of_forall_lt {name : String} {ns : List String} (h : ∀ n ∈ ns, n < name) :
    place name ns = ns ++ [name] := by
  induction ns with
  | nil => rfl
  | cons n ns ih =>
      have hn := h n List.mem_cons_self
      rw [place, if_neg (Std.not_gt_of_lt hn), if_neg (Std.ne_of_lt hn).symm,
        ih fun m hm => h m (List.mem_cons_of_mem n hm), List.cons_append]

theorem names_insertAll {names : List String} {s : NameSet}
    (h : (s.names ++ names).Pairwise (· < ·)) : (s.insertAll names).names = s.names ++ names := by
  induction names generalizing s with
  | nil => simp [insertAll]
  | cons name names ih =>
      have hlast : (s.insert name).names = s.names ++ [name] :=
        place_of_forall_lt fun n hn => (List.pairwise_append.1 h).2.2 n hn name List.mem_cons_self
      have hrest := ih (s := s.insert name) (by simpa [hlast] using h)
      simpa [insertAll, hlast] using hrest

/-- A set is what its names make. -/
theorem ofList_names (s : NameSet) : ofList s.names = s := by
  have hnames : (ofList s.names).names = s.names := names_insertAll s.ascending
  cases s
  cases hset : ofList _
  rw [hset] at hnames
  cases hnames
  rfl

end NameSet

theorem HttpBinding.jsonForm : JsonForm 7 HttpBinding.toJson HttpBinding.ofNode? := by
  have htemplate := PathTemplate.jsonForm
  have hparameters := JsonForm.texts.mono (show 1 ≤ 6 by decide)
  refine .record (fun _ => rfl) (fun _ => rfl) (fun _ => rfl) (by decide) (fun b => ?_) fun b => ?_
  · simp [htemplate.back, hparameters.back, NameSet.ofList_names]
  · simp [htemplate.legible, hparameters.legible]

theorem HttpBindings.jsonForm : JsonForm 9 HttpBindings.toJson HttpBindings.ofNode? := by
  have hbindings := HttpBinding.jsonForm.list
  have hbody := (JsonForm.option .text nofun).mono (show 0 ≤ 8 by decide)
  refine .record (fun _ => rfl) (fun _ => rfl) (fun _ => rfl) (by decide) (fun h => ?_) fun h => ?_
  · simp [hbindings.back, hbody.back]
  · simp [hbindings.legible, hbody.legible]

theorem OperationTypes.jsonForm : JsonForm 1 OperationTypes.toJson OperationTypes.ofNode? := by
  refine .record (fun _ => rfl) (fun _ => rfl) (fun _ => rfl) (by decide) (fun o => ?_) fun o => ?_
  · simp
  · simp

theorem Method.jsonForm : JsonForm 10 Method.toJson Method.ofNode? := by
  have hhttp := HttpBindings.jsonForm
  have hrouting := RoutingHeader.jsonForm.list.mono (show 6 ≤ 9 by decide)
  have hoperation := (JsonForm.option OperationTypes.jsonForm nofun).mono (show 1 ≤ 9 by decide)
  have hoption := (JsonForm.option .text nofun).mono (show 0 ≤ 9 by decide)
  have htexts := JsonForm.texts.mono (show 1 ≤ 9 by decide)
  refine .record (fun _ => rfl) (fun _ => rfl) (fun _ => rfl) (by decide) (fun m => ?_) fun m => ?_
  · simp [hhttp.back, hrouting.back, hoperation.back, hoption.back, htexts.back]
  · simp [hhttp.legible, hrouting.legible, hoperation.legible, hoption.legible, htexts.legible]

theorem Service.jsonForm : JsonForm 2 Service.toJson Service.ofNode? := by
  have hmethods := JsonForm.texts
  refine .record (fun _ => rfl) (fun _ => rfl) (fun _ => rfl) (by decide) (fun s => ?_) fun s => ?_
  · simp [hmethods.back]
  · simp [hmethods.legible]

/-- Every entity of a model is what its JSON form is read as, and so is a routing header by itself:
the value, its compact text and its text over lines. -/
theorem entities_readBack :
    ReadsBack Message.toJson Message.ofNode? ∧ ReadsBack Field.toJson Field.ofNode? ∧
      ReadsBack Enum.toJson Enum.ofNode? ∧ ReadsBack Service.toJson Service.ofNode? ∧
      ReadsBack Method.toJson Method.ofNode? ∧
      ReadsBack RoutingHeader.toJson RoutingHeader.ofNode? := by
  refine ⟨?_, ?_, ?_, ?_, ?_, ?_⟩
  · exact Message.jsonForm.readsBack (by decide)
  · exact Field.jsonForm.readsBack (by decide)
  · exact Enum.jsonForm.readsBack (by decide)
  · exact Service.jsonForm.readsBack (by decide)
  · exact Method.jsonForm.readsBack (by decide)
  · exact RoutingHeader.jsonForm.readsBack (by decide)

end ServiceModel
