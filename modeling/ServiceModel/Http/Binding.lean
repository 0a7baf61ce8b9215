import ServiceModel.Http.Rule
import ServiceModel.Model.Basic
import ServiceModel.PathTemplate.Parser

/-!
The HTTP bindings of a method, made from its rule and its request message: one for the rule itself,
and one for each additional binding written directly in it.
-/

namespace ServiceModel

inductive BindingError where
  | missingPattern (selector : String)
  | template (selector : String) (error : PathTemplateError)
  deriving DecidableEq, Repr, Inhabited

def BindingError.message : BindingError → String
  | .missingPattern selector => "http rule for \x60" ++ selector ++ "\x60 has no path pattern"
  | .template selector error => "http rule for \x60" ++ selector ++ "\x60: " ++ error.message

namespace HttpRule

/-- The binding of one rule.  The query takes what this rule's own path and body leave. -/
def binding (selector : String) (request : Message) (rule : HttpRule) :
    Except BindingError HttpBinding :=
  match rule.pattern? with
  | none => .error (.missingPattern selector)
  | some (verb, path) =>
      match PathTemplate.parse path with
      | .error e => .error (.template selector e)
      | .ok t => .ok ⟨verb, t, t.queryParameters request.fieldNames rule.bodyField?⟩

/-- The bindings of some rules, or the error of the first that cannot be bound. -/
def bindingList (selector : String) (request : Message) :
    List HttpRule → Except BindingError (List HttpBinding)
  | [] => .ok []
  | r :: rs =>
      match r.binding selector request with
      | .error e => .error e
      | .ok b =>
          match bindingList selector request rs with
          | .error e => .error e
          | .ok bs => .ok (b :: bs)

/-- All bindings of a method.  The body is that of the rule itself. -/
def bindings (selector : String) (request : Message) (rule : HttpRule) :
    Except BindingError HttpBindings :=
  match bindingList selector request (rule :: rule.additionalBindings) with
  | .error e => .error e
  | .ok bs => .ok ⟨bs, rule.bodyField?⟩

end HttpRule

end ServiceModel
