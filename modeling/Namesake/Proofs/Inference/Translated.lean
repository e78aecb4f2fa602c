import Namesake.Proofs.Scope.Translated
import Namesake.Proofs.TypeGraph.Translated

/-!
Under names that are as different as the old ones and that leave the known ones as they are,
inference takes the same steps.  `Mirrors` says so of one action.
-/

namespace Namesake

/-- The state of inference under other names: types, methods and scopes are the same, and the names of
properties and of variables are translated. -/
def Typing.translate (translation : Text → Text) (typing : Typing) : Typing :=
  { typing with
    graph := typing.graph.translate translation
    stack := typing.stack.map (translateKeys translation)
    envs := typing.envs.map (Prod.map id (translateKeys translation)) }

def Inference.translate (translation : Text → Text) (inference : Inference) : Inference :=
  { inference with typing := inference.typing.translate translation }

/-- Names that are as different as before, and the same where inference knows them. -/
structure Faithful (translation : Text → Text) : Prop where
  injective : translation.Injective
  undefined : translation (.ofString "undefined") = .ofString "undefined"
  prototype : translation (.ofString "prototype") = .ofString "prototype"
  arguments : translation (.ofString "arguments") = .ofString "arguments"
  receiver : translation Synthetic.receiver = Synthetic.receiver
  result : translation Synthetic.result = Synthetic.result
  element : translation Synthetic.element = Synthetic.element
  owner : translation Synthetic.owner = Synthetic.owner

namespace Infer

/-- Whether an action does under other names what another one does. -/
def Mirrors {α β : Type} (translation : Text → Text) (answer : α → β) (action : Infer α)
    (mirror : Infer β) : Prop :=
  ∀ before result after, action.run before = .ok (result, after) →
    mirror.run (before.translate translation) = .ok (answer result, after.translate translation)

namespace Mirrors

variable {α β γ δ : Type} {translation : Text → Text}
variable {mirror : Infer β} {next : α → Infer γ}

theorem pure (result : α) (answer : α → β) :
    Mirrors translation answer (Pure.pure result) (Pure.pure (answer result)) := by
  rintro before _ _ ⟨⟩
  rfl

theorem throw {answer : α → β} {fault : Fault} :
    Mirrors translation answer (MonadExcept.throw fault) mirror := by
  rintro before _ _ ⟨⟩

theorem bind {answer : α → β} {answer' : γ → δ} {action : Infer α} {next' : β → Infer δ}
    (first : Mirrors translation answer action mirror)
    (second : ∀ result, Mirrors translation answer' (next result) (next' (answer result))) :
    Mirrors translation answer' (action >>= next) (mirror >>= next') := by
  intro before result after ran
  rw [StateT.run_bind] at ran ⊢
  cases firstEq : action.run before with
  | error fault =>
    rw [firstEq] at ran
    cases ran
  | ok middle =>
    rw [firstEq] at ran
    rw [first before middle.1 middle.2 firstEq]
    exact second middle.1 middle.2 result after ran

theorem throw_bind {answer : γ → β} {fault : Fault} :
    Mirrors translation answer (MonadExcept.throw fault >>= next) mirror := by
  rintro before _ _ ⟨⟩

theorem bind_fails {answer : γ → β} {action : Infer α}
    (fails : ∀ result, Mirrors translation answer (next result) (MonadExcept.throw .malformed)) :
    Mirrors translation answer (action >>= next) mirror := by
  intro before result after ran
  rw [StateT.run_bind] at ran
  cases firstEq : action.run before with
  | error fault =>
    rw [firstEq] at ran
    cases ran
  | ok middle =>
    rw [firstEq] at ran
    cases fails middle.1 middle.2 result after ran

theorem get : Mirrors translation (Typing.translate translation) MonadState.get MonadState.get := by
  rintro before _ _ ⟨⟩
  rfl

theorem modify {change change' : Typing → Typing}
    (alike : ∀ typing : Typing,
      change' (typing.translate translation) = (change typing).translate translation) :
    Mirrors translation id (modify change) (modify change') := by
  rintro before _ _ ⟨⟩
  exact congrArg (fun typing => Except.ok ((), typing)) (alike before)

end Mirrors

theorem lookup_map_snd {κ α β : Type} [BEq κ] (change : α → β) (entries : List (κ × α)) (key : κ) :
    (entries.map (Prod.map id change)).lookup key = (entries.lookup key).map change := by
  induction entries with
  | nil => rfl
  | cons entry rest ih =>
    obtain ⟨own, value⟩ := entry
    rw [List.map_cons, Prod.map_apply, List.lookup_cons, List.lookup_cons, ih, id]
    cases key == own <;> rfl

section

variable {α : Type} {translation : Text → Text}

theorem mirrors_onGraph {step step' : TypeGraph → α × TypeGraph}
    (alike : ∀ graph : TypeGraph, step' (graph.translate translation) =
      ((step graph).1, (step graph).2.translate translation)) :
    Mirrors translation id (onGraph step) (onGraph step') := by
  rintro before _ _ ⟨⟩
  change Except.ok ((step' (before.graph.translate translation)).1,
    { before.translate translation with
      graph := (step' (before.graph.translate translation)).2 }) = _
  rw [alike]
  rfl

theorem mirrors_newType : Mirrors translation id newType newType :=
  mirrors_onGraph TypeGraph.newNode_translate

theorem mirrors_unify (injective : translation.Injective) (left right : TypeId) :
    Mirrors translation id (unify left right) (unify left right) :=
  mirrors_onGraph fun graph =>
    congrArg (Prod.mk ()) (TypeGraph.unify_translate injective graph left right)

theorem mirrors_markNamespace (type : TypeId) :
    Mirrors translation id (markNamespace type) (markNamespace type) :=
  mirrors_onGraph fun graph => congrArg (Prod.mk ()) (TypeGraph.markNamespace_translate graph type)

theorem mirrors_property (injective : translation.Injective) (type : TypeId) (name : Text) :
    Mirrors translation id (property type name) (property type (translation name)) :=
  mirrors_onGraph fun graph => TypeGraph.property_translate injective graph type name

theorem mirrors_setType (address : Address) (type : TypeId) :
    Mirrors translation id (setType address type) (setType address type) :=
  .modify fun _ => rfl

theorem mirrors_typeAt (address : Address) :
    Mirrors translation id (typeAt address) (typeAt address) := by
  apply Mirrors.get.bind
  intro typing
  have same : (typing.translate translation).type? address = typing.type? address := rfl
  rw [same]
  split
  · exact .pure _ id
  · apply mirrors_newType.bind
    intro type
    exact (mirrors_setType address type).bind fun _ => .pure type id

theorem mirrors_typeOf (address : Address) (field : Field) (isKey : Bool) :
    Mirrors translation id (typeOf address field)
      (typeOf address (field.translate translation isKey)) := by
  cases field with
  | node child => exact mirrors_typeAt address
  | _ => exact .throw

theorem mirrors_addMethod (base receiver : TypeId) :
    Mirrors translation id (addMethod base receiver) (addMethod base receiver) :=
  .modify fun _ => rfl

theorem mirrors_enterScope : Mirrors translation id enterScope enterScope :=
  .modify fun _ => rfl

theorem mirrors_leaveScope (scope : Address) :
    Mirrors translation id (leaveScope scope) (leaveScope scope) := by
  apply Mirrors.modify
  intro typing
  obtain ⟨graph, types, stack, envs, methods⟩ := typing
  cases stack <;> rfl

section Injective

variable (injective : translation.Injective)

include injective

theorem mirrors_propertyNamed (type : TypeId) (name : Field) :
    Mirrors translation id (propertyNamed type name)
      (propertyNamed type (name.translateName translation)) := by
  unfold propertyNamed
  split
  · exact mirrors_property injective type _
  · exact .throw

theorem mirrors_variableNamed (name : Text) :
    Mirrors translation id (variableNamed name) (variableNamed (translation name)) := by
  apply Mirrors.get.bind
  intro typing
  have same : (typing.translate translation).stack.findSome?
      (fun env => env.lookup (translation name)) =
        typing.stack.findSome? fun env => env.lookup name := by
    change (typing.stack.map (translateKeys translation)).findSome? _ = _
    rw [List.findSome?_map]
    congr 1
    funext env
    exact lookup_translateKeys injective env name
  rw [same]
  split
  · exact .pure _ id
  · exact mirrors_property injective _ name

theorem mirrors_variableType (name : Field) :
    Mirrors translation id (variableType name) (variableType (name.translateName translation)) := by
  unfold variableType
  split
  · exact mirrors_variableNamed injective _
  · exact .throw

theorem mirrors_bindText (name : Text) :
    Mirrors translation id (bindText name) (bindText (translation name)) := by
  apply Mirrors.get.bind
  intro typing
  obtain ⟨graph, types, stack, envs, methods⟩ := typing
  cases stack with
  | nil => exact .throw
  | cons env outer =>
    dsimp only [Typing.translate]
    rw [List.map_cons]
    dsimp only
    rw [lookup_translateKeys injective]
    cases env.lookup name with
    | some type => exact .pure _ id
    | none =>
      apply mirrors_newType.bind
      intro type
      refine Mirrors.bind (.modify fun typing => ?_) fun _ => .pure type id
      rw [id, ← translateKeys_concat]
      rfl

theorem mirrors_bindName (name : Field) :
    Mirrors translation id (bindName name) (bindName (name.translateName translation)) := by
  unfold bindName
  split
  · exact mirrors_bindText injective _
  · exact .throw

theorem mirrors_boundIn (scope : Address) (name : Text) :
    Mirrors translation id (boundIn scope name) (boundIn scope (translation name)) := by
  apply Mirrors.get.bind
  intro typing
  have same : ((typing.translate translation).env? scope).bind
      (fun env => env.lookup (translation name)) =
        (typing.env? scope).bind fun env => env.lookup name := by
    have found : (typing.translate translation).env? scope =
        (typing.env? scope).map (translateKeys translation) :=
      lookup_map_snd (translateKeys translation) typing.envs scope
    rw [found]
    cases typing.env? scope with
    | none => rfl
    | some env => exact lookup_translateKeys injective env name
  rw [same]
  split
  · exact .pure _ id
  · exact .throw

end Injective

theorem mirrors_noItems (field : Field) (isKey : Bool) :
    Mirrors translation id (noItems field) (noItems (field.translate translation isKey)) := by
  cases field with
  | data value =>
    rw [Field.translate]
    unfold noItems
    split
    · exact .pure () id
    · exact .throw
  | node child => exact .throw
  | list items =>
    cases items with
    | nil => exact .pure () id
    | cons item rest => exact .throw

theorem listed_translate (field : Field) (isKey : Bool) :
    listed (field.translate translation isKey) = Field.translateItems translation (listed field) := by
  cases field <;> rfl

theorem isNull_translate (field : Field) (isKey : Bool) :
    (field.translate translation isKey).isNull = field.isNull := by
  cases field <;> rfl

theorem isTruthy_translate (field : Field) (isKey : Bool) :
    (field.translate translation isKey).isTruthy = field.isTruthy := by
  cases field with
  | data value => rfl
  | node child => rfl
  | list items => cases items <;> rfl

theorem isWord_translate (field : Field) (isKey : Bool) (word : String) :
    (field.translate translation isKey).isWord word = field.isWord word := by
  cases field <;> rfl

theorem mirrors_nameIn (field : Field) (isKey : Bool) :
    Mirrors translation (Field.translateName translation) (nameIn field)
      (nameIn (field.translate translation isKey)) := by
  unfold nameIn
  rw [Field.nameValue?_translate]
  cases field.nameValue? with
  | none => exact .throw
  | some name => exact .pure name _

theorem stringIn?_translate (field : Field) :
    stringIn? (field.translate translation true) =
      (stringIn? field).map (Field.translateName translation) := by
  cases field with
  | node child =>
    obtain ⟨kind, fields, location⟩ := child
    cases kind with
    | literal =>
      rcases fields with _ | ⟨value, rest⟩
      · rfl
      · cases value with
        | data value => cases value <;> rfl
        | _ => rfl
    | _ => rfl
  | _ => rfl

theorem isNull_translateName (name : Field) :
    (name.translateName translation).isNull = name.isNull := by
  cases name with
  | data value => cases value <;> rfl
  | node child => rfl
  | list items => rfl

theorem keyName?_translate (key : Field) :
    keyName? (key.translate translation true) =
      (keyName? key).map (Field.translateName translation) := by
  unfold keyName?
  rw [Field.nameValue?_translate]
  cases key.nameValue? with
  | none => exact stringIn?_translate key
  | some name =>
    simp only [Option.map_some, isNull_translateName]
    split <;> rfl

theorem isWord_translateName (injective : translation.Injective) {word : String}
    (fixed : translation (.ofString word) = .ofString word) (name : Field) :
    (name.translateName translation).isWord word = name.isWord word := by
  cases name with
  | data value =>
    cases value with
    | text spelling =>
      apply decide_eq_decide.2
      exact ⟨fun same => injective (same.trans fixed.symm), fun same => same ▸ fixed⟩
    | _ => rfl
  | _ => rfl

end

section Functions

variable {translation : Text → Text} (faithful : Faithful translation)
variable {name : Text}

include faithful

theorem mirrors_bindParameters (address : Address) (place : Nat) (parameters : List Field) :
    Mirrors translation id (bindParameters address place parameters)
      (bindParameters address place (Field.translateItems translation parameters)) := by
  induction parameters generalizing place with
  | nil => exact .pure () id
  | cons parameter rest ih =>
    apply (mirrors_nameIn parameter false).bind
    intro name
    apply (mirrors_bindName faithful.injective name).bind
    intro type
    exact (mirrors_setType _ type).bind fun _ => ih (place + 1)

theorem mirrors_bindAll (env : Env) :
    Mirrors translation id (bindAll env) (bindAll (env.translate translation)) := by
  induction env with
  | nil => exact .pure () id
  | cons declaration rest ih =>
    have bound := mirrors_bindName faithful.injective declaration.1.value
    rw [← Name.value_translate] at bound
    exact bound.bind fun _ => ih

theorem mirrors_bindKnown (known : translation name = name) :
    Mirrors translation id (bindText name) (bindText name) := by
  have mirrored := mirrors_bindText faithful.injective name
  rwa [known] at mirrored

theorem mirrors_propertyKnown (known : translation name = name) (type : TypeId) :
    Mirrors translation id (property type name) (property type name) := by
  have mirrored := mirrors_property faithful.injective type name
  rwa [known] at mirrored

theorem mirrors_boundKnown (known : translation name = name) (scope : Address) :
    Mirrors translation id (boundIn scope name) (boundIn scope name) := by
  have mirrored := mirrors_boundIn faithful.injective scope name
  rwa [known] at mirrored

theorem mirrors_variableKnown (known : translation name = name) :
    Mirrors translation id (variableNamed name) (variableNamed name) := by
  have mirrored := mirrors_variableNamed faithful.injective name
  rwa [known] at mirrored

theorem mirrors_enterFunction (scopes : Scopes) (address : Address) (isExpression : Bool)
    (name params : Field) (isKey : Bool) :
    Mirrors translation id (enterFunction scopes address isExpression name params)
      (enterFunction (scopes.translate translation) address isExpression
        (name.translate translation isKey) (params.translate translation false)) := by
  have found : (scopes.translate translation).env? address =
      (scopes.env? address).map (Env.translate translation) :=
    lookup_map_snd (Env.translate translation) scopes address
  unfold enterFunction
  rw [found, isNull_translate]
  refine mirrors_enterScope.bind fun _ => ?_
  lift_lets
  extract_lets bindReceiver bindOwn bindScope bindOwn' bindScope'
  have receiverBound : Mirrors translation id (bindReceiver ()) (bindReceiver ()) := by
    refine (mirrors_bindKnown faithful faithful.receiver).bind fun receiver => ?_
    refine (mirrors_bindKnown faithful faithful.result).bind fun result => ?_
    refine (mirrors_bindKnown faithful faithful.arguments).bind fun _ => ?_
    refine (mirrors_typeAt address).bind fun function => ?_
    refine (mirrors_propertyKnown faithful faithful.receiver function).bind fun own => ?_
    refine (mirrors_unify faithful.injective own receiver).bind fun _ => ?_
    refine (mirrors_propertyKnown faithful faithful.result function).bind fun own => ?_
    exact mirrors_unify faithful.injective own result
  have ownBound : Mirrors translation id (bindOwn ()) (bindOwn' ()) := by
    dsimp only [bindOwn, bindOwn']
    split
    · refine (mirrors_nameIn name isKey).bind fun own => ?_
      refine (mirrors_bindName faithful.injective own).bind fun type => ?_
      refine (mirrors_typeAt address).bind fun function => ?_
      refine (mirrors_unify faithful.injective function type).bind fun _ => ?_
      refine (mirrors_typeAt address).bind fun function => ?_
      exact (mirrors_setType _ function).bind fun _ => receiverBound
    · exact receiverBound
  have scopeBound : Mirrors translation id (bindScope ()) (bindScope' ()) := by
    dsimp only [bindScope, bindScope']
    cases scopes.env? address with
    | none => exact .throw_bind
    | some env => exact (mirrors_bindAll faithful env).bind fun _ => ownBound
  cases params with
  | list items => exact (mirrors_bindParameters faithful address 0 items).bind fun _ => scopeBound
  | _ => exact (mirrors_noItems _ false).bind fun _ => scopeBound

omit faithful in
theorem mirrors_markConstructor (address : Address) (field : Field) (isKey : Bool) :
    Mirrors translation id (markConstructor address field)
      (markConstructor address (field.translate translation isKey)) := by
  refine (mirrors_typeOf address field isKey).bind fun type => ?_
  refine (mirrors_markNamespace type).bind fun _ => ?_
  cases field with
  | node child =>
    obtain ⟨kind, fields, location⟩ := child
    cases kind with
    | memberExpression =>
      cases fields with
      | nil => exact .pure () id
      | cons object rest =>
        refine (mirrors_typeOf (inField address 0) object false).bind fun type => ?_
        exact mirrors_markNamespace type
    | _ => exact .pure () id
  | _ => exact .pure () id

theorem mirrors_passArguments (call function : Address) (place : Nat)
    (arguments parameters : List Field) :
    Mirrors translation id (passArguments call function place arguments parameters)
      (passArguments call function place (Field.translateItems translation arguments)
        (Field.translateItems translation parameters)) := by
  induction arguments generalizing place parameters with
  | nil => exact .pure () id
  | cons argument arguments ih =>
    cases parameters with
    | nil => exact .pure () id
    | cons parameter parameters =>
      refine (mirrors_nameIn parameter false).bind fun name => ?_
      cases name with
      | data value =>
        cases value with
        | text spelling =>
          refine (mirrors_boundIn faithful.injective function spelling).bind fun bound => ?_
          refine (mirrors_typeOf _ argument false).bind fun type => ?_
          refine (mirrors_unify faithful.injective type bound).bind fun _ => ?_
          exact ih (place + 1) parameters
        | _ => exact .throw
      | _ => exact .throw

theorem mirrors_finishCall (address : Address) (isNew : Bool) (callee arguments : Field) :
    Mirrors translation id (finishCall address isNew callee arguments)
      (finishCall address isNew (callee.translate translation false)
        (arguments.translate translation false)) := by
  unfold finishCall
  lift_lets
  extract_lets function mark addMethods mark' addMethods'
  have marks : Mirrors translation id (mark ()) (mark' ()) := by
    dsimp only [mark, mark']
    split
    · exact mirrors_markConstructor function callee false
    · exact .pure () id
  have rest : Mirrors translation id (addMethods ()) (addMethods' ()) := by
    cases callee with
    | node child =>
      obtain ⟨kind, fields, location⟩ := child
      cases kind with
      | memberExpression =>
        cases fields with
        | nil => exact marks
        | cons object rest =>
          refine (mirrors_typeAt function).bind fun type => ?_
          refine (mirrors_propertyKnown faithful faithful.receiver type).bind fun receiver => ?_
          refine (mirrors_typeOf (inField function 0) object false).bind fun base => ?_
          exact (mirrors_addMethod base receiver).bind fun _ => marks
      | _ => exact marks
    | _ => exact marks
  have reached (isNew : Bool) {tail tail' : Infer Unit} (rest : Mirrors translation id tail tail') :
      let action (tail : Infer Unit) : Infer Unit := do
        if isNew then
          let receiver ← property (← typeAt function) Synthetic.receiver
          unify (← typeAt address) receiver
        tail
      Mirrors translation id (action tail) (action tail') := by
    cases isNew with
    | false => exact rest
    | true =>
      refine (mirrors_typeAt _).bind fun type => ?_
      refine (mirrors_propertyKnown faithful faithful.receiver type).bind fun receiver => ?_
      refine (mirrors_typeAt address).bind fun type => ?_
      exact (mirrors_unify faithful.injective type receiver).bind fun _ => rest
  clear_value addMethods addMethods'
  cases callee with
  | node child =>
    obtain ⟨kind, fields, location⟩ := child
    cases kind with
    | functionExpression =>
      rcases fields with _ | ⟨id, _ | ⟨params, fields⟩⟩
      · exact reached isNew rest
      · exact reached isNew rest
      · dsimp only [Field.translate, Node.translate, Field.translateAll, Kind.translateName]
        rw [listed_translate, listed_translate]
        refine (mirrors_passArguments faithful _ _ _ _ _).bind fun _ => ?_
        refine (mirrors_boundKnown faithful faithful.result _).bind fun result => ?_
        refine (mirrors_typeAt address).bind fun type => ?_
        refine (mirrors_unify faithful.injective type result).bind fun _ => ?_
        refine (mirrors_boundKnown faithful faithful.receiver _).bind fun receiver => ?_
        split
        · refine (mirrors_typeAt address).bind fun type => ?_
          exact (mirrors_unify faithful.injective receiver type).bind fun _ => rest
        · exact (mirrors_unify faithful.injective receiver _).bind fun _ => rest
    | _ => exact reached isNew rest
  | _ => exact .throw_bind

theorem mirrors_finishMember (address : Address) (object property : Field) (computed : Bool)
    (base : TypeId) :
    Mirrors translation id (finishMember address object property computed base)
      (finishMember address (object.translate translation false)
        (property.translate translation true) computed base) := by
  unfold finishMember
  lift_lets
  extract_lets unifyNamed unifyNamed'
  have rest (name : Option Field) : Mirrors translation id (unifyNamed name)
      (unifyNamed' (name.map (Field.translateName translation))) := by
    cases name with
    | none =>
      refine (mirrors_typeOf _ property true).bind fun key => ?_
      refine (mirrors_propertyKnown faithful faithful.owner key).bind fun owner => ?_
      refine (mirrors_typeOf _ object false).bind fun type => ?_
      exact mirrors_unify faithful.injective owner type
    | some name =>
      refine (mirrors_propertyNamed faithful.injective base name).bind fun type => ?_
      refine (mirrors_typeAt address).bind fun own => ?_
      refine (mirrors_unify faithful.injective own type).bind fun _ => ?_
      rw [isWord_translateName faithful.injective faithful.prototype]
      split
      · exact mirrors_markConstructor _ object false
      · exact .pure () id
  cases computed with
  | true =>
    rw [stringIn?_translate]
    exact rest (stringIn? property)
  | false =>
    have named : Mirrors translation (Option.map (Field.translateName translation))
        (some <$> nameIn property) (some <$> nameIn (property.translate translation true)) := by
      rw [map_eq_pure_bind, map_eq_pure_bind]
      exact (mirrors_nameIn property true).bind fun name => .pure (some name) _
    exact named.bind rest

theorem mirrors_finishAccessor (type : TypeId) (function : Address) (isGetter : Bool)
    (params name : Field) :
    Mirrors translation id (finishAccessor type function isGetter params name)
      (finishAccessor type function isGetter (params.translate translation false)
        (name.translateName translation)) := by
  unfold finishAccessor
  lift_lets
  extract_lets unifyReceiver
  have rest : Mirrors translation id (unifyReceiver ()) (unifyReceiver ()) :=
    (mirrors_boundKnown faithful faithful.receiver function).bind fun receiver =>
      mirrors_unify faithful.injective type receiver
  cases isGetter with
  | true =>
    refine (mirrors_propertyNamed faithful.injective type name).bind fun property => ?_
    refine (mirrors_boundKnown faithful faithful.result function).bind fun result => ?_
    exact (mirrors_unify faithful.injective property result).bind fun _ => rest
  | false =>
    cases params with
    | list items =>
      cases items with
      | nil => exact rest
      | cons parameter items =>
        refine (mirrors_propertyNamed faithful.injective type name).bind fun property => ?_
        refine (mirrors_nameIn parameter false).bind fun own => ?_
        cases own with
        | data value =>
          cases value with
          | text spelling =>
            refine (mirrors_boundIn faithful.injective function spelling).bind fun bound => ?_
            exact (mirrors_unify faithful.injective property bound).bind fun _ => rest
          | _ => exact .throw_bind
        | _ => exact .throw_bind
    | _ => exact rest

end Functions

end Infer

end Namesake
