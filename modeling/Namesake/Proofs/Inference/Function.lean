import Namesake.Proofs.Inference.Step

/-!
To enter a function binds its parameters, the names that it declares, its receiver and its
result.
-/

namespace Namesake

open List World Constraint

namespace Infer

variable {α : Type} {constraints : Constraint → Prop} {typed entered : Address → Prop}
  {origin before middle : World} {address : Address} {env : TypeEnv} {file : String}
variable {category : Category} {declared : Env} {id : Field} {parameters : List Node}
  {callee : Node} {location : Option Location}
variable {spelling : Text}

/-- Where a function gives types when it is entered: to itself, its name and its parameters. -/
def AtHead (function address : Address) : Prop :=
  address = function ∨ ∃ step : Step, step.field < 2 ∧ address = step :: function

theorem AtHead.suffix {function : Address} (atHead : AtHead function address) :
    function <:+ address := by
  rcases atHead with rfl | ⟨step, _, rfl⟩
  · exact suffix_refl _
  · exact suffix_cons _ _

theorem Runs.nameIn_bind {next : Field → Infer α} {post : α → World → Prop}
    (runs : Runs (next (.data (.text spelling))) before post) :
    Runs (nameIn (.node (.mk .identifier [.data (.text spelling)] location)) >>= next) before
      post :=
  runs

theorem spelling?_identifier (spelling : Text) (location : Option Location) :
    Field.spelling? (.node (.mk .identifier [.data (.text spelling)] location)) = some spelling :=
  rfl

theorem runs_bindParameters (fit : ∀ parameter ∈ parameters, parameter.Fits file .identifier)
    (place : Nat) (opened : Opened constraints (AtHead address) address env before middle)
    (untyped : ∀ index, place ≤ index → middle.typing.type? (inItem address 1 index) = none)
    (demanded : ∀ demand ∈ ofParameters address place (parameters.map .node), constraints demand) :
    Runs (bindParameters address place (parameters.map .node)) middle fun _ after => ∃ env',
      Opened constraints (AtHead address) address env' before after ∧ middle.Extends after ∧
        (∀ other, (∀ index, other ≠ inItem address 1 index) →
          after.typing.type? other = middle.typing.type? other) ∧
        (∀ demand ∈ ofParameters address place (parameters.map .node), after.Satisfies demand) ∧
        ∀ name, (env'.lookup name).isSome = true ↔ (env.lookup name).isSome = true ∨
          name ∈ (parameters.map .node).filterMap Field.spelling? := by
  induction parameters generalizing place middle env with
  | nil =>
    refine .pure ⟨env, opened, .refl _, fun _ _ => rfl, ?_, fun name => by simp⟩
    intro demand member
    cases member
  | cons parameter rest ih =>
    rw [forall_mem_cons] at fit
    obtain ⟨spelling, location, rfl⟩ := fit.1.identifier (mem_singleton.1 fit.1.kind_mem)
    simp only [map_cons, ofParameters, spelling?_identifier, named, Option.elim_some,
      singleton_append, forall_mem_cons] at demanded ⊢
    refine Runs.nameIn_bind ?_
    refine (runs_bindText opened spelling).bind fun type first ran => ?_
    obtain ⟨env₁, opened₁, grown₁, types₁, ofType, names₁⟩ := ran
    have missing (index : Nat) (later : place ≤ index) :
        first.typing.type? (inItem address 1 index) = none := by
      rw [Typing.type?, types₁]
      exact untyped index later
    have start : Advance constraints (· = inItem address 1 place) (fun _ => False) first first :=
      .refl opened₁.good
    refine (runs_setType start (missing place (Nat.le_refl _)) ofType demanded.1 rfl).bind
      fun _ second ran => ?_
    obtain ⟨advance₂, grown₂, satisfied⟩ := ran
    have opened₂ := opened₁.advance (advance₂.mono
      (fun other same => .inr ⟨⟨1, some place⟩, Nat.one_lt_two, same⟩) fun _ no => no)
    have untyped₂ (index : Nat) (later : place + 1 ≤ index) :
        second.typing.type? (inItem address 1 index) = none := by
      rw [advance₂.types _ (by simp [inItem]; omega)]
      exact missing index (Nat.le_of_succ_le later)
    refine (ih fit.2 (place + 1) opened₂ untyped₂ demanded.2).mono fun _ third ran => ?_
    obtain ⟨env₃, opened₃, grown₃, types₃, satisfied₃, names₃⟩ := ran
    refine ⟨env₃, opened₃, grown₁.trans (grown₂.trans grown₃), fun other outside => ?_,
      ⟨grown₃.satisfies satisfied, satisfied₃⟩, fun name => ?_⟩
    · rw [types₃ other outside, advance₂.types other (outside place), Typing.type?, types₁]
      rfl
    · rw [names₃, names₁, filterMap_cons_some (spelling?_identifier spelling location),
        mem_cons, or_assoc]

theorem runs_bindAll (texts : ∀ entry ∈ declared, ∃ spelling, entry.1 = .text spelling)
    (opened : Opened constraints typed address env before middle) :
    Runs (bindAll declared) middle fun _ after => ∃ env',
      Opened constraints typed address env' before after ∧ middle.Extends after ∧
        after.typing.types = middle.typing.types ∧
        ∀ name, (env'.lookup name).isSome = true ↔ (env.lookup name).isSome = true ∨
          ∃ entry ∈ declared, entry.1 = .text name := by
  induction declared generalizing middle env with
  | nil => exact .pure ⟨env, opened, .refl _, rfl, fun name => by simp⟩
  | cons entry rest ih =>
    rw [forall_mem_cons] at texts
    obtain ⟨name, declaration⟩ := entry
    obtain ⟨⟨spelling, rfl⟩, restTexts⟩ := texts
    refine (runs_bindText opened spelling).bind fun _ first ran => ?_
    obtain ⟨env₁, opened₁, grown₁, types₁, _, names₁⟩ := ran
    refine (ih restTexts opened₁).mono fun _ second ran => ?_
    obtain ⟨env₂, opened₂, grown₂, types₂, names₂⟩ := ran
    refine ⟨env₂, opened₂, grown₁.trans grown₂, types₂.trans types₁, fun other => ?_⟩
    rw [names₂, names₁]
    simp only [mem_cons, exists_eq_or_imp, Name.text.injEq, @eq_comm _ other, or_assoc]

theorem runs_bindOwnName (opened : Opened constraints (AtHead address) address env before middle)
    (untyped : middle.typing.type? (inField address 0) = none)
    (demanded : ∀ demand ∈ ofOwnName address (.node (.mk .identifier [.data (.text spelling)]
      location)), constraints demand)
    {next : Infer α} {post : α → World → Prop}
    (goesOn : ∀ after env', Opened constraints (AtHead address) address env' before after →
      middle.Extends after → (∀ demand ∈ ofOwnName address (.node (.mk .identifier [.data (.text
      spelling)] location)), after.Satisfies demand) → (∀ name, (env'.lookup name).isSome = true ↔
      (env.lookup name).isSome = true ∨ name = spelling) → Runs next after post) :
    Runs (do
      let own ← bindText spelling
      unify (← typeAt address) own
      setType (inField address 0) (← typeAt address)
      next : Infer α) middle post := by
  simp only [ofOwnName, spelling?_identifier, named, Option.elim_some, forall_mem_cons,
    not_mem_nil, false_implies, implies_true, and_true] at demanded goesOn
  have mentioned : Mentions constraints address := ⟨_, demanded.1, by simp⟩
  refine (runs_bindText opened spelling).bind fun own first ran => ?_
  obtain ⟨env₁, opened₁, grown₁, types₁, ofOwn, names₁⟩ := ran
  have start : Advance constraints (· = address) (fun _ => False) first first := .refl opened₁.good
  refine (runs_typeAt start mentioned rfl).bind fun type second ran => ?_
  obtain ⟨advance₂, grown₂, ofType⟩ := ran
  refine (runs_unify advance₂ ofType (grown₂.denotes ofOwn) demanded.1).bind fun _ third ran => ?_
  obtain ⟨advance₃, grown₃, satisfied⟩ := ran
  refine (runs_typeAt advance₃ mentioned rfl).bind fun type fourth ran => ?_
  obtain ⟨advance₄, grown₄, ofType⟩ := ran
  have missing : fourth.typing.type? (inField address 0) = none := by
    rw [advance₄.types _ (by simp [inField]), Typing.type?, types₁]
    exact untyped
  have advance : Advance constraints (AtHead address) (fun _ => False) first fourth :=
    advance₄.mono (fun _ => .inl) fun _ no => no
  refine (runs_setType advance missing ofType demanded.2 (.inr ⟨⟨0, none⟩, by decide, rfl⟩)).bind
    fun _ fifth ran => ?_
  obtain ⟨advance₅, grown₅, satisfied'⟩ := ran
  refine goesOn fifth env₁ (opened₁.advance advance₅) (grown₁.trans advance₅.grown) ?_ names₁
  exact ⟨(grown₄.trans grown₅).satisfies satisfied, satisfied'⟩

/-- A world in a function that was entered, with what the head of the function demands.  The function
binds its parameters, what it declares, its own name, its receiver and its result. -/
structure Entered (constraints : Constraint → Prop) (function : Address) (isExpression : Bool)
    (id : Field) (parameters : List Field) (declared : Env) (before after : World)
    (env : TypeEnv) : Prop where
  opened : Opened constraints (AtHead function) function env before after
  ownName : isExpression = true → ∀ demand ∈ ofOwnName function id, after.Satisfies demand
  head : ∀ demand ∈ ofFunction function (.list parameters), after.Satisfies demand
  names : ∀ name, (env.lookup name).isSome = true ↔
    (name ∈ parameters.filterMap Field.spelling? ∨ (∃ entry ∈ declared, entry.1 = .text name) ∨
      (isExpression = true ∧ id.spelling? = some name)) ∨
    name = Synthetic.receiver ∨ name = Synthetic.result ∨ name = Text.ofString "arguments"

theorem runs_bindReceiver {isExpression : Bool} {parameters : List Field}
    (opened : Opened constraints (AtHead address) address env before middle)
    (ownName : isExpression = true → ∀ demand ∈ ofOwnName address id, middle.Satisfies demand)
    (satisfied : ∀ demand ∈ ofParameters address 0 parameters, middle.Satisfies demand)
    (demanded : ∀ demand ∈ ofFunction address (.list parameters), constraints demand)
    (names : ∀ name, (env.lookup name).isSome = true ↔ name ∈ parameters.filterMap Field.spelling?
      ∨ (∃ entry ∈ declared, entry.1 = .text name) ∨ (isExpression = true ∧ id.spelling? = some
      name)) :
    Runs (do
      let receiver ← bindText Synthetic.receiver
      let result ← bindText Synthetic.result
      let _ ← bindText (Text.ofString "arguments")
      let function ← typeAt address
      unify (← property function Synthetic.receiver) receiver
      unify (← property function Synthetic.result) result : Infer Unit) middle fun _ after =>
      ∃ env', Entered constraints address isExpression id parameters declared before after env' := by
  simp only [ofFunction, forall_mem_append, forall_mem_cons, not_mem_nil,
    false_implies, implies_true, and_true] at demanded
  obtain ⟨_, ofReceiver, ofResult⟩ := demanded
  refine (runs_bindText opened _).bind fun receiver first ran => ?_
  obtain ⟨env₁, opened₁, grown₁, _, isReceiver, names₁⟩ := ran
  refine (runs_bindText opened₁ _).bind fun result second ran => ?_
  obtain ⟨env₂, opened₂, grown₂, _, isResult, names₂⟩ := ran
  refine (runs_bindText opened₂ _).bind fun _ third ran => ?_
  obtain ⟨env₃, opened₃, grown₃, _, _, names₃⟩ := ran
  have does : Does ⟨constraints, AtHead address, fun _ => False, third⟩
      [(.bound address Synthetic.result, result), (.bound address Synthetic.receiver, receiver)]
      (do
        let function ← typeAt address
        unify (← property function Synthetic.receiver) receiver
        unify (← property function Synthetic.result) result) ()
      [ same (.property (.node address) Synthetic.receiver) (.bound address Synthetic.receiver),
        same (.property (.node address) Synthetic.result) (.bound address Synthetic.result) ] := by
    refine .typeAt ⟨_, ofReceiver, by simp⟩ (.inl rfl) fun function => ?_
    refine .property mem_cons_self ⟨_, ofReceiver, by simp⟩ fun own => ?_
    refine .unify (by simp) (by simp) ofReceiver ?_
    refine .property (mem_cons_of_mem _ mem_cons_self) ⟨_, ofResult, by simp⟩ fun own => ?_
    exact .last (.unify (by simp) (by simp) ofResult .done)
  have knows : Knows [(.bound address Synthetic.result, result),
      (.bound address Synthetic.receiver, receiver)] third :=
    forall_mem_cons.2 ⟨grown₃.denotes isResult,
      forall_mem_singleton.2 ((grown₂.trans grown₃).denotes isReceiver)⟩
  refine (does third (.refl opened₃.good) knows).mono fun _ last ran => ?_
  obtain ⟨_, advance₄, grown₄, satisfied₄⟩ := ran
  have grown := grown₁.trans (grown₂.trans (grown₃.trans grown₄))
  refine ⟨env₃, opened₃.advance advance₄, ?_, ?_, fun name => ?_⟩
  · exact fun isExpression demand member => grown.satisfies (ownName isExpression demand member)
  · exact forall_mem_append.2
      ⟨fun demand member => grown.satisfies (satisfied demand member), satisfied₄⟩
  · rw [names₃, names₂, names₁, names]
    simp only [or_assoc]

theorem runs_enterFunction (good : before.Good constraints) {scopes : Scopes}
    (found : scopes.env? address = some declared)
    (texts : ∀ entry ∈ declared, ∃ spelling, entry.1 = .text spelling) {isExpression : Bool}
    (idFits : id.Fits file (.optional .identifier))
    (fit : ∀ parameter ∈ parameters, parameter.Fits file .identifier)
    (untouched : before.Untouched address)
    (untyped : ∀ step : Step, before.typing.type? (step :: address) = none)
    (ownDemanded : isExpression = true → ∀ demand ∈ ofOwnName address id, constraints demand)
    (demanded : ∀ demand ∈ ofFunction address (.list (parameters.map .node)), constraints demand) :
    Runs (enterFunction scopes address isExpression id (.list (parameters.map .node))) before
      fun _ after => ∃ env, Entered constraints address isExpression id (parameters.map .node)
        declared before after env := by
  unfold enterFunction
  rw [found]
  refine (runs_enterScope (AtHead address) good untouched).bind fun _ first ran => ?_
  obtain ⟨opened₁, types₁⟩ := ran
  have untyped₁ (step : Step) : first.typing.type? (step :: address) = none := by
    rw [Typing.type?, types₁]
    exact untyped step
  refine (runs_bindParameters fit 0 opened₁ (fun _ _ => untyped₁ _)
    (forall_mem_append.1 demanded).1).bind
    fun _ second ran => ?_
  obtain ⟨env₂, opened₂, grown₂, types₂, satisfied₂, names₂⟩ := ran
  refine (runs_bindAll texts opened₂).bind fun _ third ran => ?_
  obtain ⟨env₃, opened₃, grown₃, types₃, names₃⟩ := ran
  simp only [lookup_nil, Option.isSome_none, Bool.false_eq_true, false_or] at names₂
  have satisfied₃ (demand : Constraint) (member : demand ∈ ofParameters address 0
      (parameters.map .node)) : third.Satisfies demand :=
    grown₃.satisfies (satisfied₂ demand member)
  split
  · rename_i hasName
    rw [Bool.and_eq_true] at hasName
    rcases Field.fits_optional.1 idFits with rfl | ⟨child, rfl, childFits⟩
    · simp [Field.isNull] at hasName
    · obtain ⟨spelling, location, rfl⟩ := childFits.identifier (mem_singleton.1 childFits.kind_mem)
      have untyped₃ : third.typing.type? (inField address 0) = none := by
        rw [Typing.type?, types₃]
        exact (types₂ (inField address 0) (by simp [inField, inItem])).trans (untyped₁ _)
      refine Runs.nameIn_bind ?_
      refine runs_bindOwnName opened₃ untyped₃ (ownDemanded hasName.1)
        fun fourth env₄ opened₄ grown₄ ownName₄ names₄ => ?_
      refine runs_bindReceiver opened₄ (fun _ => ownName₄)
        (fun demand member => grown₄.satisfies (satisfied₃ demand member)) demanded fun name => ?_
      rw [names₄, names₃, names₂, spelling?_identifier, Option.some.injEq, @eq_comm _ spelling]
      simp only [hasName.1, true_and, or_assoc]
  · rename_i noName
    have noSpelling : isExpression = true → id.spelling? = none := by
      intro isExpression
      rcases Field.fits_optional.1 idFits with rfl | ⟨child, rfl, _⟩
      · rfl
      · simp [isExpression, Field.isNull] at noName
    refine runs_bindReceiver opened₃ ?_ satisfied₃ demanded fun name => ?_
    · intro isExpression demand member
      rw [ofOwnName, noSpelling isExpression] at member
      cases member
    · rw [names₃, names₂]
      refine or_congr_right ⟨.inl, ?_⟩
      rintro (isDeclared | ⟨isExpression, isOwn⟩)
      · exact isDeclared
      · rw [noSpelling isExpression] at isOwn
        cases isOwn

variable {setting : Setting} {known : List (TypeName × TypeId)}

theorem exists_object {object : Field} {rest : List Field}
    (fits : (Node.mk .memberExpression (object :: rest) location).Fits file category) :
    ∃ child, object = .node child := by
  obtain ⟨_, _, slots, member, fit⟩ := fits
  rcases mem_pair.1 member with rfl | rfl
  all_goals
    obtain ⟨child, rfl, _⟩ := Field.fits_one.1 fit.1
    exact ⟨child, rfl⟩

theorem Does.nameIn {next : Field → Infer α} {result : α} {demands : List Constraint}
    (does : Does setting known (next (.data (.text spelling))) result demands) :
    Does setting known (Infer.nameIn (.node (.mk .identifier [.data (.text spelling)] location)) >>=
      next) result demands :=
  does

theorem does_markConstructor (fits : callee.Fits file category)
    (isTyped : ∀ other, address <:+ other → setting.typed other)
    (demanded : ∀ demand ∈ ofConstructor address (.node callee), setting.constraints demand) :
    Does setting known (markConstructor address (.node callee)) ()
      (ofConstructor address (.node callee)) := by
  have ownDemanded := demanded _ mem_cons_self
  refine .typeAt ⟨_, ownDemanded, by simp⟩ (isTyped _ (suffix_refl _)) fun type => ?_
  refine .markNamespace (by simp) ownDemanded ?_
  obtain ⟨kind, fields, location⟩ := callee
  cases kind with
  | memberExpression =>
    cases fields with
    | nil => exact .done
    | cons object rest =>
      obtain ⟨child, rfl⟩ := exists_object fits
      have objectDemanded := demanded _ (mem_cons_of_mem _ mem_cons_self)
      refine .typeAt ⟨_, objectDemanded, by simp⟩ (isTyped _ (suffix_cons _ _)) fun type => ?_
      exact .last (.markNamespace (by simp) objectDemanded .done)
  | _ => exact .done

theorem does_passArguments {function : Occurrence} (left : setting.origin.Left function)
    {arguments : List Node} (fit : ∀ parameter ∈ parameters, parameter.Fits file .identifier)
    (bound : ∀ name ∈ (parameters.map .node).filterMap Field.spelling?, function.binds name = true)
    (place : Nat) (isTyped : ∀ index, setting.typed (inItem address 1 index))
    (demanded : ∀ demand ∈ ofArguments address function.address place (arguments.map .node)
      (parameters.map .node), setting.constraints demand) :
    Does setting known (passArguments address function.address place (arguments.map .node)
      (parameters.map .node)) () (ofArguments address function.address place
        (arguments.map .node) (parameters.map .node)) := by
  induction arguments generalizing parameters place known with
  | nil => exact .done
  | cons argument arguments ih =>
    cases parameters with
    | nil => exact .done
    | cons parameter parameters =>
      rw [forall_mem_cons] at fit
      obtain ⟨spelling, location, rfl⟩ := fit.1.identifier (mem_singleton.1 fit.1.kind_mem)
      rw [map_cons, filterMap_cons_some (spelling?_identifier spelling location),
        forall_mem_cons] at bound
      simp only [map_cons, ofArguments, spelling?_identifier, named, Option.elim_some,
        singleton_append, forall_mem_cons] at demanded ⊢
      refine Does.nameIn (.boundIn left bound.1 fun type => ?_)
      refine .typeAt ⟨_, demanded.1, by simp⟩ (isTyped place) fun own => ?_
      exact .unify (by simp) (by simp) demanded.1 (ih fit.2 bound.2 (place + 1) demanded.2)

theorem does_callMethod (function : Address) (isNew : Bool) (fits : callee.Fits file category)
    (isTyped : ∀ other, function <:+ other → setting.typed other)
    (demanded : ∀ demand ∈ ofMethod function (.node callee) ++ (if isNew then ofConstructor
      function (.node callee) else []), setting.constraints demand) :
    Does setting known (do
      match Field.node callee with
      | .node (.mk .memberExpression (object :: _) _) =>
        let receiver ← property (← typeAt function) Synthetic.receiver
        let base ← typeOf (inField function 0) object
        addMethod base receiver
      | _ => pure ()
      if isNew then markConstructor function (.node callee)) ()
      (ofMethod function (.node callee) ++
        if isNew then ofConstructor function (.node callee) else []) := by
  obtain ⟨methodDemanded, constructorDemanded⟩ := forall_mem_append.1 demanded
  have finish {known : List (TypeName × TypeId)} : Does setting known
      (if isNew = true then markConstructor function (.node callee) else pure ()) ()
      (if isNew then ofConstructor function (.node callee) else []) := by
    cases isNew with
    | true => exact does_markConstructor fits isTyped constructorDemanded
    | false => exact .done
  dsimp only
  split
  · rename_i object rest location calleeEq
    cases calleeEq
    obtain ⟨child, rfl⟩ := exists_object fits
    have ownDemanded := methodDemanded _ mem_cons_self
    refine .typeAt ⟨_, ownDemanded, by simp⟩ (isTyped _ (suffix_refl _)) fun type => ?_
    refine .property mem_cons_self ⟨_, ownDemanded, by simp⟩ fun receiver => ?_
    refine .typeAt ⟨_, ownDemanded, by simp⟩ (isTyped _ (suffix_cons _ _)) fun base => ?_
    exact .addMethod (by simp) (by simp) ownDemanded finish
  · rename_i notMember
    have noMethod : ofMethod function (.node callee) = [] := by
      unfold ofMethod
      split
      · rename_i calleeEq
        exact absurd calleeEq (notMember _ _ _)
      · rfl
    rw [noMethod]
    exact finish

theorem binds_of_parameter {kind : Kind} {body : Field} {items : List Field}
    (isFunction : kind.isFunction = true) {name : Text}
    (member : name ∈ items.filterMap Field.spelling?) :
    Occurrence.binds ⟨address, .mk kind [id, .list items, body] location⟩ name = true := by
  obtain ⟨item, itemMember, spelled⟩ := mem_filterMap.1 member
  obtain ⟨index, itemFound⟩ := mem_iff_getElem?.1 itemMember
  obtain ⟨identifierLocation, rfl⟩ := Field.spelling?_eq_some.1 spelled
  have isDeclared : (Name.text name, inItem address 1 index) ∈ Occurrence.declarationsIn
      ⟨address, .mk kind [id, .list items, body] location⟩ 1 := by
    refine mem_filterMap.2 ⟨⟨inItem address 1 index, .mk .identifier [.data (.text name)]
      identifierLocation⟩, Occurrence.mem_inField_iff.2 ⟨⟨1, some index⟩, rfl, rfl, ?_⟩, rfl⟩
    simp [Node.child?, Node.fields, itemFound, Field.node?]
  refine Occurrence.binds_iff.2 (.inr ⟨inItem address 1 index, mem_append_left _ ?_⟩)
  unfold Kind.isFunction at isFunction
  rcases (by simpa using isFunction : kind = .functionDeclaration ∨ kind = .functionExpression)
    with rfl | rfl
  · exact mem_append_left _ isDeclared
  · exact mem_append_left _ (mem_append_left _ isDeclared)

theorem does_finishCall (isNew : Bool) (fits : callee.Fits file .expression) {arguments : List Node}
    (left : callee.kind = .functionExpression → setting.origin.Left ⟨inField address 0, callee⟩)
    (isTyped : setting.typed address)
    (calleeTyped : ∀ other, inField address 0 <:+ other → setting.typed other)
    (argumentsTyped : ∀ index, setting.typed (inItem address 1 index))
    (demanded : ∀ demand ∈ ofCall address isNew (.node callee) (.list (arguments.map .node)),
      setting.constraints demand) :
    Does setting known (finishCall address isNew (.node callee) (.list (arguments.map .node))) ()
      (ofCall address isNew (.node callee) (.list (arguments.map .node))) := by
  obtain ⟨demanded, restDemanded⟩ := forall_mem_append.1 demanded
  have finish {known : List (TypeName × TypeId)} : Does setting known _ () _ :=
    does_callMethod (inField address 0) isNew fits calleeTyped restDemanded
  unfold finishCall ofCall
  by_cases isFunction : callee.kind = .functionExpression
  · obtain ⟨id, parameters, body, location, rfl, _, fit, _⟩ := fits.function isFunction rfl
    have bound := left rfl
    have binds {name : Text} (synthetic : name = Synthetic.receiver ∨ name = Synthetic.result) :
        Occurrence.binds ⟨inField address 0, .mk .functionExpression
          [id, .list (parameters.map .node), .node body] location⟩ name = true :=
      Occurrence.binds_iff.2 (.inl ⟨rfl, synthetic⟩)
    rw [ofCallee] at demanded ⊢
    obtain ⟨argumentsDemanded, restDemanded⟩ := forall_mem_append.1 demanded
    rw [forall_mem_cons, forall_mem_singleton] at restDemanded
    obtain ⟨resultDemanded, receiverDemanded⟩ := restDemanded
    rw [append_assoc]
    refine .seq (does_passArguments bound fit (fun name => binds_of_parameter rfl) 0 argumentsTyped
      argumentsDemanded) ?_
    refine .boundIn bound (binds (.inr rfl)) fun result => ?_
    refine .typeAt ⟨_, resultDemanded, by simp⟩ isTyped fun type => ?_
    refine .unify (by simp) (by simp) resultDemanded ?_
    refine .boundIn bound (binds (.inl rfl)) fun receiver => ?_
    cases isNew with
    | true =>
      refine .typeAt ⟨_, resultDemanded, by simp⟩ isTyped fun type => ?_
      exact .unify (by simp) (by simp) receiverDemanded finish
    | false => exact .global (.unify (by simp) (by simp) receiverDemanded finish)
  · have other (id params : Field) (rest : List Field) (location : Option Location) :
        Field.node callee ≠ .node (.mk .functionExpression (id :: params :: rest) location) := by
      intro same
      exact isFunction (by rw [Field.node.inj same]; rfl)
    have callee_eq : ofCallee address isNew (.node callee) (.list (arguments.map .node)) =
        if isNew then [same (.node address)
          (.property (.node (inField address 0)) Synthetic.receiver)] else [] := by
      unfold ofCallee
      split
      · rename_i calleeEq
        exact absurd calleeEq (other _ _ _ _)
      · rfl
    rw [callee_eq] at demanded ⊢
    dsimp only
    split
    · rename_i calleeEq
      exact absurd calleeEq (other _ _ _ _)
    · cases isNew with
      | true =>
        have ownDemanded := demanded _ mem_cons_self
        refine .typeAt ⟨_, ownDemanded, by simp⟩ (calleeTyped _ (suffix_refl _))
          fun type => ?_
        refine .property mem_cons_self ⟨_, ownDemanded, by simp⟩ fun receiver => ?_
        refine .typeAt ⟨_, ownDemanded, by simp⟩ isTyped fun own => ?_
        exact .unify (by simp) (by simp) ownDemanded finish
      | false => exact finish
    · rename_i notNode
      exact absurd rfl (notNode callee)

theorem text_of_stringIn? {field name : Field} (found : stringIn? field = some name) :
    ∃ spelling, name = .data (.text spelling) := by
  unfold stringIn? at found
  split at found
  · rename_i value _ _
    exact ⟨value, (Option.some.inj found).symm⟩
  · cases found

theorem keySpelling?_of_keyName? {key : Node} (fits : key.Fits file .key) {name : Field}
    (found : keyName? (.node key) = some name) :
    ∃ spelling, name = .data (.text spelling) ∧ (Field.node key).keySpelling? = some spelling := by
  have isText : ∃ spelling, name = .data (.text spelling) := by
    rcases mem_pair.1 fits.kind_mem with isIdentifier | isLiteral
    · obtain ⟨spelling, location, rfl⟩ := fits.identifier isIdentifier
      exact ⟨spelling, (Option.some.inj found).symm⟩
    · obtain ⟨value, raw, regex, location, rfl⟩ := fits.literal isLiteral
      exact text_of_stringIn? found
  obtain ⟨spelling, rfl⟩ := isText
  exact ⟨spelling, rfl, by rw [Field.keySpelling?, found]; rfl⟩

theorem does_finishMember {object key : Node} (objectFits : object.Fits file category)
    {computed : Bool} (keyFits : computed = false → key.Fits file .identifier) {base : TypeId}
    (ofBase : (.node (inField address 0), base) ∈ known) (isTyped : setting.typed address)
    (objectTyped : ∀ other, inField address 0 <:+ other → setting.typed other)
    (keyTyped : setting.typed (inField address 1))
    (demanded : ∀ demand ∈ ofMember address (.node object) (.node key) computed,
      setting.constraints demand) :
    Does setting known (finishMember address (.node object) (.node key) computed base) ()
      (ofMember address (.node object) (.node key) computed) := by
  have isNamed {spelling : Text} (memberEq : memberName? (.node key) computed = some spelling) :
      Does setting known (do
        let type ← propertyNamed base (.data (.text spelling))
        unify (← typeAt address) type
        if (Field.data (.text spelling)).isWord "prototype" then
          markConstructor (inField address 0) (.node object)) ()
        (ofMember address (.node object) (.node key) computed) := by
    rw [ofMember, memberEq] at demanded ⊢
    rw [forall_mem_cons] at demanded
    have isWord : (Field.data (.text spelling)).isWord "prototype" = true ↔
        spelling = Text.ofString "prototype" := by
      simp [Field.isWord, Data.same, Data.ofString]
    refine .property ofBase ⟨_, demanded.1, by simp⟩ fun type => ?_
    refine .typeAt ⟨_, demanded.1, by simp⟩ isTyped fun own => ?_
    refine .unify (by simp) (by simp) demanded.1 (.ite (fun isPrototype => ?_) fun notPrototype => ?_)
    · rw [isWord] at isPrototype
      rw [if_pos isPrototype] at demanded ⊢
      exact does_markConstructor objectFits objectTyped demanded.2
    · rw [isWord] at notPrototype
      rw [if_neg notPrototype]
      exact .done
  have unnamed (memberEq : memberName? (.node key) computed = none) : Does setting known (do
      let key ← typeAt (inField address 1)
      let owner ← property key Synthetic.owner
      unify owner (← typeAt (inField address 0))) ()
      (ofMember address (.node object) (.node key) computed) := by
    rw [ofMember, memberEq] at demanded ⊢
    rw [forall_mem_singleton] at demanded
    refine .typeAt ⟨_, demanded, by simp⟩ keyTyped fun type => ?_
    refine .property mem_cons_self ⟨_, demanded, by simp⟩ fun owner => ?_
    refine .typeAt ⟨_, demanded, by simp⟩ (objectTyped _ (suffix_refl _)) fun own => ?_
    exact .last (.unify (by simp) (by simp) demanded .done)
  unfold finishMember
  cases computed with
  | false =>
    obtain ⟨spelling, location, rfl⟩ :=
      (keyFits rfl).identifier (mem_singleton.1 (keyFits rfl).kind_mem)
    exact isNamed rfl
  | true =>
    cases found : stringIn? (.node key) with
    | some name =>
      obtain ⟨spelling, rfl⟩ := text_of_stringIn? found
      exact isNamed (by simp [memberName?, found, Field.text?])
    | none => exact unnamed (by simp [memberName?, found])

theorem does_finishAccessor {owner : TypeName} {type : TypeId} (ofOwner : (owner, type) ∈ known)
    {function : Address} {kind : Kind} {body : Field} (isFunction : kind.isFunction = true)
    (left : setting.origin.Left
      ⟨function, .mk kind [id, .list (parameters.map .node), body] location⟩)
    (fit : ∀ parameter ∈ parameters, parameter.Fits file .identifier) (isGetter : Bool)
    (name : Text)
    (demanded : ∀ demand ∈ ofAccessor owner function isGetter (.node (.mk kind [id, .list
      (parameters.map .node), body] location)) name, setting.constraints demand) :
    Does setting known
      (finishAccessor type function isGetter (.list (parameters.map .node)) (.data (.text name))) ()
      (ofAccessor owner function isGetter
        (.node (.mk kind [id, .list (parameters.map .node), body] location)) name) := by
  obtain ⟨demanded, receiverDemanded⟩ := forall_mem_append.1 demanded
  rw [forall_mem_singleton] at receiverDemanded
  have synthetic {text : Text} (either : text = Synthetic.receiver ∨ text = Synthetic.result) :
      Occurrence.binds ⟨function, .mk kind [id, .list (parameters.map .node), body] location⟩ text =
        true :=
    Occurrence.binds_iff.2 (.inl ⟨isFunction, either⟩)
  have finish {known : List (TypeName × TypeId)} (ofOwner : (owner, type) ∈ known) :
      Does setting known (do unify type (← boundIn function Synthetic.receiver)) ()
        [same owner (.bound function Synthetic.receiver)] := by
    refine .boundIn left (synthetic (.inl rfl)) fun receiver => ?_
    exact .last (.unify (by simp [ofOwner]) (by simp) receiverDemanded .done)
  -- The type of the property is unified with what the accessor returns or takes.
  have unified {bound : Text} (isBound : Occurrence.binds
      ⟨function, .mk kind [id, .list (parameters.map .node), body] location⟩ bound = true)
      (demanded : setting.constraints (same (.property owner name) (.bound function bound))) :
      Does setting known (do
        let property ← property type name
        unify property (← boundIn function bound)
        unify type (← boundIn function Synthetic.receiver)) ()
        ([same (.property owner name) (.bound function bound)] ++
          [same owner (.bound function Synthetic.receiver)]) := by
    refine .property ofOwner ⟨_, demanded, by simp⟩ fun property => ?_
    refine .boundIn left isBound fun own => ?_
    exact .unify (by simp) (by simp) demanded (finish (by simp [ofOwner]))
  unfold finishAccessor
  cases isGetter with
  | true => exact unified (synthetic (.inr rfl)) (demanded _ mem_cons_self)
  | false =>
    cases parameters with
    | nil => exact finish ofOwner
    | cons parameter parameters =>
      obtain ⟨bound, boundLocation, rfl⟩ := (fit parameter mem_cons_self).identifier
        (mem_singleton.1 (fit parameter mem_cons_self).kind_mem)
      refine unified (binds_of_parameter isFunction ?_) (demanded _ mem_cons_self)
      simp [spelling?_identifier]

end Infer

end Namesake
