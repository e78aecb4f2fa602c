import Namesake.Proofs.Inference.Visit

/-!
A statement can be visited if what is below it can.  Most statements visit their parts one after
the other; a catch clause and a function also begin a scope and leave it.
-/

namespace Namesake

open Node Field List World Constraint

namespace Infer

variable {root : Node} {address : Address} {kind : Kind} {fields : List Field}
  {location : Option Location} {file : String} {use : Use} {before : World}
variable {category : Category}

theorem Below.clause (below : Below root address) {clause : Node}
    (inside : (⟨address, clause⟩ : Occurrence).IsIn root) (fits : clause.Fits file .clause)
    {primitive : Bool} (used : root.use? address = some (.clause primitive)) :
    Visits root address (visitCase root.scopes primitive address (.node clause)) () := by
  obtain ⟨kind, fields, location⟩ := clause
  obtain rfl : kind = .switchCase := mem_singleton.1 fits.kind_mem
  obtain ⟨test, consequent, fieldsEq, testFits, consequentFits⟩ := (fits.allFit_of rfl).two
  obtain rfl : fields = [test, consequent] := fieldsEq
  intro before ready
  have reached := Reached.start inside used ready
  refine below.expression reached rfl rfl (by decide) testFits rfl fun _ _ reached => ?_
  refine (below.statements reached rfl rfl consequentFits fun _ => rfl).mono
    fun _ _ reached => ⟨rfl, reached.finishIdle (Nat.le_refl 2) rfl rfl⟩

theorem Below.runs_declarator {α : Type} (below : Below root address) {id : Node} {init : Field}
    (inside : (⟨address, .mk .variableDeclarator [.node id, init] location⟩ : Occurrence).IsIn root)
    (used : root.use? address = some use) (idFits : id.Fits file .identifier)
    (initFits : init.Fits file (.optional .expression)) (ready : Ready root address before)
    {next : Infer α} {post : α → World → Prop}
    (goesOn : ∀ after, Within root.Demands address before after → Done root after address →
      Runs next after post) :
    Runs (do
      let binding ← variableType (← nameIn (.node id))
      let primitive ← visitExpression root.scopes false (inField address 1) init
      if !init.isNull && !primitive then
        unify binding (← typeOf (inField address 1) init)
      setType (inField address 0) binding
      next : Infer α) before post := by
  obtain ⟨spelling, idLocation, rfl⟩ := idFits.identifier (mem_singleton.1 idFits.kind_mem)
  have start := Reached.start inside used ready
  have demanded (demand : Constraint) (member : demand ∈ (if !init.isNull && !init.isPrimitive then
        [same (root.resolve address spelling) (.node (inField address 1))] else []) ++
        [same (.node (inField address 0)) (root.resolve address spelling)]) :
      root.Demands demand :=
    start.demanded member
  obtain ⟨initDemanded, idDemanded⟩ := forall_mem_append.1 demanded
  rw [forall_mem_singleton] at idDemanded
  refine Runs.nameIn_bind ?_
  refine (runs_variableNamed start.still start.stands ⟨_, idDemanded, by simp⟩).bind
    fun binding first ran => ?_
  obtain ⟨advance₁, grown₁, isBinding⟩ := ran
  have missing₁ : first.typing.type? (inField address 0) = none := by
    rw [advance₁.types _ ?_]
    · exact (ready.fresh _ (suffix_cons _ _)).type
    · rintro (same | ⟨step, before, _⟩)
      · exact absurd same (by simp [inField])
      · exact step.not_before_zero before
  have reached₁ := (start.own advance₁).skipField fun step isField _ =>
    .inl (by simp [useIn?, isField])
  refine below.expression reached₁ rfl rfl (by decide) initFits rfl
    fun second within₂ reached₂ => ?_
  have missing₂ : second.typing.type? (inField address 0) = none := by
    rw [within₂.types _ ?_, missing₁]
    exact fun below => absurd (eq_of_cons_suffix below (suffix_refl _)) (by simp)
  have isBinding₂ := within₂.grown.denotes isBinding
  -- The name has its type last; what comes before only reads the type of the first value.
  have finish {third : World} (advance : Advance root.Demands (· = inField address 1)
      (fun _ => False) second third)
      (satisfied : ∀ demand ∈ (if !init.isNull && !init.isPrimitive then
        [same (root.resolve address spelling) (.node (inField address 1))] else []),
        third.Satisfies demand) :
      Runs (do
        setType (inField address 0) binding
        next : Infer α) third post := by
    have advance' : Advance root.Demands (Around address 2 0) (Around address 2 0) second third :=
      advance.mono (fun _ same => .of_field ⟨1, none⟩ Nat.one_lt_two (same ▸ suffix_refl _))
        fun _ no => no.elim
    have missing : third.typing.type? (inField address 0) = none := by
      rw [advance.types _ (by simp [inField]), missing₂]
    refine (runs_setType advance' missing (advance.grown.denotes isBinding₂) idDemanded
      (.of_field ⟨0, none⟩ Nat.two_pos (suffix_refl _))).bind
      fun _ last ran => ?_
    obtain ⟨advance₄, grown₄, isSet⟩ := ran
    obtain ⟨within, done⟩ := (reached₂.own advance₄).finishPlain (Nat.le_refl 2) rfl <|
      forall_mem_append.2 ⟨fun demand member => grown₄.satisfies (satisfied demand member),
        forall_mem_singleton.2 isSet⟩
    exact goesOn last within done
  have start₂ : Advance root.Demands (· = inField address 1) (fun _ => False) second second :=
    .refl within₂.good
  refine Runs.ite (fun isUsed => ?_) fun notUsed => ?_
  · rw [if_pos isUsed, forall_mem_singleton] at initDemanded
    have mentioned : Mentions root.Demands (inField address 1) := ⟨_, initDemanded, by simp⟩
    rcases fits_optional.1 initFits with rfl | ⟨value, rfl, _⟩
    · simp [Field.isNull] at isUsed
    · refine (runs_typeAt start₂ mentioned rfl).bind fun type third ran => ?_
      obtain ⟨advance₃, grown₃, isType⟩ := ran
      refine (runs_unify advance₃ (grown₃.denotes isBinding₂) isType initDemanded).bind
        fun _ fourth ran => ?_
      obtain ⟨advance₄, _, satisfied⟩ := ran
      refine finish advance₄ ?_
      rw [if_pos isUsed]
      exact forall_mem_singleton.2 satisfied
  · refine finish start₂ ?_
    rw [if_neg notUsed]
    simp

theorem Below.variables (below : Below root address) {declarations word : Field}
    (inside : (⟨address, .mk .variableDeclaration [declarations, word] location⟩ :
      Occurrence).IsIn root) (used : root.use? address = some use)
    (fits : declarations.Fits file (.many .declarator))
    (wordFits : word.Fits file (.word "var")) :
    Visits root address (visitDeclarations root.scopes address declarations) () := by
  obtain ⟨children, rfl, fit⟩ := fits_many.1 fits
  obtain rfl := fits_word.1 wordFits
  intro before ready
  refine (runs_items (visitDeclarationItems root.scopes address) rfl rfl (fun _ => rfl)
    (fun member childIn childUsed ready goesOn => ?_) (Reached.start inside used ready)).mono
    fun _ _ reached => ⟨rfl, (reached.skipData rfl).finishIdle (Nat.le_refl 2) rfl rfl⟩
  have childFits := fit _ member
  obtain ⟨id, init, location, rfl, idFits, initFits⟩ :=
    childFits.variableDeclarator (mem_singleton.1 childFits.kind_mem)
  exact (below.inner _).runs_declarator childIn childUsed idFits initFits ready goesOn

theorem Below.returnStatement (below : Below root address) {argument : Field}
    (inside : (⟨address, .mk .returnStatement [argument] location⟩ : Occurrence).IsIn root)
    (used : root.use? address = some use) (fits : argument.Fits file (.optional .expression)) :
    Visits root address (visitStatement root.scopes address
      (.node (.mk .returnStatement [argument] location))) () := by
  intro before ready
  have reached := Reached.start inside used ready
  rcases fits_optional.1 fits with rfl | ⟨value, rfl, _⟩
  · exact .pure ⟨rfl, (reached.skipData rfl).finishIdle (Nat.le_refl 1) rfl rfl⟩
  · refine below.expression reached rfl rfl (by decide) fits rfl fun _ _ reached => ?_
    have demanded := reached.demanded mem_cons_self
    refine reached.finishes (Nat.le_refl 1) rfl .nil (.variableNamed reached.stands
      ⟨_, demanded, by simp⟩ fun result => ?_)
    refine .typeAt ⟨_, demanded, by simp⟩ (.of_field ⟨0, none⟩ Nat.one_pos (suffix_refl _))
      fun type => ?_
    exact .last (.unify (by simp) (by simp) demanded .done)

theorem binds_catchClause {spelling : Text} {parameterLocation : Option Location} {body : Field}
    {name : Text} :
    Occurrence.binds ⟨address, .mk .catchClause
      [.node (.mk .identifier [.data (.text spelling)] parameterLocation), body] location⟩ name =
        true ↔ name = spelling := by
  have declared : Occurrence.declaration? ⟨⟨0, none⟩ :: address,
      .mk .identifier [.data (.text spelling)] parameterLocation⟩ =
        some (.text spelling, ⟨0, none⟩ :: address) := rfl
  rw [Occurrence.binds_iff]
  simp only [Occurrence.declarations, Occurrence.ownDeclarations, Node.kind,
    Scopes.declarationsIn_zero_node, declared]
  simp [Kind.isFunction]

theorem Below.catchClause (below : Below root address) {clause : Node}
    (inside : (⟨address, clause⟩ : Occurrence).IsIn root) (isClause : clause.kind = .catchClause)
    (used : root.use? address = some .statement) (fits : clause.Fits file category) :
    Visits root address (visitStatement root.scopes address (.node clause)) () := by
  obtain ⟨parameter, body, location, rfl, parameterFits, bodyFits⟩ := fits.nodes isClause rfl
  obtain ⟨spelling, _, rfl⟩ := parameterFits.identifier (mem_singleton.1 parameterFits.kind_mem)
  intro before ready
  have start := Reached.start inside used ready
  have demanded := start.demanded mem_cons_self
  have bodyUsed : root.use? (inField address 1) = some .statement := start.use?_cons _
  have visited := below _ _ (Occurrence.isIn_field inside 1 rfl) (suffix_refl _)
  refine (runs_enterScope (· = inField address 0) ready.good
    (ready.fresh _ (suffix_refl _))).bind fun _ first ran => ?_
  obtain ⟨opened₁, types₁⟩ := ran
  refine Runs.nameIn_bind ?_
  refine (runs_bindText opened₁ spelling).bind fun type second ran => ?_
  obtain ⟨env, opened₂, grown₂, types₂, isType, names⟩ := ran
  have missing : second.typing.type? (inField address 0) = none := by
    rw [Typing.type?, types₂, types₁]
    exact (ready.fresh _ (suffix_cons _ _)).type
  have start₂ : Advance root.Demands (· = inField address 0) (fun _ => False) second second :=
    .refl opened₂.good
  refine (runs_setType start₂ missing isType demanded rfl).bind fun _ third ran => ?_
  obtain ⟨advance₃, _, satisfied⟩ := ran
  rw [← show (leaveScope address >>= fun _ => pure ()) = leaveScope address from bind_pure_unit]
  refine runs_scopeBody inside used rfl ready (opened₂.advance advance₃) (fun name => ?_)
    (fun _ same => same ▸ suffix_cons _ _) ?_ (Nat.le_refl 2) rfl (fun step less => ?_)
    (visited.statement (by decide) bodyFits bodyUsed) fun last reached grown left => ?_
  · rw [names, binds_catchClause]
    simp
  · rintro other below rfl
    exact absurd (eq_of_cons_suffix below (suffix_refl _)) (by simp)
  · simp [useIn?, Nat.ne_of_lt less]
  · exact .pure ⟨rfl, reached.finish (Nat.le_refl 2)
      (forall_mem_singleton.2 (grown.satisfies satisfied)) fun _ => left⟩

theorem Below.functionDeclaration (shaped : root.Shaped) (below : Below root address)
    {declaration : Node} (inside : (⟨address, declaration⟩ : Occurrence).IsIn root)
    (isDeclaration : declaration.kind = .functionDeclaration)
    (used : root.use? address = some .statement) (fits : declaration.Fits file category) :
    Visits root address (visitStatement root.scopes address (.node declaration)) () := by
  obtain ⟨id, parameters, body, location, rfl, idFits, fit, bodyFits⟩ :=
    fits.functionDeclaration isDeclaration
  obtain ⟨spelling, idLocation, rfl⟩ := idFits.identifier (mem_singleton.1 idFits.kind_mem)
  intro before ready
  have start := Reached.start inside used ready
  have demanded (demand : Constraint) (member : demand ∈
      ofFunction address (.list (parameters.map .node)) ++
        [same (.node address) (root.resolve address spelling)]) : root.Demands demand :=
    start.demanded member
  obtain ⟨headDemanded, nameDemanded⟩ := forall_mem_append.1 demanded
  rw [forall_mem_singleton] at nameDemanded
  refine below.runs_function shaped inside used rfl false (by simp)
    (fits_optional.2 (.inr ⟨_, rfl, idFits⟩)) fit bodyFits ready (by simp)
    headDemanded fun first reached left _ satisfied => ?_
  have does : Does (around root address 3 0 first) [] (do
      let type ← variableNamed spelling
      unify (← typeAt address) type) () [same (.node address) (root.resolve address spelling)] := by
    refine .variableNamed reached.stands ⟨_, nameDemanded, by simp⟩ fun type => ?_
    refine .typeAt ⟨_, nameDemanded, by simp⟩ .self fun own => ?_
    exact .last (.unify (by simp) (by simp) nameDemanded .done)
  refine (reached.does .nil does).mono fun _ last ran => ⟨rfl, ?_⟩
  obtain ⟨_, grown, reached, nameSatisfied⟩ := ran
  refine reached.finish (Nat.le_refl 3) (forall_mem_append.2 ⟨?_, nameSatisfied⟩)
    fun _ => grown.left left
  exact fun demand member => grown.satisfies (satisfied demand member)

theorem Below.loopVariables (below : Below root address)
    (reached : Reached root ⟨address, .mk kind fields location⟩ use 0 0 before before)
    (notScope : (mk kind fields location).isShadowing = false) {declaration : Node}
    (found : fields[0]? = some (.node declaration)) (fits : declaration.Fits file .variables)
    (used : (Field.node declaration).isDeclaration = true →
      (mk kind fields location).useIn? use ⟨0, none⟩ = some .statement) :
    ∃ declarations word innerLocation,
      declaration = .mk .variableDeclaration [declarations, word] innerLocation ∧
        Runs (visitDeclarations root.scopes (inField address 0) declarations) before fun _ after =>
          Reached root ⟨address, .mk kind fields location⟩ use 1 0 before after := by
  obtain ⟨innerKind, innerFields, innerLocation⟩ := declaration
  obtain rfl : innerKind = .variableDeclaration := mem_singleton.1 fits.kind_mem
  obtain ⟨declarations, word, fieldsEq, declarationsFit, wordFits⟩ := (fits.allFit_of rfl).two
  obtain rfl : innerFields = [declarations, word] := fieldsEq
  refine ⟨declarations, word, innerLocation, rfl, ?_⟩
  have visits := (below.inner _).variables (Occurrence.isIn_field reached.inside 0 found)
    ((reached.use?_cons _).trans (used rfl)) declarationsFit wordFits
  exact (visits before (reached.readyField notScope found)).mono
    fun _ _ ran => reached.passField found ran.2.1 ran.2.2

theorem notVariables_of_fits {head : Field} (fits : head.Fits file (.optional category))
    (other : .variableDeclaration ∉ category.kinds) :
    head.isDeclaration = false ∧ ∀ declarations word location,
      head = .node (.mk .variableDeclaration [declarations, word] location) → False := by
  have notVariables : head.isDeclaration = false := by
    rcases fits_optional.1 fits with rfl | ⟨child, rfl, childFits⟩
    · rfl
    · exact decide_eq_false fun kindEq => other (kindEq ▸ childFits.kind_mem)
  refine ⟨notVariables, fun declarations word location headEq => ?_⟩
  rw [headEq] at notVariables
  cases notVariables

theorem Below.forStatement (below : Below root address)
    (inside : (⟨address, .mk .forStatement fields location⟩ : Occurrence).IsIn root)
    (used : root.use? address = some .statement)
    (fits : (mk .forStatement fields location).Fits file category) :
    Visits root address
      (visitStatement root.scopes address (.node (.mk .forStatement fields location))) () := by
  obtain ⟨slots, member, fit⟩ := fits.allFit
  intro before ready
  have reached := Reached.start inside used ready
  rcases mem_pair.1 member with rfl | rfl
  all_goals
    obtain ⟨init, rest, fieldsEq, initFits, restFit⟩ := allFit_cons.1 fit
    obtain ⟨test, update, body, rfl, testFits, updateFits, bodyFits⟩ := restFit.three
    obtain rfl : fields = [init, test, update, body] := fieldsEq
    have finish {first : World} (reached : Reached root
        ⟨address, .mk .forStatement [init, test, update, body] location⟩ .statement 1 0 before
        first) : Runs (do
          let _ ← visitExpression root.scopes true (inField address 1) test
          let _ ← visitExpression root.scopes true (inField address 2) update
          visitStatement root.scopes (inField address 3) body) first fun answer after =>
            answer = () ∧ Within root.Demands address before after ∧ Done root after address := by
      refine below.expression reached rfl rfl (by decide) testFits rfl fun _ _ reached => ?_
      refine below.expression reached rfl rfl (by decide) updateFits rfl fun _ _ reached => ?_
      exact (below.statement reached rfl rfl (by decide) bodyFits.optional rfl).mono
        fun _ _ reached => ⟨rfl, reached.finishIdle (Nat.le_refl 4) rfl rfl⟩
  · obtain ⟨declaration, rfl, declarationFits⟩ := fits_one.1 initFits
    obtain ⟨declarations, word, innerLocation, rfl, visits⟩ := below.loopVariables reached rfl rfl
      declarationFits fun isVariables => by simp [useIn?, isVariables]
    exact visits.bind fun _ _ reached => finish reached
  · obtain ⟨notVariables, other⟩ := notVariables_of_fits initFits (by decide)
    rw [visitStatement]
    · exact below.expression reached rfl rfl (by decide) initFits (by simp [useIn?, notVariables])
        fun _ _ => finish
    · exact other

theorem Below.forInStatement (below : Below root address)
    (inside : (⟨address, .mk .forInStatement fields location⟩ : Occurrence).IsIn root)
    (used : root.use? address = some .statement)
    (fits : (mk .forInStatement fields location).Fits file category) :
    Visits root address
      (visitStatement root.scopes address (.node (.mk .forInStatement fields location))) () := by
  obtain ⟨slots, member, fit⟩ := fits.allFit
  intro before ready
  have reached := Reached.start inside used ready
  rcases mem_pair.1 member with rfl | rfl
  all_goals
    obtain ⟨left, right, body, fieldsEq, leftFits, rightFits, bodyFits⟩ := fit.three
    obtain rfl : fields = [left, right, body] := fieldsEq
    have finish {first : World} (reached : Reached root
        ⟨address, .mk .forInStatement [left, right, body] location⟩ .statement 1 0 before first) :
        Runs (do
          let _ ← visitExpression root.scopes false (inField address 1) right
          visitStatement root.scopes (inField address 2) body) first fun answer after =>
            answer = () ∧ Within root.Demands address before after ∧ Done root after address := by
      refine below.expression reached rfl rfl (by decide) rightFits.optional rfl
        fun _ _ reached => ?_
      exact (below.statement reached rfl rfl (by decide) bodyFits.optional rfl).mono
        fun _ _ reached => ⟨rfl, reached.finishIdle (Nat.le_refl 3) rfl rfl⟩
    obtain ⟨child, rfl, childFits⟩ := fits_one.1 leftFits
  · obtain ⟨declarations, word, innerLocation, rfl, visits⟩ := below.loopVariables reached rfl rfl
      childFits fun isVariables => by simp [useIn?, isVariables]
    exact visits.bind fun _ _ reached => finish reached
  · obtain ⟨notVariables, other⟩ := notVariables_of_fits leftFits.optional (by decide)
    rw [visitStatement]
    · exact below.expression reached rfl rfl (by decide) leftFits.optional
        (by simp [useIn?, notVariables]) fun _ _ => finish
    · exact other

theorem Below.visitsStatement (shaped : root.Shaped) {place : Occurrence}
    (below : Below root place.address) (inside : place.IsIn root)
    (used : root.use? place.address = some .statement)
    (kinds : category.kinds ⊆ .catchClause :: Category.statement.kinds)
    (fits : place.node.Fits file category) :
    Visits root place.address (visitStatement root.scopes place.address (.node place.node)) () := by
  obtain ⟨address, kind, fields, location⟩ := place
  dsimp only at below used fits ⊢
  have member : kind ∈ .catchClause :: Category.statement.kinds := kinds fits.kind_mem
  intro before ready
  have reached := Reached.start inside used ready
  cases kind with
  | emptyStatement | debuggerStatement =>
    obtain rfl : fields = [] := allFit_nil.1 (fits.allFit_of rfl)
    exact .pure ⟨rfl, reached.finishIdle (Nat.le_refl 0) rfl rfl⟩
  | breakStatement | continueStatement =>
    obtain ⟨label, rfl, _⟩ := (fits.allFit_of rfl).one
    exact .pure ⟨rfl, (reached.skipField fun _ _ _ => .inl rfl).finishIdle (Nat.le_refl 1) rfl rfl⟩
  | blockStatement =>
    obtain ⟨body, rfl, bodyFits⟩ := (fits.allFit_of rfl).one
    exact (below.statements reached rfl rfl bodyFits fun _ => rfl).mono
      fun _ _ reached => ⟨rfl, reached.finishIdle (Nat.le_refl 1) rfl rfl⟩
  | expressionStatement | throwStatement =>
    obtain ⟨expression, rfl, expressionFits⟩ := (fits.allFit_of rfl).one
    exact below.expression reached rfl rfl (by decide) expressionFits.optional rfl
      fun _ _ reached => .pure ⟨rfl, reached.finishIdle (Nat.le_refl 1) rfl rfl⟩
  | ifStatement =>
    obtain ⟨test, consequent, alternate, rfl, testFits, consequentFits, alternateFits⟩ :=
      (fits.allFit_of rfl).three
    refine below.expression reached rfl rfl (by decide) testFits.optional rfl
      fun _ _ reached => ?_
    refine (below.statement reached rfl rfl (by decide) consequentFits.optional rfl).bind
      fun _ _ reached => ?_
    exact (below.statement reached rfl rfl (by decide) alternateFits rfl).mono
      fun _ _ reached => ⟨rfl, reached.finishIdle (Nat.le_refl 3) rfl rfl⟩
  | labeledStatement =>
    obtain ⟨label, body, rfl, _, bodyFits⟩ := (fits.allFit_of rfl).two
    have reached := reached.skipField fun step isField _ => .inl (by simp [useIn?, isField])
    exact (below.statement reached rfl rfl (by decide) bodyFits.optional rfl).mono
      fun _ _ reached => ⟨rfl, reached.finishIdle (Nat.le_refl 2) rfl rfl⟩
  | withStatement | whileStatement =>
    obtain ⟨head, body, rfl, headFits, bodyFits⟩ := (fits.allFit_of rfl).two
    refine below.expression reached rfl rfl (by decide) headFits.optional rfl
      fun _ _ reached => ?_
    exact (below.statement reached rfl rfl (by decide) bodyFits.optional rfl).mono
      fun _ _ reached => ⟨rfl, reached.finishIdle (Nat.le_refl 2) rfl rfl⟩
  | switchStatement =>
    obtain ⟨discriminant, cases, rfl, discriminantFits, casesFit⟩ := (fits.allFit_of rfl).two
    obtain ⟨children, rfl, fit⟩ := fits_many.1 casesFit
    refine below.expression reached rfl rfl (by decide) discriminantFits.optional rfl
      fun _ _ reached => ?_
    refine (runs_items (visitCaseItems root.scopes discriminant.isPrimitive address) rfl rfl
      (fun _ => rfl) (fun member clauseIn clauseUsed ready goesOn => ?_) reached).mono
      fun _ _ reached => ⟨rfl, reached.finishIdle (Nat.le_refl 2) rfl rfl⟩
    exact ((below.inner _).clause clauseIn (fit _ member) clauseUsed _ ready).bind
      fun _ after ran => goesOn after ran.2.1 ran.2.2
  | returnStatement =>
    obtain ⟨argument, rfl, argumentFits⟩ := (fits.allFit_of rfl).one
    exact below.returnStatement inside used argumentFits before ready
  | tryStatement =>
    obtain ⟨block, handler, finalizer, rfl, blockFits, handlerFits, finalizerFits⟩ :=
      (fits.allFit_of rfl).three
    refine (below.statement reached rfl rfl (by decide) blockFits.optional rfl).bind
      fun _ _ reached => ?_
    refine (below.statement reached rfl rfl (by decide) handlerFits rfl).bind
      fun _ _ reached => ?_
    exact (below.statement reached rfl rfl (by decide) finalizerFits rfl).mono
      fun _ _ reached => ⟨rfl, reached.finishIdle (Nat.le_refl 3) rfl rfl⟩
  | catchClause => exact below.catchClause inside rfl used fits before ready
  | doWhileStatement =>
    obtain ⟨body, test, rfl, bodyFits, testFits⟩ := (fits.allFit_of rfl).two
    refine (below.statement reached rfl rfl (by decide) bodyFits.optional rfl).bind
      fun _ _ reached => ?_
    exact below.expression reached rfl rfl (by decide) testFits.optional rfl
      fun _ _ reached => .pure ⟨rfl, reached.finishIdle (Nat.le_refl 2) rfl rfl⟩
  | forStatement => exact below.forStatement inside used fits before ready
  | forInStatement => exact below.forInStatement inside used fits before ready
  | functionDeclaration => exact below.functionDeclaration shaped inside rfl used fits before ready
  | variableDeclaration =>
    obtain ⟨declarations, word, rfl, declarationsFit, wordFits⟩ := (fits.allFit_of rfl).two
    exact below.variables inside used declarationsFit wordFits before ready
  | _ => exact absurd member (by decide)

end Infer

end Namesake
