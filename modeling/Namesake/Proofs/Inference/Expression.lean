import Namesake.Proofs.Inference.Visit

/-!
An expression can be visited if what is below it can.
-/

namespace Namesake

open Node Field List World Constraint

namespace Infer

variable {root : Node} {address : Address} {location : Option Location} {file : String} {use : Use}
  {place : Nat} {items rest : List Field} {origin world : World}
variable {unused : Bool} {category : Category} {word : Data} {key value : Node}
  {propertyLocation : Option Location}
variable {type : TypeId}

section Unify

variable {setting : Setting} {known : List (TypeName × TypeId)} {result : Bool}

theorem does_unifyTypes {other : Address} (isTyped : setting.typed address)
    (otherTyped : setting.typed other)
    (demanded : setting.constraints (same (.node address) (.node other))) :
    Does setting known (do
      let type ← typeAt address
      unify type (← typeAt other)
      return result) result [same (.node address) (.node other)] := by
  refine .typeAt ⟨_, demanded, by simp⟩ isTyped fun type => ?_
  refine .typeAt ⟨_, demanded, by simp⟩ otherTyped fun own => ?_
  exact .unify (by simp) (by simp) demanded .done

theorem does_unifyOperands
    (demanded : ∀ demand ∈ [same (.node address) (.node (inField address 1)),
      same (.node address) (.node (inField address 2))], root.Demands demand) :
    Does (around root address 3 0 world) known (do
      let type ← typeAt address
      unify type (← typeAt (inField address 1))
      unify type (← typeAt (inField address 2))
      return result) result
      [same (.node address) (.node (inField address 1)),
        same (.node address) (.node (inField address 2))] := by
  rw [forall_mem_cons, forall_mem_singleton] at demanded
  refine .typeAt ⟨_, demanded.1, by simp⟩ .self fun type => ?_
  refine .typeAt ⟨_, demanded.1, by simp⟩ (.of_field ⟨1, none⟩ (by decide) (suffix_refl _))
    fun own => ?_
  refine .unify (by simp) (by simp) demanded.1 ?_
  refine .typeAt ⟨_, demanded.2, by simp⟩ (.of_field ⟨2, none⟩ (by decide) (suffix_refl _))
    fun own => ?_
  exact .unify (by simp) (by simp) demanded.2 .done

end Unify

theorem Below.arrayExpression (below : Below root address) {elements : Field}
    (inside : (⟨address, .mk .arrayExpression [elements] location⟩ : Occurrence).IsIn root)
    (used : root.use? address = some use) (fits : elements.Fits file (.sparse .expression))
    (unused : Bool) :
    Visits root address (visitExpression root.scopes unused address
      (.node (.mk .arrayExpression [elements] location))) false := by
  obtain ⟨items, rfl, fit⟩ := fits_sparse.1 fits
  intro before ready
  have start := Reached.start inside used ready
  have demanded (demand : Constraint) (member : demand ∈
      same (.property (.node address) Synthetic.element) (.property (.node address)
        Synthetic.element) :: ofElements address 0 items) : root.Demands demand :=
    start.demanded member
  rw [forall_mem_cons] at demanded
  refine (runs_typeAt start.still ⟨_, demanded.1, by simp⟩ .self).bind fun type first ran => ?_
  obtain ⟨advance₁, _, isType⟩ := ran
  refine (runs_property advance₁ isType ⟨_, demanded.1, mem_cons_self⟩).bind
    fun element second ran => ?_
  obtain ⟨advance₂, _, isElement⟩ := ran
  refine (runs_demandedItems (visitElementItems root.scopes address element) (ofElements address) rfl
    (fun _ => rfl) (fun _ => rfl)
    (fun itemFound reached knows demanded => ⟨_, rfl, fun goesOn => ?_⟩) rfl (start.own advance₂)
    (.single isElement) demanded.2).bind fun _ third ran => .pure ⟨rfl, ?_⟩
  · rcases fit _ (mem_of_getElem? itemFound) with rfl | ⟨child, rfl, fits⟩
    · exact goesOn _ (.refl _) (reached.skipHole rfl itemFound) (by simp [Field.isNull])
    · have demanded := demanded _ mem_cons_self
      refine below.expressionItem reached rfl rfl itemFound fits rfl fun first grown₁ reached => ?_
      refine (runs_typeAt reached.still ⟨_, demanded, by simp⟩
        (.of_item (Nat.lt_succ_self _) (suffix_refl _))).bind fun type second ran => ?_
      obtain ⟨advance₂, grown₂, isType⟩ := ran
      have isElement := (grown₁.trans grown₂).denotes (knows _ mem_cons_self)
      refine (runs_unify advance₂ isElement isType demanded).bind fun _ third ran => ?_
      obtain ⟨advance₃, grown₃, satisfied⟩ := ran
      exact goesOn third (grown₁.trans (grown₂.trans grown₃)) (reached.own advance₃)
        (forall_mem_singleton.2 satisfied)
  · obtain ⟨grown₃, reached, satisfied⟩ := ran
    have isElement₃ := grown₃.denotes isElement
    exact reached.finishPlain (Nat.le_refl 1) rfl
      (forall_mem_cons.2 ⟨⟨element, isElement₃, isElement₃⟩, satisfied⟩)

theorem Below.runs_accessor (shaped : root.Shaped) (below : Below root address) {id : Field}
    {parameters : List Node} {body : Node}
    (inside : (⟨address, .mk .functionExpression
      [id, .list (parameters.map .node), .node body] location⟩ : Occurrence).IsIn root)
    (used : root.use? address = some .accessor) (idFits : id.Fits file (.optional .identifier))
    (fit : ∀ parameter ∈ parameters, parameter.Fits file .identifier)
    (bodyFits : body.Fits file .block) (ready : Ready root address world) {isGetter : Bool}
    {name : Option Field} {post : Unit → World → Prop}
    (goesOn : ∀ after, Within root.Demands address world after → Done root after address →
      after.Left ⟨address, .mk .functionExpression
        [id, .list (parameters.map .node), .node body] location⟩ →
      Runs (match name with
        | none => pure ()
        | some name =>
          finishAccessor type address isGetter (.list (parameters.map .node)) name) after post) :
    Runs (visitAccessor root.scopes address type isGetter name
      (.node (.mk .functionExpression [id, .list (parameters.map .node), .node body] location)))
      world post := by
  have start := Reached.start inside used ready
  refine below.runs_function shaped inside used rfl false (by simp) idFits fit
    bodyFits ready (by simp) (fun demand member => start.demanded member)
    fun after reached left _ satisfied => ?_
  obtain ⟨within, done⟩ := reached.finish (Nat.le_refl 3) satisfied fun _ => left
  exact goesOn after within done left

theorem value_of_property
    (reached : Reached root ⟨address, .mk .objectExpression [.list items] location⟩ use 0 place
      origin world)
    (itemFound : items[place]? = some (.node (.mk .property [.node key, .node value, .data word]
      propertyLocation))) :
    (⟨inField (inItem address 0 place) 1, value⟩ : Occurrence).IsIn root ∧
      Ready root (inField (inItem address 0 place) 1) world ∧
      root.use? (inField (inItem address 0 place) 1) =
        some (if (Field.data word).isWord "init" then .expression false else .accessor) ∧
      ∀ after, Within root.Demands (inField (inItem address 0 place) 1) world after →
        Done root after (inField (inItem address 0 place) 1) →
        Reached root ⟨address, .mk .objectExpression [.list items] location⟩ use 0 (place + 1)
          origin after := by
  have used : root.use? (inItem address 0 place) = some .part := reached.use?_cons _
  have start := Reached.start (Occurrence.isIn_item reached.inside 0 rfl itemFound) used
    (reached.readyItem rfl rfl itemFound)
  have atValue := start.skipField fun step isField _ => .inl (by simp [useIn?, isField])
  refine ⟨Occurrence.isIn_field atValue.inside 1 rfl, atValue.readyField rfl rfl,
    atValue.use?_cons _, fun after within done => ?_⟩
  have atWord := atValue.passField rfl within done
  obtain ⟨within', done'⟩ := (atWord.skipData rfl).finishIdle (Nat.le_refl 3) rfl rfl
  exact reached.passItem within' done'

theorem Below.accessorProperty (shaped : root.Shaped) (below : Below root address)
    (reached : Reached root ⟨address, .mk .objectExpression [.list items] location⟩ use 0 place
      origin world)
    (itemFound : items[place]? = some (.node (.mk .property [.node key, .node value, .data word]
      propertyLocation)))
    (keyFits : key.Fits file .key) (valueFits : value.Fits file .function)
    (isAccessor : (Field.data word).isWord "init" = false)
    (knows : Knows [(.node address, type)] world) (isGetter : Bool)
    (demanded : ∀ demand ∈ named (Field.node key).keySpelling? (ofAccessor (.node address) (inField
      (inItem address 0 place) 1) isGetter (.node value)), root.Demands demand) :
    Runs (visitAccessor root.scopes (inField (inItem address 0 place) 1) type isGetter
      (keyName? (.node key)) (.node value)) world fun _ after => world.Extends after ∧
      Reached root ⟨address, .mk .objectExpression [.list items] location⟩ use 0 (place + 1) origin
        after ∧
      ∀ demand ∈ named (Field.node key).keySpelling?
        (ofAccessor (.node address) (inField (inItem address 0 place) 1) isGetter (.node value)),
        after.Satisfies demand := by
  obtain ⟨valueIn, ready, used, passes⟩ := value_of_property reached itemFound
  rw [isAccessor] at used
  obtain ⟨id, parameters, body, innerLocation, rfl, idFits, fit, bodyFits⟩ :=
    valueFits.function (mem_singleton.1 valueFits.kind_mem) rfl
  refine ((below.inner _).inner _).runs_accessor shaped valueIn used idFits fit bodyFits ready
    fun first within done left => ?_
  have reached₁ := passes first within done
  cases found : keyName? (.node key) with
  | none =>
    refine .pure ⟨within.grown, reached₁, ?_⟩
    simp [Field.keySpelling?, found, named]
  | some name =>
    obtain ⟨spelling, rfl, spelled⟩ := keySpelling?_of_keyName? keyFits found
    rw [spelled] at demanded ⊢
    exact (reached₁.does (knows.of_extends within.grown) (does_finishAccessor mem_cons_self rfl left
      fit isGetter spelling demanded)).mono fun _ _ ran => ⟨within.grown.trans ran.2.1, ran.2.2⟩

theorem Below.objectExpression (shaped : root.Shaped) (below : Below root address)
    {properties : Field}
    (inside : (⟨address, .mk .objectExpression [properties] location⟩ : Occurrence).IsIn root)
    (used : root.use? address = some use) (fits : properties.Fits file (.many .property))
    (unused : Bool) :
    Visits root address (visitExpression root.scopes unused address
      (.node (.mk .objectExpression [properties] location))) false := by
  obtain ⟨children, rfl, fit⟩ := fits_many.1 fits
  intro before ready
  have start := Reached.start inside used ready
  have demanded (demand : Constraint) (member : demand ∈ same (.node address) (.node address) ::
      ofProperties address 0 (children.map .node)) : root.Demands demand :=
    start.demanded member
  rw [forall_mem_cons] at demanded
  refine (runs_typeAt start.still ⟨_, demanded.1, by simp⟩ .self).bind fun type first ran => ?_
  obtain ⟨advance₁, _, isType⟩ := ran
  refine (runs_demandedItems (visitPropertyItems root.scopes address type) (ofProperties address) rfl
    (fun _ => rfl) (fun _ => rfl) (fun {place _ _ _} itemFound reached knows demanded => ?_) rfl
    (start.own advance₁) (.single isType) demanded.2).bind fun _ second ran => .pure ⟨rfl, ?_⟩
  · obtain ⟨⟨kind, fields, propertyLocation⟩, member, rfl⟩ := mem_map.1 (mem_of_getElem? itemFound)
    have fits := fit _ member
    obtain rfl : kind = .property := mem_singleton.1 fits.kind_mem
    obtain ⟨slots, member, fieldsFit⟩ := fits.allFit
    simp only [Kind.signatures, Node.kind, mem_cons, not_mem_nil, or_false] at member
    rcases member with rfl | rfl | rfl
    all_goals
      obtain ⟨key, value, word, fieldsEq, keyFits, valueFits, wordFits⟩ := fieldsFit.three
      obtain rfl : fields = [key, value, word] := fieldsEq
      obtain rfl := fits_word.1 wordFits
      obtain ⟨key, rfl, keyFits⟩ := fits_one.1 keyFits
      obtain ⟨value, rfl, valueFits⟩ := fits_one.1 valueFits
      have ownDemanded := (forall_mem_append.1 demanded).1
      refine ⟨_, rfl, fun goesOn => ?_⟩
    · obtain ⟨valueIn, ready, used, passes⟩ := value_of_property reached itemFound
      have visited := below _ _ valueIn (suffix_cons _ _)
      refine (visited.expression (by decide) valueFits used _ ready).bind fun _ first ran => ?_
      obtain ⟨_, within, done⟩ := ran
      have reached₁ := passes first within done
      cases found : keyName? (.node key) with
      | none =>
        refine goesOn first within.grown reached₁ ?_
        simp [Field.keySpelling?, found, named]
      | some name =>
        obtain ⟨spelling, rfl, spelled⟩ := keySpelling?_of_keyName? keyFits found
        rw [spelled] at ownDemanded
        have demanded := ownDemanded _ mem_cons_self
        have mentioned : Mentions root.Demands (inField (inItem address 0 place) 1) :=
          ⟨_, demanded, by simp⟩
        refine (runs_property reached₁.still (within.grown.denotes (knows _ mem_cons_self))
          ⟨_, demanded, by simp⟩).bind fun property second ran => ?_
        obtain ⟨advance₂, grown₂, isProperty⟩ := ran
        refine (runs_typeAt advance₂ mentioned
          (.of_item (Nat.lt_succ_self _) (suffix_cons _ _))).bind fun own third ran => ?_
        obtain ⟨advance₃, grown₃, isOwn⟩ := ran
        refine (runs_unify advance₃ (grown₃.denotes isProperty) isOwn demanded).bind
          fun _ fourth ran => ?_
        obtain ⟨advance₄, grown₄, satisfied⟩ := ran
        refine goesOn fourth (within.grown.trans (grown₂.trans (grown₃.trans grown₄)))
          (reached₁.own advance₄) ?_
        rw [spelled]
        exact forall_mem_singleton.2 satisfied
    all_goals
      exact (below.accessorProperty shaped reached itemFound keyFits valueFits (by decide) knows _
        ownDemanded).bind fun _ after ran => goesOn after ran.1 ran.2.1 ran.2.2
  · obtain ⟨grown₂, reached, satisfied⟩ := ran
    have isType₂ := grown₂.denotes isType
    exact reached.finishPlain (Nat.le_refl 1) rfl
      (forall_mem_cons.2 ⟨⟨type, isType₂, isType₂⟩, satisfied⟩)

theorem Below.sequence (below : Below root address) (dropEq : items.drop place = rest)
    (nonempty : rest ≠ [])
    (reached : Reached root ⟨address, .mk .sequenceExpression [.list items] location⟩ (.expression
      unused) 0 place origin world)
    (fit : ∀ item ∈ items, ∃ child, item = .node child ∧ child.Fits file .expression) :
    Runs (visitSequence root.scopes unused address place rest) world fun primitive after =>
      primitive = Field.lastIsPrimitive rest ∧
        Within root.Demands address origin after ∧ Done root after address := by
  induction rest generalizing place world with
  | nil => exact absurd rfl nonempty
  | cons item rest ih =>
    obtain ⟨itemFound, restEq⟩ := getElem?_of_drop dropEq
    obtain ⟨child, rfl, fits⟩ := fit item (mem_of_getElem? itemFound)
    have lengthEq : items.length - place = rest.length + 1 := by
      rw [← length_drop, dropEq]
      rfl
    have useEq : (mk .sequenceExpression [.list items] location).useIn? (.expression unused)
        ⟨0, some place⟩ = some (.expression (if rest = [] then unused else true)) := by
      simp only [useIn?, Use.unused, Option.some.injEq, ← length_eq_zero_iff]
      by_cases isLast : rest.length = 0
      · rw [if_pos isLast, if_pos (by omega)]
      · rw [if_neg isLast, if_neg (by omega)]
    cases rest with
    | nil =>
      obtain rfl : place = items.length - 1 := by
        simp only [length_nil] at lengthEq
        omega
      have demanded := reached.demanded mem_cons_self
      refine below.expressionItem reached rfl rfl itemFound fits useEq fun first _ reached => ?_
      have reached₁ := reached.endList rfl (by simp only [length_nil] at lengthEq; omega)
      exact reached₁.finishes (Nat.le_refl 1) rfl .nil (does_unifyTypes .self
        (.of_field ⟨0, some _⟩ Nat.one_pos (suffix_refl _)) demanded)
    | cons second rest =>
      refine below.expressionItem reached rfl rfl itemFound fits useEq fun first _ reached => ?_
      rw [Field.lastIsPrimitive]
      exact ih restEq (cons_ne_nil _ _) reached

theorem Below.call (below : Below root address) {callee arguments : Field} {kind : Kind}
    (inside : (⟨address, .mk kind [callee, arguments] location⟩ : Occurrence).IsIn root)
    (used : root.use? address = some use) (calleeFits : callee.Fits file (.one .expression))
    (argumentsFit : arguments.Fits file (.many .expression)) (isNew : Bool)
    (notScope : (mk kind [callee, arguments] location).isShadowing = false)
    (useIn : ∀ step, (mk kind [callee, arguments] location).useIn? use step =
      some (.expression false))
    (demandsEq : (mk kind [callee, arguments] location).constraints (root.resolve address) use
      address = ofCall address isNew callee arguments) :
    Visits root address (do
      let _ ← visitExpression root.scopes false (inField address 0) callee
      visitArguments root.scopes address arguments
      finishCall address isNew callee arguments
      return false) false := by
  obtain ⟨children, rfl, fit⟩ := fits_many.1 argumentsFit
  intro before ready
  have reached := Reached.start inside used ready
  refine below.expression reached notScope rfl (by decide) calleeFits.optional (useIn _)
    fun first _ reached => ?_
  refine (runs_items (visitArgumentItems root.scopes address) notScope rfl (fun _ => rfl)
    (fun member childIn childUsed ready goesOn => ?_) reached).bind fun _ second reached => ?_
  · have visited := below _ _ childIn (suffix_refl _)
    have visits := visited.expression (Subset.refl _) (fit _ member) (childUsed.trans (useIn _))
    exact (visits _ ready).bind fun _ after ran => goesOn after ran.2.1 ran.2.2
  obtain ⟨function, rfl, functionFits⟩ := fits_one.1 calleeFits
  have left (isFunction : function.kind = .functionExpression) :
      second.Left ⟨inField address 0, function⟩ := by
    have settled : Settled root second ⟨inField address 0, function⟩ :=
      reached.done ⟨0, none⟩ (.inl Nat.two_pos) _ (Occurrence.isIn_field inside 0 rfl)
        (suffix_refl _)
    refine settled.scope ?_ ?_
    · simp [isShadowing, isFunction, Kind.isFunction]
    · rw [show root.use? (inField address 0) = _ from (reached.use?_cons _).trans (useIn _)]
      rfl
  refine reached.finishes (Nat.le_refl 2) notScope .nil ?_
  rw [demandsEq]
  exact .returning (does_finishCall isNew functionFits left .self
    (fun other below => .of_field ⟨0, none⟩ Nat.two_pos below)
    (fun index => .of_field ⟨1, some index⟩ Nat.one_lt_two (suffix_refl _))
    fun demand member => reached.demanded (demandsEq ▸ member))

theorem exists_mem_ofMember (member : Address) (object key : Field) (computed : Bool) :
    ∃ demand ∈ ofMember member object key computed, inField member 0 ∈ demand.nodes := by
  unfold ofMember
  split
  · exact ⟨_, mem_cons_self, by simp⟩
  · exact ⟨_, mem_cons_self, by simp⟩

theorem Below.memberExpression (below : Below root address) {fields : List Field}
    (inside : (⟨address, .mk .memberExpression fields location⟩ : Occurrence).IsIn root)
    (used : root.use? address = some use)
    (fits : (mk .memberExpression fields location).Fits file category) (unused : Bool) :
    Visits root address (visitExpression root.scopes unused address
      (.node (.mk .memberExpression fields location))) false := by
  obtain ⟨slots, member, fit⟩ := fits.allFit
  intro before ready
  have start := Reached.start inside used ready
  rcases mem_pair.1 member with rfl | rfl
  all_goals
    obtain ⟨object, key, computed, fieldsEq, objectFits, keyFits, computedFits⟩ := fit.three
    obtain rfl : fields = [object, key, computed] := fieldsEq
    obtain rfl := fits_flag.1 computedFits
    obtain ⟨demand, demandMember, mentioned⟩ :=
      exists_mem_ofMember address object key (Field.data (.bool _)).isTruthy
    refine below.expression start rfl rfl (by decide) objectFits.optional rfl
      fun first _ reached => ?_
    obtain ⟨object, rfl, objectFits⟩ := fits_one.1 objectFits
    refine (runs_typeAt reached.still ⟨demand, start.demanded demandMember, mentioned⟩
      (.of_field ⟨0, none⟩ Nat.one_pos (suffix_refl _))).bind
      fun base second ran => ?_
    obtain ⟨advance₂, grown₂, isBase⟩ := ran
    have reached₂ := reached.own advance₂
    have finish {third : World} {key : Node} {computed : Bool}
        (keyFits : computed = false → key.Fits file .identifier) (grown : second.Extends third)
        (reached₃ : Reached root ⟨address, .mk .memberExpression
          [.node object, .node key, .data (.bool computed)] location⟩ use 2 0 before third) :
        Runs (do
          finishMember address (.node object) (.node key) computed base
          return false) third fun answer after => answer = false ∧
            Within root.Demands address before after ∧ Done root after address := by
      have knows : Knows [(.node (inField address 0), base)] third :=
        forall_mem_singleton.2 (grown.denotes isBase)
      refine (reached₃.skipData rfl).finishes (Nat.le_refl 3) rfl knows (.returning ?_)
      exact does_finishMember objectFits keyFits mem_cons_self .self
        (fun _ below => .of_field ⟨0, none⟩ (by decide) below)
        (.of_field ⟨1, none⟩ (by decide) (suffix_refl _))
        fun _ member => reached₃.demanded member
  · obtain ⟨key, rfl, keyFits⟩ := fits_one.1 keyFits
    refine finish (fun _ => keyFits) (.refl _) (reached₂.skipField fun step isField _ => ?_)
    exact .inl (by simp [useIn?, isField, Field.isTruthy, Data.isTruthy])
  · refine below.expression reached₂ rfl rfl (by decide) keyFits.optional rfl
      fun third within reached₃ => ?_
    obtain ⟨key, rfl, keyFits⟩ := fits_one.1 keyFits
    exact finish (fun isName => absurd isName (by decide)) within.grown reached₃

theorem Below.logicalExpression (below : Below root address) {fields : List Field}
    (inside : (⟨address, .mk .logicalExpression fields location⟩ : Occurrence).IsIn root)
    (used : root.use? address = some (.expression unused))
    (fits : (mk .logicalExpression fields location).Fits file category) :
    Visits root address (visitExpression root.scopes unused address
      (.node (.mk .logicalExpression fields location)))
      (mk .logicalExpression fields location).isPrimitive := by
  obtain ⟨slots, member, fit⟩ := fits.allFit
  intro before ready
  have start := Reached.start inside used ready
  rcases mem_pair.1 member with rfl | rfl
  all_goals
    obtain ⟨operator, left, right, fieldsEq, operatorFits, leftFits, rightFits⟩ := fit.three
    obtain rfl : fields = [operator, left, right] := fieldsEq
    obtain rfl := fits_word.1 operatorFits
    refine below.expression (start.skipData rfl) rfl rfl (by decide) leftFits.optional rfl
      fun second _ reached => ?_
    refine below.expression reached rfl rfl (by decide) rightFits.optional rfl
      fun third _ reached => ?_
    obtain ⟨left, rfl, _⟩ := fits_one.1 leftFits
    obtain ⟨right, rfl, _⟩ := fits_one.1 rightFits
  · have demanded : root.Demands (same (.node address) (.node (inField address 2))) :=
      start.demanded mem_cons_self
    rw [Node.isPrimitive, if_pos (by decide)]
    exact reached.finishes (Nat.le_refl 3) rfl .nil (does_unifyTypes .self
      (.of_field ⟨2, none⟩ (Nat.lt_succ_self 2) (suffix_refl _)) demanded)
  · have isPrimitive : (mk .logicalExpression
        [.data (.ofString "||"), .node left, .node right] location).isPrimitive =
          ((Field.node left).isPrimitive && (Field.node right).isPrimitive) := by
      rw [Node.isPrimitive, if_neg (by decide)]
    rw [isPrimitive]
    cases unused with
    | true => exact reached.finishes (Nat.le_refl 3) rfl .nil .done
    | false =>
      exact reached.finishes (Nat.le_refl 3) rfl .nil
        (does_unifyOperands fun _ member => start.demanded member)

theorem runs_assign {operator : Data} {left right : Node}
    (reached : Reached root ⟨address, .mk .assignmentExpression
      [.data operator, .node left, .node right] location⟩ use 3 0 origin world) :
    Runs (do
      if (Field.data operator).isWord "=" then
        if !(Field.node right).isPrimitive then
          let type ← typeAt address
          unify type (← typeAt (inField address 1))
          unify type (← typeAt (inField address 2))
        return (Field.node right).isPrimitive
      else return true) world fun answer after =>
        answer = (if (Field.data operator).isWord "=" then (Field.node right).isPrimitive else true) ∧
          Within root.Demands address origin after ∧ Done root after address := by
  have demandsEq : (mk .assignmentExpression [.data operator, .node left, .node right]
      location).constraints (root.resolve address) use address =
        if (Field.data operator).isWord "=" && !(Field.node right).isPrimitive then
          [ same (.node address) (.node (inField address 1)),
            same (.node address) (.node (inField address 2)) ]
        else [] := rfl
  refine reached.finishes (Nat.le_refl 3) rfl .nil ?_
  rw [demandsEq]
  have demanded (demand : Constraint) (member : demand ∈ _) : root.Demands demand :=
    reached.demanded (demandsEq ▸ member)
  cases isPlain : (Field.data operator).isWord "=" with
  | false => exact .done
  | true =>
    rw [isPlain] at demanded
    cases isPrimitive : (Field.node right).isPrimitive with
    | true => exact .done
    | false =>
      rw [isPrimitive] at demanded
      exact does_unifyOperands demanded

theorem Below.visitsExpression (shaped : root.Shaped) {place : Occurrence}
    (below : Below root place.address) (inside : place.IsIn root)
    (used : root.use? place.address = some (.expression unused))
    (kinds : category.kinds ⊆ Category.expression.kinds) (fits : place.node.Fits file category) :
    Visits root place.address (visitExpression root.scopes unused place.address (.node place.node))
      place.node.isPrimitive := by
  obtain ⟨address, kind, fields, location⟩ := place
  dsimp only at below used fits ⊢
  have member : kind ∈ Category.expression.kinds := kinds fits.kind_mem
  intro before ready
  have start := Reached.start inside used ready
  cases kind with
  | functionExpression =>
    obtain ⟨id, parameters, body, location, nodeEq, idFits, fit, bodyFits⟩ :=
      fits.function rfl rfl
    cases nodeEq
    have demanded (demand : Constraint) (member : demand ∈ ofOwnName address id ++
        ofFunction address (.list (parameters.map .node))) : root.Demands demand :=
      start.demanded member
    rw [forall_mem_append] at demanded
    refine below.runs_function shaped inside used rfl true (fun _ => rfl) idFits fit bodyFits ready
      (fun _ => demanded.1) demanded.2 fun after reached left ownName head => ?_
    refine .pure ⟨by simp [Node.isPrimitive], reached.finish (Nat.le_refl 3) ?_ fun _ => left⟩
    exact forall_mem_append.2 ⟨ownName rfl, head⟩
  | thisExpression =>
    obtain rfl : fields = [] := allFit_nil.1 (fits.allFit_of rfl)
    have demanded := start.demanded mem_cons_self
    rw [show (mk .thisExpression [] location).isPrimitive = false by simp [Node.isPrimitive]]
    refine start.finishes (Nat.le_refl 0) rfl .nil (.variableNamed start.stands
      ⟨_, demanded, by simp⟩ fun receiver => ?_)
    refine .typeAt ⟨_, demanded, by simp⟩ .self fun type => ?_
    exact .unify (by simp) (by simp) demanded .done
  | arrayExpression =>
    obtain ⟨elements, rfl, elementsFit⟩ := (fits.allFit_of rfl).one
    rw [show (mk .arrayExpression [elements] location).isPrimitive = false by
      simp [Node.isPrimitive]]
    exact below.arrayExpression inside used elementsFit unused before ready
  | objectExpression =>
    obtain ⟨properties, rfl, propertiesFit⟩ := (fits.allFit_of rfl).one
    rw [show (mk .objectExpression [properties] location).isPrimitive = false by
      simp [Node.isPrimitive]]
    exact below.objectExpression shaped inside used propertiesFit unused before ready
  | sequenceExpression =>
    obtain ⟨expressions, rfl, expressionsFit⟩ := (fits.allFit_of rfl).one
    obtain ⟨children, nonempty, rfl, fit⟩ := fits_several.1 expressionsFit
    rw [Node.isPrimitive]
    exact below.sequence rfl (by simpa using nonempty) start (forall_mem_nodes fit)
  | unaryExpression =>
    obtain ⟨operator, argument, isPrefix, rfl, operatorFits, argumentFits, prefixFits⟩ :=
      (fits.allFit_of rfl).three
    obtain ⟨_, rfl⟩ := fits_text.1 operatorFits
    obtain rfl := fits_flag.1 prefixFits
    refine below.expression (start.skipData rfl) rfl rfl (by decide) argumentFits.optional rfl
      fun _ _ reached => .pure ⟨by simp [Node.isPrimitive], ?_⟩
    exact (reached.skipData rfl).finishIdle (Nat.le_refl 3) rfl rfl
  | binaryExpression =>
    obtain ⟨operator, left, right, rfl, operatorFits, leftFits, rightFits⟩ :=
      (fits.allFit_of rfl).three
    obtain ⟨_, rfl⟩ := fits_text.1 operatorFits
    refine below.expression (start.skipData rfl) rfl rfl (by decide) leftFits.optional rfl
      fun _ _ reached => ?_
    refine below.expression reached rfl rfl (by decide) rightFits.optional rfl
      fun _ _ reached => .pure ⟨by simp [Node.isPrimitive], ?_⟩
    exact reached.finishIdle (Nat.le_refl 3) rfl rfl
  | assignmentExpression =>
    obtain ⟨operator, left, right, rfl, operatorFits, leftFits, rightFits⟩ :=
      (fits.allFit_of rfl).three
    obtain ⟨spelling, rfl⟩ := fits_text.1 operatorFits
    refine below.expression (start.skipData rfl) rfl rfl (by decide) leftFits.optional rfl
      fun _ _ reached => ?_
    refine below.expression reached rfl rfl (by decide) rightFits.optional rfl
      fun _ _ reached => ?_
    obtain ⟨left, rfl, _⟩ := fits_one.1 leftFits
    obtain ⟨right, rfl, _⟩ := fits_one.1 rightFits
    rw [Node.isPrimitive]
    exact runs_assign reached
  | updateExpression =>
    obtain ⟨slots, signature, fit⟩ := fits.allFit
    rcases mem_pair.1 signature with rfl | rfl
    all_goals
      obtain ⟨operator, argument, isPrefix, fieldsEq, operatorFits, argumentFits, prefixFits⟩ :=
        fit.three
      obtain rfl : fields = [operator, argument, isPrefix] := fieldsEq
      obtain ⟨_, rfl⟩ := fits_text.1 operatorFits
      obtain rfl := fits_flag.1 prefixFits
      refine below.expression (start.skipData rfl) rfl rfl (by decide) argumentFits.optional rfl
        fun _ _ reached => .pure ⟨by simp [Node.isPrimitive], ?_⟩
      exact (reached.skipData rfl).finishIdle (Nat.le_refl 3) rfl rfl
  | logicalExpression => exact below.logicalExpression inside used fits before ready
  | conditionalExpression =>
    obtain ⟨test, consequent, alternate, rfl, testFits, consequentFits, alternateFits⟩ :=
      (fits.allFit_of rfl).three
    refine below.expression start rfl rfl (by decide) testFits.optional rfl fun _ _ reached => ?_
    refine below.expression reached rfl rfl (by decide) consequentFits.optional rfl
      fun _ _ reached => ?_
    refine below.expression reached rfl rfl (by decide) alternateFits.optional rfl
      fun _ _ reached => ?_
    obtain ⟨consequent, rfl, _⟩ := fits_one.1 consequentFits
    obtain ⟨alternate, rfl, _⟩ := fits_one.1 alternateFits
    rw [Node.isPrimitive]
    cases unused with
    | true => exact reached.finishes (Nat.le_refl 3) rfl .nil .done
    | false =>
      exact reached.finishes (Nat.le_refl 3) rfl .nil
        (does_unifyOperands fun _ member => start.demanded member)
  | callExpression =>
    obtain ⟨callee, arguments, rfl, calleeFits, argumentsFit⟩ := (fits.allFit_of rfl).two
    rw [show (mk .callExpression [callee, arguments] location).isPrimitive = false by
      simp [Node.isPrimitive]]
    exact below.call inside used calleeFits argumentsFit false rfl (fun _ => rfl) rfl before ready
  | newExpression =>
    obtain ⟨callee, arguments, rfl, calleeFits, argumentsFit⟩ := (fits.allFit_of rfl).two
    rw [show (mk .newExpression [callee, arguments] location).isPrimitive = false by
      simp [Node.isPrimitive]]
    exact below.call inside used calleeFits argumentsFit true rfl (fun _ => rfl) rfl before ready
  | memberExpression =>
    rw [show (mk .memberExpression fields location).isPrimitive = false by
      simp [Node.isPrimitive]]
    exact below.memberExpression inside used fits unused before ready
  | identifier =>
    obtain ⟨spelling, innerLocation, nodeEq⟩ := fits.identifier rfl
    cases nodeEq
    refine Runs.ite (fun isUndefined => ?_) (fun isVariable => ?_)
    · refine .pure ⟨by simp [Node.isPrimitive, isUndefined], ?_⟩
      refine (start.skipData rfl).finishIdle (Nat.le_refl 1) rfl ?_
      simp [constraints, isUndefined]
    · have demandsEq : (mk .identifier [.data (.text spelling)] location).constraints
          (root.resolve address) (.expression unused) address =
            [same (.node address) (root.resolve address spelling)] := by
        simp [constraints, isVariable, Field.text?, named]
      have demanded : root.Demands (same (.node address) (root.resolve address spelling)) :=
        start.demanded (by rw [demandsEq]; exact mem_cons_self)
      rw [show (mk .identifier [.data (.text spelling)] location).isPrimitive = false by
        simp [Node.isPrimitive, isVariable]]
      refine (start.skipData rfl).finishes (Nat.le_refl 1) rfl .nil ?_
      rw [demandsEq]
      refine .variableNamed start.stands ⟨_, demanded, by simp⟩ fun type => ?_
      refine .typeAt ⟨_, demanded, by simp⟩ .self fun own => ?_
      exact .unify (by simp) (by simp) demanded .done
  | literal =>
    obtain ⟨value, raw, regex, innerLocation, nodeEq⟩ := fits.literal rfl
    cases nodeEq
    refine .pure ⟨by simp [Node.isPrimitive], ?_⟩
    exact (((start.skipData rfl).skipData rfl).skipData rfl).finishIdle (Nat.le_refl 3) rfl rfl
  | _ => exact absurd member (by decide)

end Infer

end Namesake
