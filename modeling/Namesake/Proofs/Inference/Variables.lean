import Namesake.Proofs.Inference.Mention
import Namesake.Proofs.Renaming.Global
import Namesake.Proofs.Syntax.Terms

/-!
Names are looked up on a stack of environments while types are inferred, and in scopes
otherwise.  Both agree.
-/

namespace Namesake

open Codebase Option List

open Infer (inField inItem)

variable {name : Text}

theorem Token.not_isMarked {token : Token} (spelled : token.WellSpelled) :
    ¬ (Text.ofChars token.text).IsMarked := by
  intro isMarked
  obtain ⟨first, found, same⟩ := map_eq_some_iff.1 ((List.head?_map ..).symm.trans isMarked)
  exact spelled.start (found.trans (congrArg some (Char.toNat_inj.1 same)))

theorem SourceFile.not_isMarked_of_parse {file : SourceFile} {tolerant : Bool} {program : Node}
    (parsed : (file.parse tolerant).result = .ok program) {text : Text} {location : Option Location}
    (member : .mk .identifier [.data (.text text)] location ∈ program.descend) :
    ¬ text.IsMarked := by
  obtain ⟨derivation, body, read, rfl, grown⟩ := exists_grown parsed
  have inTerms : _ ∈ Node.terms _ := mem_filter.2 ⟨member, rfl⟩
  rw [Node.terms_of_composite _ rfl, children_program, grown.terms_eq] at inTerms
  obtain ⟨leaf, leafMember, termEq⟩ := mem_map.1 inTerms
  have spelled := (Derivation.sound_read file.text tolerant derivation read).1.wellSpelled _
    (derivation.mem_tokens (mem_of_mem_filter leafMember))
  unfold Token.term at termEq
  dsimp only at termEq
  split at termEq <;> cases termEq
  exact Token.not_isMarked spelled

theorem Node.IsParsed.not_isMarked {root : Node} (parsed : root.IsParsed) {place : Occurrence}
    (inside : place.IsIn root) {spelled : Text} (named : place.name? = some (.text spelled)) :
    ¬ spelled.IsMarked := by
  have member : place.node ∈ root.descend := mem_map_of_mem (mem_walk.2 inside)
  obtain ⟨value, valueEq, nameEq⟩ := map_eq_some_iff.1 named
  unfold Field.nameValue? at valueEq
  split at valueEq
  · rename_i own location nodeEq
    cases valueEq
    unfold Name.ofField at nameEq
    split at nameEq
    · cases nameEq
      rw [Field.node.inj nodeEq] at member
      clear inside
      induction parsed with
      | program parsed => exact SourceFile.not_isMarked_of_parse parsed member
      | @collection trees _ ih =>
        have children : (Node.collection trees).children = trees := by
          rw [Node.collection, children_mk, flatMap_singleton]
          exact Phrase.nodes_listOf trees
        rw [descend_eq, children, mem_cons, mem_flatMap] at member
        obtain ⟨tree, isTree, inTree⟩ := member.resolve_left (by rintro ⟨⟩)
        exact ih tree isTree inTree
    · cases nameEq
  · cases valueEq

/-- The type of a name that a scope declares, or no scope. -/
def TypeName.declared (name : Text) : Option Occurrence → TypeName
  | none => .property .global name
  | some scope =>
    if scope.node.kind = .program then .property .global name else .bound scope.address name

theorem TypeName.declared_of_global {scope : Option Occurrence}
    (isGlobal : isGlobalScope scope = true)
    : declared name scope = .property .global name := by
  cases scope with
  | none => rfl
  | some scope => exact if_pos (by simpa [isGlobalScope] using isGlobal)

namespace Node

variable {root : Node} {name : Text}
variable {address : Address}

theorem binds_iff_declares (unmarked : ¬ name.IsMarked) {scope : Occurrence}
    (inside : scope.IsIn root) (isShadowing : scope.node.isShadowing = true) :
    scope.binds name = true ↔ root.codebase.Declares scope (.text name) := by
  rw [Occurrence.binds_iff, declares_iff inside]
  have notReceiver : name ≠ Synthetic.receiver := by
    rintro rfl
    exact unmarked rfl
  have notResult : name ≠ Synthetic.result := by
    rintro rfl
    exact unmarked rfl
  simp [notReceiver, notResult, isScope_iff.2 (.inr isShadowing)]

theorem resolve_cons {parent : Node} {step : Step} (found : root.at? address = some parent) :
    root.resolve (step :: address) name =
      if parent.isShadowing && Occurrence.binds ⟨address, parent⟩ name then .bound address name
      else root.resolve address name := by
  unfold resolve shadowing
  rw [above_cons found]
  cases isShadowing : parent.isShadowing with
  | false => simp [isShadowing]
  | true => cases binds : Occurrence.binds ⟨address, parent⟩ name <;> simp [isShadowing, binds]

theorem resolve_of_allCollections (unmarked : ¬ name.IsMarked)
    (collections : AllCollections (root.above address)) :
    root.resolve address name = .property .global name := by
  have none : root.shadowing address = [] := by
    refine filter_eq_nil_iff.2 fun outer member isShadowing => ?_
    exact (kind_ne_of_isShadowing isShadowing).2 (collections outer member)
  rw [resolve, none, List.find?_nil]
  refine if_neg ?_
  rintro rfl
  exact unmarked rfl

theorem Shaped.resolve_eq (shaped : root.Shaped) (unmarked : ¬ name.IsMarked) {node : Node}
    (found : root.at? address = some node) :
    root.resolve address name =
      .declared name (root.codebase.scopeAbove? address (.text name)) := by
  induction address generalizing node with
  | nil => exact resolve_of_allCollections unmarked (forall_mem_nil _)
  | cons step address ih =>
    obtain ⟨parent, parentFound, _⟩ := exists_at?_of_cons found
    have parentIn : (⟨address, parent⟩ : Occurrence).IsIn root.codebase.root := parentFound
    rw [resolve_cons parentFound]
    by_cases declares : root.codebase.Declares ⟨address, parent⟩ (.text name)
    · rw [Codebase.scopeAbove?_cons_of_declares parentIn declares]
      rcases isScope_iff.1 declares.1 with isProgram | isShadowing
      · -- Nothing above a program binds a name.
        have collections : AllCollections (root.above address) := by
          rcases shaped.at? parentFound with ⟨_, collections⟩ | inner
          · exact collections
          · exact absurd isProgram inner.kind_ne.1
        have notShadowing : parent.isShadowing = false := by
          simpa using mt kind_ne_of_isShadowing fun different => different.1 isProgram
        simp only [notShadowing, Bool.false_and, TypeName.declared, isProgram]
        exact resolve_of_allCollections unmarked collections
      · have binds := (binds_iff_declares unmarked parentIn isShadowing).2 declares
        have notProgram := (kind_ne_of_isShadowing isShadowing).1
        simp [isShadowing, binds, TypeName.declared, notProgram]
    · rw [Codebase.scopeAbove?_cons_of_not_declares parentIn declares, ← ih parentFound, if_neg]
      intro both
      rw [Bool.and_eq_true] at both
      exact declares ((binds_iff_declares unmarked parentIn both.1).1 both.2)

end Node

def Kind.passesOver : Kind → Nat → Bool
  | labeledStatement, 0 | breakStatement, 0 | continueStatement, 0 | property, 0
  | memberExpression, 1 | catchClause, 0 | variableDeclarator, 0 | functionDeclaration, 0
  | functionDeclaration, 1 | functionExpression, 0 | functionExpression, 1 => true
  | _, _ => false

def Slot.isSingle : Slot → Bool
  | one _ | optional _ => true
  | _ => false

theorem Kind.passesOver_of_signature (kind : Kind) :
    ∀ slots ∈ kind.signatures, ∀ entry ∈ slots.zipIdx,
      entry.1.category? = some .identifier ∨ entry.1.category? = some .key →
        kind.passesOver entry.2 = true ∧
          (entry.1.isSingle = true ∨ kind.isFunction = true ∧ entry.2 = 1) := by
  cases kind <;> decide

namespace Node

variable {root node child : Node} {file : String} {step : Step}

theorem item_of_isSingle {slots : List Slot} {slot : Slot}
    (fit : Field.AllFit file slots node.fields) (slotFound : slots[step.field]? = some slot)
    (isSingle : slot.isSingle = true) (found : node.child? step = some child) :
    step.item = none := by
  unfold child? at found
  split at found
  · assumption
  · rename_i fieldEq _
    obtain ⟨other, otherFound, fieldFits⟩ := fit.getElem? fieldEq
    rw [slotFound] at otherFound
    cases otherFound
    cases slot with
    | one => exact fieldFits.elim
    | optional => exact fieldFits.elim
    | _ => cases isSingle
  · cases found

theorem Fits.useIn?_of_variable {category : Category} {address : Address} {name : Name}
    (fits : node.Fits file category) (use : Use) (found : node.child? step = some child)
    (used : usageIn? root ⟨address, node⟩ step .identifier name = some ⟨.variable, name⟩) :
    (node.useIn? use step).isSome = true ∨
      step = ⟨0, none⟩ ∧ (node.kind = .variableDeclarator ∨ node.kind = .catchClause) ∨
      node.kind.isFunction = true ∧ (step = ⟨0, none⟩ ∨ step.field = 1) := by
  obtain ⟨slots, member, slot, inner, slotFound, isInner, childFits, fit⟩ := fits.childSlot found
  by_cases takesNodes : slot.takesNodes = true
  · exact .inl (Node.isSome_useIn? use member fit slotFound takesNodes)
  · have isName : slot.category? = some .identifier ∨ slot.category? = some .key := by
      simp only [Slot.takesNodes, isInner, any_some, Bool.and_eq_true, decide_eq_true_iff,
        not_and_or, not_not] at takesNodes
      rw [isInner]
      exact takesNodes.imp (congrArg some) (congrArg some)
    obtain ⟨passesOver, shape⟩ := node.kind.passesOver_of_signature slots member (slot, step.field)
      (mem_zipIdx_iff_getElem?.2 slotFound) isName
    obtain ⟨field, item⟩ := step
    rcases shape with isSingle | ⟨isFunction, isList⟩
    · obtain rfl : item = none := item_of_isSingle fit slotFound isSingle found
      dsimp only at passesOver
      unfold Kind.passesOver at passesOver
      split at passesOver
      case h_1 | h_2 | h_3 =>
        rename_i kindEq
        rw [usageIn?_label (by rw [kindEq]; rfl)] at used
        cases used
      case h_4 =>
        rename_i kindEq
        obtain ⟨key, value, kind, location, rfl, _⟩ := fits.property kindEq
        cases used
      case h_5 =>
        rename_i kindEq
        obtain ⟨object, key, computed, location, rfl, _⟩ := fits.memberExpression kindEq
        cases computed with
        | false => cases used
        | true => exact .inl rfl
      case h_6 | h_7 =>
        rename_i kindEq
        exact .inr (.inl ⟨rfl, by simp [kindEq]⟩)
      case h_8 | h_10 =>
        rename_i kindEq
        exact .inr (.inr ⟨by rw [kindEq]; rfl, .inl rfl⟩)
      case h_9 | h_11 =>
        rename_i kindEq
        exact .inr (.inr ⟨by rw [kindEq]; rfl, .inr rfl⟩)
      case h_12 => cases passesOver
    · exact .inr (.inr ⟨isFunction, .inr isList⟩)

end Node

theorem Constraint.mem_ofParameters (function : Address) {parameters : List Field} {index : Nat}
    {parameter : Field} (found : parameters[index]? = some parameter)
    (spelled : parameter.spelling? = some name) (place : Nat) :
    same (.node (inItem function 1 (place + index))) (.bound function name) ∈
      ofParameters function place parameters := by
  induction parameters generalizing index place with
  | nil => cases found
  | cons first rest ih =>
    cases index with
    | zero =>
      cases found
      rw [ofParameters, spelled]
      exact mem_cons_self
    | succ index =>
      have later := ih found (place + 1)
      rw [show place + 1 + index = place + (index + 1) by omega] at later
      exact mem_append_right _ later

theorem Occurrence.declares_own {root : Node} {scope token : Occurrence} {step : Step}
    (inside : scope.IsIn root) (addressEq : token.address = step :: scope.address)
    (found : scope.node.child? step = some token.node) (named : token.name? = some (.text name))
    (own : scope.node.kind.isFunction = true ∧ step.field = 1 ∨
      (scope.node.kind = .functionExpression ∨ scope.node.kind = .catchClause) ∧ step.field = 0) :
    root.codebase.Declares scope (.text name) := by
  have declared {field : Nat} (fieldEq : step.field = field) :
      (Name.text name, token.address) ∈ scope.declarationsIn field :=
    mem_filterMap.2 ⟨token, mem_inField_iff.2 ⟨step, fieldEq, addressEq, found⟩,
      declaration?_eq_some.2 ⟨named, rfl⟩⟩
  refine (declares_iff inside).2 ⟨?_, token.address, mem_append_left _ ?_⟩
  · rcases own with ⟨isFunction, _⟩ | ⟨isExpression | isClause, _⟩
    · simp [Kind.isScope, isFunction]
    · simp [Kind.isScope, Kind.isFunction, isExpression]
    · simp [Kind.isScope, isClause]
  · unfold ownDeclarations
    rcases own with ⟨isFunction, fieldEq⟩ | ⟨isExpression | isClause, fieldEq⟩
    · have isFunction : scope.node.kind = .functionDeclaration ∨
          scope.node.kind = .functionExpression := by
        simpa [Kind.isFunction] using isFunction
      rcases isFunction with kindEq | kindEq <;> simp [kindEq, declared fieldEq]
    · simp [isExpression, declared fieldEq]
    · simpa [isClause] using declared fieldEq

namespace Node

variable {root : Node} {token : Occurrence} {spelled : Text} {scope : Option Occurrence}

theorem Shaped.declared_of_own (shaped : root.Shaped) {parent : Occurrence} {step : Step}
    (parentIn : parent.IsIn root) (addressEq : token.address = step :: parent.address)
    (found : parent.node.child? step = some token.node)
    (named : token.name? = some (.text spelled))
    (own : parent.node.kind.isFunction = true ∧ step.field = 1 ∨
      (parent.node.kind = .functionExpression ∨ parent.node.kind = .catchClause) ∧ step.field = 0) :
    TypeName.declared spelled (root.codebase.declaringScope? token.address (.text spelled)) =
      .bound parent.address spelled := by
  have declares := Occurrence.declares_own parentIn addressEq found named own
  have inCodebase : parent.IsIn root.codebase.root := parentIn
  rw [Codebase.declaringScope?_child_of_declares shaped inCodebase declares
    (Occurrence.mem_children.2 ⟨step, addressEq, found⟩)]
  · have notProgram : parent.node.kind ≠ .program := by
      intro isProgram
      simp [isProgram, Kind.isFunction] at own
    simp [TypeName.declared, notProgram]
  · intro isDeclaration same
    obtain rfl : step = ⟨0, none⟩ := (List.cons.inj (addressEq.symm.trans same)).1
    simp [isDeclaration] at own

theorem not_isFunctionName_of_use? {address : Address}
    (reached : (root.use? address).isSome = true) : ¬ root.codebase.IsFunctionName address := by
  cases address with
  | nil => exact id
  | cons step address =>
    rintro ⟨rfl, function, functionFound, isDeclaration⟩
    obtain ⟨use, used⟩ := isSome_iff_exists.1 reached
    rw [use?, show root.at? address = some function from functionFound] at used
    obtain ⟨outer, _, passed⟩ := bind_eq_some_iff.1 used
    rw [bind_some, useIn?_function (by rw [isDeclaration]; rfl) _ (by simp)] at passed
    cases passed

theorem Shaped.entails_reached (shaped : root.Shaped) (unmarked : ¬ spelled.IsMarked)
    (inside : token.IsIn root) {location : Option Location}
    (nodeEq : token.node = .mk .identifier [.data (.text spelled)] location)
    (notUndefined : spelled ≠ Text.ofString "undefined")
    (reached : (root.use? token.address).isSome = true) :
    Entails root.Demands (.node token.address) (.declared spelled
      (root.codebase.declaringScope? token.address (.text spelled))) := by
  have inCodebase : token.IsIn root.codebase.root := inside
  obtain ⟨use, used⟩ := isSome_iff_exists.1 reached
  have notWord : (Field.data (.text spelled)).isWord "undefined" = false := by
    simpa [Field.isWord, Data.ofString, Data.same] using notUndefined
  have demanded : root.Demands
      (.same (.node token.address) (root.resolve token.address spelled)) := by
    apply demands_of_mem inside used
    rw [nodeEq, constraints, notWord]
    exact mem_cons_self
  rw [Codebase.declaringScope?_of_not_functionName shaped inCodebase
    (not_isFunctionName_of_use? reached), ← shaped.resolve_eq unmarked inside]
  exact .given demanded

section Parent

variable {address : Address} {parent node : Node} {file : String} {category : Category} {use : Use}
  {location : Option Location}
  (parentIn : (⟨address, parent⟩ : Occurrence).IsIn root) (used : root.use? address = some use)
  (fits : parent.Fits file category)
  (nodeEq : node = .mk .identifier [.data (.text spelled)] location)

include parentIn used fits nodeEq

theorem entails_declarator (isDeclarator : parent.kind = .variableDeclarator)
    (found : parent.child? ⟨0, none⟩ = some node) :
    Entails root.Demands (.node (inField address 0)) (root.resolve address spelled) := by
  obtain ⟨id, init, _, rfl, _⟩ := fits.variableDeclarator isDeclarator
  obtain rfl : id = node := Option.some.inj found
  subst nodeEq
  exact .given (demands_of_mem parentIn used (mem_append_right _ mem_cons_self))

theorem entails_caught (isClause : parent.kind = .catchClause)
    (found : parent.child? ⟨0, none⟩ = some node) :
    Entails root.Demands (.node (inField address 0)) (.bound address spelled) := by
  obtain ⟨parameter, body, _, rfl, _⟩ := fits.nodes isClause rfl
  obtain rfl : parameter = node := Option.some.inj found
  subst nodeEq
  exact .given (demands_of_mem parentIn used mem_cons_self)

theorem entails_ownName (isExpression : parent.kind = .functionExpression)
    (notAccessor : use ≠ .accessor) (found : parent.child? ⟨0, none⟩ = some node) :
    Entails root.Demands (.node (inField address 0)) (.bound address spelled) := by
  obtain ⟨id, parameters, body, _, rfl, _⟩ := fits.function isExpression rfl
  subst nodeEq
  obtain rfl : id = .node (.mk .identifier [.data (.text spelled)] location) := by
    cases id with
    | node inner => rw [Option.some.inj found]
    | data => cases found
    | list => cases found
  have demanded {constraint : Constraint} (own : constraint ∈ Constraint.ofOwnName address
      (.node (.mk .identifier [.data (.text spelled)] location))) : root.Demands constraint := by
    refine demands_of_mem parentIn used (mem_append_left _ ?_)
    cases use with
    | accessor => exact absurd rfl notAccessor
    | _ => exact own
  have toFunction := demanded (.tail _ (.head _))
  have toBound := demanded (.head _)
  exact (Entails.given toFunction).trans (.given toBound)

theorem entails_parameter (isFunction : parent.kind.isFunction = true) {item : Option Nat}
    (found : parent.child? ⟨1, item⟩ = some node) :
    Entails root.Demands (.node (⟨1, item⟩ :: address)) (.bound address spelled) := by
  have ofParameters {id body : Field} {parameters : List Node} {kind : Kind}
      {functionLocation : Option Location}
      (parentEq : parent = .mk kind [id, .list (parameters.map .node), body] functionLocation)
      (demanded : ∀ constraint ∈ Constraint.ofFunction address (.list (parameters.map .node)),
        root.Demands constraint) :
      Entails root.Demands (.node (⟨1, item⟩ :: address)) (.bound address spelled) := by
    subst parentEq nodeEq
    cases item with
    | none => cases found
    | some place =>
      obtain ⟨parameter, parameterFound, parameterEq⟩ := bind_eq_some_iff.1 found
      have isName : parameter.spelling? = some spelled := by
        cases parameter with
        | node inner =>
          cases parameterEq
          rfl
        | data => cases parameterEq
        | list => cases parameterEq
      have own := Constraint.mem_ofParameters address parameterFound isName 0
      rw [Nat.zero_add] at own
      exact .given (demanded _ (mem_append_left _ own))
  have kinds : parent.kind = .functionDeclaration ∨ parent.kind = .functionExpression := by
    simpa [Kind.isFunction] using isFunction
  rcases kinds with isDeclaration | isExpression
  · obtain ⟨id, parameters, body, _, rfl, _⟩ := fits.functionDeclaration isDeclaration
    exact ofParameters rfl fun constraint own =>
      demands_of_mem parentIn used (mem_append_left _ own)
  · obtain ⟨id, parameters, body, _, rfl, _⟩ := fits.function isExpression rfl
    exact ofParameters rfl fun constraint own =>
      demands_of_mem parentIn used (mem_append_right _ own)

end Parent

theorem Shaped.entails_variable (shaped : root.Shaped) (unmarked : ¬ spelled.IsMarked)
    (resolves : root.codebase.Resolves token (.text spelled) scope)
    (notUndefined : spelled ≠ Text.ofString "undefined")
    (mentions : Mentions root.Demands token.address) :
    Entails root.Demands (.node token.address) (.declared spelled scope) := by
  obtain ⟨inWalk, names, named, rfl⟩ := resolves
  have inside : token.IsIn root := mem_walk.1 inWalk
  have isUsed : root.usage? token = .ok (some ⟨.variable, .text spelled⟩) :=
    (Codebase.usage?_variable shaped inside).2 ⟨names, named⟩
  have isIdentifier := Occurrence.kind_of_name? named
  have inner := shaped.inner inside (by simp [isIdentifier]) (by simp [isIdentifier])
  obtain ⟨location, nodeEq⟩ : ∃ location,
      token.node = .mk .identifier [.data (.text spelled)] location := by
    obtain ⟨_, _, _, tokenFits⟩ := inner
    obtain ⟨own, location, nodeEq⟩ := tokenFits.identifier isIdentifier
    obtain rfl : own = spelled := by
      rw [Occurrence.name?, nodeEq] at named
      simpa [Field.nameValue?, Name.ofField] using named
    exact ⟨location, nodeEq⟩
  have tokenName : token.tokenName? = some (.text spelled) := by
    rw [Occurrence.tokenName?, nodeEq]
    rfl
  obtain ⟨_, ⟨address, parent⟩, _, parentIn, member, notCollection⟩ :=
    shaped.exists_parent inside inner
  obtain ⟨step, addressEq, found⟩ := Occurrence.mem_children.1 member
  rw [shaped.usage? inside addressEq parentIn notCollection tokenName, isIdentifier,
    Except.ok.injEq] at isUsed
  obtain ⟨file, category, fits⟩ := shaped.fits parentIn notCollection
  obtain ⟨notIdentifier, notLiteral⟩ := fits.kind_of_child found
  obtain ⟨use, used⟩ := isSome_iff_exists.1 (shaped.isSome_use? parentIn notIdentifier notLiteral)
  have byParent := shaped.declared_of_own parentIn addressEq found named
  rcases fits.useIn?_of_variable use found isUsed with
    reached | ⟨rfl, isDeclarator | isClause⟩ | ⟨isFunction, rfl | isParameter⟩
  · refine shaped.entails_reached unmarked inside nodeEq notUndefined ?_
    rw [addressEq, use?, used, parentIn]
    exact reached
  · have undeclared : ¬ root.codebase.Declares ⟨address, parent⟩ (.text spelled) := by
      rintro ⟨isScope, _⟩
      simp [isDeclarator, Kind.isScope, Kind.isFunction] at isScope
    rw [Codebase.declaringScope?_child shaped parentIn undeclared member,
      ← shaped.resolve_eq unmarked parentIn, addressEq]
    exact entails_declarator parentIn used fits nodeEq isDeclarator found
  · rw [byParent (.inr ⟨.inr isClause, rfl⟩), addressEq]
    exact entails_caught parentIn used fits nodeEq isClause found
  · rw [addressEq] at mentions
    by_cases isDeclaration : parent.kind = .functionDeclaration
    · exact absurd mentions (not_mentions_functionName parentIn isFunction (.inl isDeclaration))
    · have isExpression : parent.kind = .functionExpression := by
        simpa [Kind.isFunction, isDeclaration] using isFunction
      have notAccessor : use ≠ .accessor := by
        rintro rfl
        exact absurd mentions (not_mentions_functionName parentIn isFunction (.inr used))
      rw [byParent (.inr ⟨.inl isExpression, rfl⟩), addressEq]
      exact entails_ownName parentIn used fits nodeEq isExpression notAccessor found
  · obtain ⟨field, item⟩ := step
    obtain rfl : field = 1 := isParameter
    rw [byParent (.inl ⟨isFunction, rfl⟩), addressEq]
    exact entails_parameter parentIn used fits nodeEq isFunction found

end Node

/-- The class of a name in the scope that declares it: that of the name in the environment of a
function or a catch clause, and else that of a property of the global object. -/
def Typing.declaredClass? (typing : Typing) (name : Text) (scope : Option Occurrence) :
    Option TypeId :=
  if isGlobalScope scope then
    let (property, graph) := typing.graph.property Typing.globalType name
    some (graph.root property)
  else do
    let env ← typing.env? (← scope).address
    return typing.graph.root (← env.lookup name)

namespace World.Inferred

variable {root : Node} {world : World}

theorem root_globalProperty (inferred : world.Inferred root) {name : Text} {type : TypeId}
    (denotes : world.Denotes (.property .global name) type) :
    (world.typing.graph.property Typing.globalType name).2.root
      (world.typing.graph.property Typing.globalType name).1 = world.typing.graph.root type := by
  have tracks := TypeGraph.tracks_of_run inferred.good.run
  obtain ⟨base, answer, ofGlobal, asked, same⟩ := denotes
  obtain ⟨target, found, linked⟩ := tracks.answered _ _ _ asked
  rw [← tracks.root_eq_of_related inferred.settled ofGlobal] at found
  obtain ⟨propertyEq, shortened⟩ := TypeGraph.property_of_lookup tracks.forest found
  rw [propertyEq, shortened.root tracks.forest, tracks.forest.root_root, ← linked.root_eq
    inferred.settled]
  exact tracks.root_eq_of_related inferred.settled same

theorem exists_bound (inferred : world.Inferred root) (shaped : root.Shaped) {address : Address}
    {spelled : Text} {scope : Occurrence} (unmarked : ¬ spelled.IsMarked)
    (resolved : root.codebase.declaringScope? address (.text spelled) = some scope)
    (notProgram : scope.node.kind ≠ .program) :
    ∃ env bound, world.typing.env? scope.address = some env ∧ env.lookup spelled = some bound ∧
      world.Denotes (.bound scope.address spelled) bound := by
  obtain ⟨inside, declares, _⟩ := of_declaringScope? resolved
  have isShadowing := (Node.isScope_iff.1 declares.1).resolve_left notProgram
  have isReached : (root.use? scope.address).isSome = true := by
    apply shaped.isSome_use? inside
    · intro isIdentifier
      simp [Node.isShadowing, Kind.isFunction, isIdentifier] at isShadowing
    · intro isLiteral
      simp [Node.isShadowing, Kind.isFunction, isLiteral] at isShadowing
  obtain ⟨env, envFound, binds⟩ := inferred.scopes scope inside isShadowing isReached
  obtain ⟨bound, boundFound, denotes⟩ :=
    binds.denotes ((Node.binds_iff_declares unmarked inside isShadowing).2 declares)
  exact ⟨env, bound, envFound, boundFound, denotes⟩

theorem class?_variable (inferred : world.Inferred root) (shaped : root.Shaped)
    {token : Occurrence} {spelled : Text} {scope : Option Occurrence} (unmarked : ¬ spelled.IsMarked)
    (resolves : root.codebase.Resolves token (.text spelled) scope)
    (notUndefined : spelled ≠ Text.ofString "undefined")
    (typed : (world.typing.type? token.address).isSome = true) :
    world.typing.class? token.address = world.typing.declaredClass? spelled scope := by
  have mentions := mentions_of_withReceivers
    ((inferred.good.isSome_type?_iff inferred.meets token.address).1 typed)
  have entails : Entails (WithReceivers root.Demands) (.node token.address)
      (.declared spelled scope) :=
    (shaped.entails_variable unmarked resolves notUndefined mentions).mono fun _ => Or.inl
  obtain ⟨type, found⟩ := isSome_iff_exists.1 typed
  have denotes : world.Denotes (.node token.address) type := ⟨type, found, .refl type⟩
  have classEq : world.typing.class? token.address = some (world.typing.graph.root type) := by
    simp [Typing.class?, found]
  rw [classEq]
  cases isGlobal : isGlobalScope scope with
  | true =>
    rw [TypeName.declared_of_global isGlobal] at entails
    have ofProperty := (entails.denotes_iff inferred.good inferred.meets type).1 denotes
    rw [Typing.declaredClass?, if_pos isGlobal]
    exact congrArg some (inferred.root_globalProperty ofProperty).symm
  | false =>
    cases scope with
    | none => cases isGlobal
    | some scope =>
      have notProgram : scope.node.kind ≠ .program := by
        simpa [isGlobalScope] using isGlobal
      obtain ⟨env, bound, envFound, boundFound, ofBound⟩ :=
        inferred.exists_bound shaped unmarked resolves.resolved notProgram
      rw [TypeName.declared, if_neg notProgram] at entails
      have same := (inferred.good.root_eq_iff inferred.settled inferred.meets denotes ofBound).2
        entails
      simp [Typing.declaredClass?, isGlobal, envFound, boundFound, same]

end World.Inferred

/-- Inference resolves variables as scopes do: a variable with a type, unless it is `undefined`, has the
class of its name in the environment of the function or catch clause that declares it, and if there
is none that of the property of the global object.  So variables of one name and one scope have one
class. -/
theorem class?_eq_declaredClass? {root : Node} (parsed : root.IsParsed) :
    ∃ codebase inference, Codebase.ofRoot root = .ok codebase ∧ codebase.root = root ∧
      codebase.infer = .ok inference ∧
      (∀ token spelled scope, codebase.Resolves token (.text spelled) scope →
        spelled ≠ Text.ofString "undefined" →
        (inference.typing.type? token.address).isSome = true →
        inference.typing.class? token.address = inference.typing.declaredClass? spelled scope) ∧
      ∀ left right spelled scope, codebase.Resolves left (.text spelled) scope →
        codebase.Resolves right (.text spelled) scope → spelled ≠ Text.ofString "undefined" →
        (inference.typing.type? left.address).isSome = true →
        (inference.typing.type? right.address).isSome = true →
        inference.typing.class? left.address = inference.typing.class? right.address := by
  have shaped := parsed.shaped
  obtain ⟨inference, world, inferEq, typingEq, inferred⟩ := exists_inferred shaped
  have declared (token : Occurrence) (spelled : Text) (scope : Option Occurrence)
      (resolves : root.codebase.Resolves token (.text spelled) scope)
      (notUndefined : spelled ≠ Text.ofString "undefined")
      (typed : (inference.typing.type? token.address).isSome = true) :
      inference.typing.class? token.address = inference.typing.declaredClass? spelled scope := by
    have unmarked : ¬ spelled.IsMarked :=
      parsed.not_isMarked (Node.mem_walk.1 resolves.inside) resolves.named
    rw [← typingEq] at typed ⊢
    exact inferred.class?_variable shaped unmarked resolves notUndefined typed
  refine ⟨root.codebase, inference, Codebase.ofRoot_eq shaped, rfl, inferEq, declared, ?_⟩
  intro left right spelled scope ofLeft ofRight notUndefined leftTyped rightTyped
  rw [declared left spelled scope ofLeft notUndefined leftTyped,
    declared right spelled scope ofRight notUndefined rightTyped]

/-- A parameter, and a global variable of the same name. -/
theorem class?_eq_declaredClass?_parameter :
    ∃ root, ((⟨"", "b;function f(b){}"⟩ : SourceFile).parse false).result = .ok root ∧
      root.IsParsed ∧ ∃ codebase inference,
        Codebase.ofRoot root = .ok codebase ∧ codebase.infer = .ok inference ∧
        (∃ token scope, codebase.Resolves token (.text (Text.ofString "b")) (some scope) ∧
          scope.node.kind = .functionDeclaration ∧
          (inference.typing.class? token.address).isSome = true ∧
          inference.typing.class? token.address =
            inference.typing.declaredClass? (Text.ofString "b") (some scope)) ∧
        ∃ token, codebase.Resolves token (.text (Text.ofString "b")) none ∧
          (inference.typing.class? token.address).isSome = true ∧
          inference.typing.class? token.address =
            inference.typing.declaredClass? (Text.ofString "b") none := by
  have found : ((⟨"", "b;function f(b){}"⟩ : SourceFile).parse false).result.toOption.any
      (fun root => ∃ inference ∈ root.codebase.infer.toOption,
        root.codebase.AnyResolved (.text (Text.ofString "b")) (fun token scope =>
          scope.node.kind = .functionDeclaration ∧ (inference.typing.class? token.address).isSome) ∧
        ∃ token ∈ root.walk, token.isNamed (.text (Text.ofString "b")) ∧
          root.codebase.namesVariable token ∧
          (root.codebase.declaringScope? token.address (.text (Text.ofString "b"))).isNone ∧
          (inference.typing.class? token.address).isSome) = true := by
    decide +kernel
  obtain ⟨root, parseEq, parsed, inference, inferred, isLocal, token, inside, named, names, none, typed⟩ :=
    Node.exists_isParsed found
  obtain ⟨codebase, _, analysed, _, inferEq, declared, _⟩ := class?_eq_declaredClass? parsed
  obtain rfl := Codebase.eq_of_ofRoot parsed.shaped analysed
  rw [inferEq] at inferred
  cases inferred
  have ofClass {token : Occurrence} (typed : (inference.typing.class? token.address).isSome = true) :
      (inference.typing.type? token.address).isSome = true := by
    simpa [Typing.class?] using typed
  refine ⟨root, parseEq, parsed, root.codebase, inference, analysed, inferEq, ?_, ?_⟩
  · obtain ⟨token, scope, resolves, isFunction, typed⟩ := isLocal.exists
    exact ⟨token, scope, resolves, isFunction, typed,
      declared token _ _ resolves (by decide) (ofClass typed)⟩
  · have resolves : root.codebase.Resolves token (.text (Text.ofString "b")) Option.none :=
      ⟨inside, names, Occurrence.isNamed_text.1 named, Option.isNone_iff_eq_none.1 none⟩
    exact ⟨token, resolves, typed, declared token _ _ resolves (by decide) (ofClass typed)⟩

end Namesake
