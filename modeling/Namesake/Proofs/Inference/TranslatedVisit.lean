import Namesake.Proofs.Inference.Translated

/-!
The visitors of inference only go through a tree and take the steps of which it is known that
they are mirrored.
-/

namespace Namesake

namespace Infer

variable {translation : Text → Text} (faithful : Faithful translation)

omit faithful in
theorem notDeclaration_translate (translation : Text → Text) {init : Field}
    (notDeclared : ∀ (declarations other : Field) (location : Option Location),
      init = .node (.mk .variableDeclaration [declarations, other] location) → False)
    (declarations other : Field) (location : Option Location) :
    init.translate translation false ≠
      .node (.mk .variableDeclaration [declarations, other] location) := by
  intro same
  cases init with
  | node child =>
    obtain ⟨kind, fields, own⟩ := child
    obtain ⟨rfl, fieldsEq, rfl⟩ := Node.mk.inj (Field.node.inj same)
    rcases fields with _ | ⟨first, _ | ⟨second, _ | ⟨third, rest⟩⟩⟩
    · cases fieldsEq
    · cases fieldsEq
    · exact notDeclared first second own rfl
    · cases fieldsEq
  | _ => cases same

include faithful

theorem mirrors_unifyWith {α : Type} (type : TypeId) (place : Address) (field : Field)
    {tail tail' : Infer α} (rest : Mirrors translation id tail tail') :
    let action (field : Field) (tail : Infer α) : Infer α := do
      unify type (← typeOf place field)
      tail
    Mirrors translation id (action field tail) (action (field.translate translation false) tail') :=
  (mirrors_typeOf place field false).bind fun own =>
    (mirrors_unify faithful.injective type own).bind fun _ => rest

theorem mirrors_unifyBoth (address : Address) (left right : Field) {tail tail' : Infer Bool}
    (rest : Mirrors translation id tail tail') :
    let action (left right : Field) (tail : Infer Bool) : Infer Bool := do
      let type ← typeAt address
      unify type (← typeOf (inField address 1) left)
      unify type (← typeOf (inField address 2) right)
      tail
    Mirrors translation id (action left right tail)
      (action (left.translate translation false) (right.translate translation false) tail') := by
  refine (mirrors_typeAt address).bind fun type => ?_
  exact mirrors_unifyWith faithful type _ left (mirrors_unifyWith faithful type _ right rest)

/-- A visitor that does the same under other names. -/
abbrev Mirrored {α : Type} (translation : Text → Text) (scopes : Scopes)
    (visit : Scopes → Field → Infer α) (field : Field) : Prop :=
  Mirrors translation id (visit scopes field)
    (visit (scopes.translate translation) (field.translate translation false))

/-- Whether the statements and expressions below a size are visited alike under other names. -/
structure MirroredBelow (translation : Text → Text) (scopes : Scopes) (bound : Nat) : Prop where
  statement (address : Address) (field : Field) (small : sizeOf field < bound) :
    Mirrored translation scopes (visitStatement · address ·) field
  expression (unused : Bool) (address : Address) (field : Field) (isKey : Bool)
    (small : sizeOf field < bound) :
    Mirrors translation id (visitExpression scopes unused address field)
      (visitExpression (scopes.translate translation) unused address
        (field.translate translation isKey))

variable {scopes : Scopes} {bound : Nat}

omit faithful

theorem sizeOf_node (kind : Kind) (fields : List Field) (location : Option Location) :
    sizeOf (Field.node (.mk kind fields location)) =
      1 + (1 + sizeOf kind + sizeOf fields + sizeOf location) := by
  simp

theorem mirrored_items (visit : Scopes → Field → Infer Unit)
    (visitItems : Scopes → Nat → List Field → Infer Unit)
    (nil : ∀ scopes place, visitItems scopes place [] = pure ())
    (cons : ∀ item rest place, sizeOf item < bound →
      Mirrors translation id (visitItems scopes (place + 1) rest)
        (visitItems (scopes.translate translation) (place + 1)
          (Field.translateItems translation rest)) →
      Mirrors translation id (visitItems scopes place (item :: rest))
        (visitItems (scopes.translate translation) place
          (Field.translateItems translation (item :: rest))))
    (list : ∀ scopes items, visit scopes (.list items) = visitItems scopes 0 items)
    (data : ∀ scopes value, visit scopes (.data value) = noItems (.data value))
    (node : ∀ scopes child, visit scopes (.node child) = noItems (.node child))
    (field : Field) (small : sizeOf field < bound) :
    Mirrored translation scopes visit field := by
  have visited (items : List Field) (place : Nat) (small : sizeOf items < bound) :
      Mirrors translation id (visitItems scopes place items)
        (visitItems (scopes.translate translation) place (Field.translateItems translation items)) := by
    induction items generalizing place with
    | nil =>
      rw [Field.translateItems, nil, nil]
      exact .pure () id
    | cons item rest ih =>
      rw [List.cons.sizeOf_spec] at small
      exact cons item rest place (by omega) (ih (place + 1) (by omega))
  unfold Mirrored
  cases field with
  | list items =>
    rw [Field.translate, list, list]
    exact visited items 0 (by simp at small; omega)
  | data value =>
    rw [Field.translate, data, data]
    exact mirrors_noItems (.data value) false
  | node child =>
    rw [Field.translate, node, node]
    exact mirrors_noItems (.node child) false

namespace MirroredBelow

variable (below : MirroredBelow translation scopes bound)

include below

theorem statements (address : Address) (index : Nat) (field : Field)
    (small : sizeOf field < bound) :
    Mirrored translation scopes (visitStatements · address index ·) field := by
  refine mirrored_items (visitStatements · address index ·) (visitStatementItems · address index)
    (fun _ _ => rfl) (fun item rest place small visited => ?_) (fun _ _ => rfl) (fun _ _ => rfl)
    (fun _ _ => rfl) field small
  exact (below.statement _ item (by omega)).bind fun _ => visited

theorem arguments (address : Address) (field : Field) (small : sizeOf field < bound) :
    Mirrored translation scopes (visitArguments · address ·) field := by
  refine mirrored_items (visitArguments · address ·) (visitArgumentItems · address)
    (fun _ _ => rfl) (fun item rest place small visited => ?_) (fun _ _ => rfl) (fun _ _ => rfl)
    (fun _ _ => rfl) field small
  exact (below.expression false _ item false (by omega)).bind fun _ => visited

theorem case (primitive : Bool) (address : Address) (field : Field)
    (small : sizeOf field < bound) :
    Mirrored translation scopes (visitCase · primitive address ·) field := by
  dsimp only [Mirrored]
  rw [visitCase.eq_def scopes]
  split
  · split <;> try simp only [sizeOf_node, List.cons.sizeOf_spec] at small
    · next test consequent =>
        refine (below.expression primitive _ test false (by omega)).bind fun _ => ?_
        exact below.statements address 1 consequent (by omega)
    · next test consequent _ =>
        refine (below.expression primitive _ test false (by omega)).bind fun _ => ?_
        exact below.statements address 1 consequent (by omega)
    · next test consequent _ =>
        refine (below.expression primitive _ test false (by omega)).bind fun _ => ?_
        exact below.statements address 1 consequent (by omega)
    · exact .bind_fails fun _ => .throw
    · exact .bind_fails fun _ => .throw
    · exact .bind_fails fun _ => .throw
    · exact .throw
  · exact .throw

theorem cases (primitive : Bool) (address : Address) (field : Field)
    (small : sizeOf field < bound) :
    Mirrored translation scopes (visitCases · primitive address ·) field := by
  refine mirrored_items (visitCases · primitive address ·) (visitCaseItems · primitive address)
    (fun _ _ => rfl) (fun item rest place small visited => ?_) (fun _ _ => rfl) (fun _ _ => rfl)
    (fun _ _ => rfl) field small
  exact (below.case primitive _ item (by omega)).bind fun _ => visited

include faithful

theorem declarations (address : Address) (field : Field)
    (small : sizeOf field < bound) :
    Mirrored translation scopes (visitDeclarations · address ·) field := by
  refine mirrored_items (visitDeclarations · address ·) (visitDeclarationItems · address)
    (fun _ _ => rfl) (fun item rest place small visited => ?_) (fun _ _ => rfl) (fun _ _ => rfl)
    (fun _ _ => rfl) field small
  rw [visitDeclarationItems.eq_def scopes]
  split
  · next same => cases same
  · next name init _ tail same =>
      cases same
      simp only [sizeOf_node, List.cons.sizeOf_spec] at small
      simp only [Field.translateItems, Field.translate, Node.translate, Field.translateAll,
        Kind.translateName, visitDeclarationItems, isNull_translate]
      refine (mirrors_nameIn name false).bind fun name => ?_
      refine (mirrors_variableType faithful.injective name).bind fun binding => ?_
      refine (below.expression false _ init false (by omega)).bind fun primitive => ?_
      dsimp only [id]
      split
      · refine mirrors_unifyWith faithful binding _ init ?_
        exact (mirrors_setType _ binding).bind fun _ => visited
      · exact (mirrors_setType _ binding).bind fun _ => visited
  · dsimp only
    split
    · exact .bind_fails fun _ => .bind_fails fun _ => .throw
    · exact .throw
  · exact .throw

theorem elements (address : Address) (element : TypeId) (field : Field)
    (small : sizeOf field < bound) :
    Mirrored translation scopes (visitElements · address element ·) field := by
  refine mirrored_items (visitElements · address element ·) (visitElementItems · address element)
    (fun _ _ => rfl) (fun item rest place small visited => ?_) (fun _ _ => rfl) (fun _ _ => rfl)
    (fun _ _ => rfl) field small
  simp only [Field.translateItems, visitElementItems, isNull_translate]
  split
  · refine (below.expression false _ item false (by omega)).bind fun _ => ?_
    exact mirrors_unifyWith faithful element _ item visited
  · exact visited

theorem sequence (unused : Bool) (address : Address) (items : List Field) (place : Nat)
    (small : sizeOf items < bound) :
    Mirrors translation id (visitSequence scopes unused address place items)
      (visitSequence (scopes.translate translation) unused address place
        (Field.translateItems translation items)) := by
  induction items generalizing place with
  | nil => exact .throw
  | cons item rest ih =>
    rw [List.cons.sizeOf_spec] at small
    cases rest with
    | nil =>
      refine (below.expression unused _ item false (by omega)).bind fun primitive => ?_
      refine (mirrors_typeAt address).bind fun type => ?_
      exact mirrors_unifyWith faithful type _ item (.pure primitive id)
    | cons second rest =>
      refine (below.expression true _ item false (by omega)).bind fun _ => ?_
      exact ih (place + 1) (by omega)

theorem accessor (address : Address) (type : TypeId) (isGetter : Bool) (name : Option Field)
    (field : Field) (small : sizeOf field < bound) :
    Mirrors translation id (visitAccessor scopes address type isGetter name field)
      (visitAccessor (scopes.translate translation) address type isGetter
        (name.map (Field.translateName translation)) (field.translate translation false)) := by
  rw [visitAccessor.eq_def scopes]
  split
  · next kind own params body _ =>
      simp only [sizeOf_node, List.cons.sizeOf_spec] at small
      dsimp only
      split
      · exact .throw_bind
      · next isFunction =>
          obtain rfl | rfl : kind = .functionDeclaration ∨ kind = .functionExpression := by
            simpa [Kind.isFunction, or_iff_not_imp_left] using isFunction
          all_goals
            refine (mirrors_enterFunction faithful scopes address false own params false).bind
              fun _ => ?_
            refine (below.statement _ body (by omega)).bind fun _ => ?_
            refine (mirrors_leaveScope address).bind fun _ => ?_
            cases name with
            | none => exact .pure () id
            | some name => exact mirrors_finishAccessor faithful type address isGetter params name
  · exact .throw

theorem properties (address : Address) (type : TypeId) (field : Field)
    (small : sizeOf field < bound) :
    Mirrored translation scopes (visitProperties · address type ·) field := by
  refine mirrored_items (visitProperties · address type ·) (visitPropertyItems · address type)
    (fun _ _ => rfl) (fun item rest place small visited => ?_) (fun _ _ => rfl) (fun _ _ => rfl)
    (fun _ _ => rfl) field small
  rw [visitPropertyItems.eq_def scopes]
  split
  · next same => cases same
  · next key value kind _ tail same =>
      cases same
      simp only [sizeOf_node, List.cons.sizeOf_spec] at small
      simp only [Field.translateItems, Field.translate, Node.translate, Field.translateAll,
        Kind.translateName, Kind.isKeyField, visitPropertyItems, isWord_translate,
        keyName?_translate]
      split
      · refine (below.expression false _ value false (by omega)).bind fun _ => ?_
        cases keyName? key with
        | none => exact visited
        | some name =>
          refine (mirrors_propertyNamed faithful.injective type name).bind fun property => ?_
          exact mirrors_unifyWith faithful property _ value visited
      · split
        · exact (below.accessor faithful _ type _ (keyName? key) value (by omega)).bind
            fun _ => visited
        · exact .throw_bind
  · exact .throw

theorem statementStep (address : Address) (field : Field) (small : sizeOf field ≤ bound) :
    Mirrored translation scopes (visitStatement · address ·) field := by
  dsimp only [Mirrored]
  rw [visitStatement.eq_def scopes]
  split
  · exact .pure () id
  · split <;> try simp only [sizeOf_node, List.cons.sizeOf_spec] at small
    · exact .pure () id
    · exact .pure () id
    · exact .pure () id
    · exact .pure () id
    · next body => exact below.statements address 0 body (by omega)
    · next expression =>
        exact (below.expression true _ expression false (by omega)).bind fun _ => .pure () id
    · next test consequent alternate =>
        refine (below.expression true _ test false (by omega)).bind fun _ => ?_
        refine (below.statement _ consequent (by omega)).bind fun _ => ?_
        exact below.statement _ alternate (by omega)
    · next body => exact below.statement _ body (by omega)
    · next object body =>
        refine (below.expression false _ object false (by omega)).bind fun _ => ?_
        exact below.statement _ body (by omega)
    · next discriminant cases =>
        refine (below.expression false _ discriminant false (by omega)).bind fun primitive => ?_
        exact below.cases primitive address cases (by omega)
    · next argument =>
        simp only [Field.translate, Node.translate, Field.translateAll, Kind.translateName,
          visitStatement, isNull_translate]
        split
        · exact .pure () id
        · refine (below.expression false _ argument false (by omega)).bind fun _ => ?_
          refine (mirrors_variableKnown faithful faithful.result).bind fun result => ?_
          refine (mirrors_typeOf _ argument false).bind fun type => ?_
          exact mirrors_unify faithful.injective type result
    · next argument =>
        exact (below.expression true _ argument false (by omega)).bind fun _ => .pure () id
    · next block handler finalizer =>
        refine (below.statement _ block (by omega)).bind fun _ => ?_
        refine (below.statement _ handler (by omega)).bind fun _ => ?_
        exact below.statement _ finalizer (by omega)
    · next param body =>
        refine mirrors_enterScope.bind fun _ => ?_
        refine (mirrors_nameIn param false).bind fun name => ?_
        refine (mirrors_bindName faithful.injective name).bind fun type => ?_
        refine (mirrors_setType _ type).bind fun _ => ?_
        refine (below.statement _ body (by omega)).bind fun _ => ?_
        exact mirrors_leaveScope address
    · next test body =>
        refine (below.expression true _ test false (by omega)).bind fun _ => ?_
        exact below.statement _ body (by omega)
    · next body test =>
        refine (below.statement _ body (by omega)).bind fun _ => ?_
        exact (below.expression true _ test false (by omega)).bind fun _ => .pure () id
    · next declarations _ _ test update body =>
        refine (below.declarations faithful _ declarations (by omega)).bind fun _ => ?_
        refine (below.expression true _ test false (by omega)).bind fun _ => ?_
        refine (below.expression true _ update false (by omega)).bind fun _ => ?_
        exact below.statement _ body (by omega)
    · next init test update body notDeclared =>
        have other := notDeclaration_translate translation notDeclared
        simp only [Field.translate, Node.translate, Field.translateAll, Kind.translateName,
          Kind.isKeyField, visitStatement]
        refine (below.expression true _ init false (by omega)).bind fun _ => ?_
        refine (below.expression true _ test false (by omega)).bind fun _ => ?_
        refine (below.expression true _ update false (by omega)).bind fun _ => ?_
        exact below.statement _ body (by omega)
    · next declarations _ _ right body =>
        refine (below.declarations faithful _ declarations (by omega)).bind fun _ => ?_
        refine (below.expression false _ right false (by omega)).bind fun _ => ?_
        exact below.statement _ body (by omega)
    · next left right body notDeclared =>
        have other := notDeclaration_translate translation notDeclared
        simp only [Field.translate, Node.translate, Field.translateAll, Kind.translateName,
          Kind.isKeyField, visitStatement, isNull_translate]
        split
        · exact .throw_bind
        · refine (below.expression true _ left false (by omega)).bind fun _ => ?_
          refine (below.expression false _ right false (by omega)).bind fun _ => ?_
          exact below.statement _ body (by omega)
    · next own params body =>
        refine (mirrors_enterFunction faithful scopes address false own params false).bind
          fun _ => ?_
        refine (below.statement _ body (by omega)).bind fun _ => ?_
        refine (mirrors_leaveScope address).bind fun _ => ?_
        refine (mirrors_nameIn own false).bind fun name => ?_
        refine (mirrors_variableType faithful.injective name).bind fun type => ?_
        refine (mirrors_typeAt address).bind fun function => ?_
        exact mirrors_unify faithful.injective function type
    · next declarations _ => exact below.declarations faithful address declarations (by omega)
    · exact .throw
  · exact .throw

theorem expressionStep (unused : Bool) (address : Address) (field : Field) (isKey : Bool)
    (small : sizeOf field ≤ bound) :
    Mirrors translation id (visitExpression scopes unused address field)
      (visitExpression (scopes.translate translation) unused address
        (field.translate translation isKey)) := by
  rw [visitExpression.eq_def scopes]
  split
  · exact .pure false id
  · split <;> try simp only [sizeOf_node, List.cons.sizeOf_spec] at small
    · next own params body =>
        refine (mirrors_enterFunction faithful scopes address true own params false).bind
          fun _ => ?_
        refine (below.statement _ body (by omega)).bind fun _ => ?_
        exact (mirrors_leaveScope address).bind fun _ => .pure false id
    · refine (mirrors_variableKnown faithful faithful.receiver).bind fun receiver => ?_
      refine (mirrors_typeAt address).bind fun type => ?_
      exact (mirrors_unify faithful.injective type receiver).bind fun _ => .pure false id
    · next elements =>
        refine (mirrors_typeAt address).bind fun type => ?_
        refine (mirrors_propertyKnown faithful faithful.element type).bind fun element => ?_
        exact (below.elements faithful address element elements (by omega)).bind
          fun _ => .pure false id
    · next properties =>
        refine (mirrors_typeAt address).bind fun type => ?_
        exact (below.properties faithful address type properties (by omega)).bind
          fun _ => .pure false id
    · next items => exact below.sequence faithful unused address items 0 (by simp at small; omega)
    · exact .bind_fails fun _ => .throw
    · next argument _ =>
        exact (below.expression true _ argument false (by omega)).bind fun _ => .pure true id
    · next left right =>
        refine (below.expression true _ left false (by omega)).bind fun _ => ?_
        exact (below.expression true _ right false (by omega)).bind fun _ => .pure true id
    · next operator left right =>
        simp only [Field.translate, Node.translate, Field.translateAll, Kind.translateName,
          visitExpression, isWord_translate]
        refine (below.expression false _ left false (by omega)).bind fun _ => ?_
        refine (below.expression false _ right false (by omega)).bind fun primitive => ?_
        dsimp only [id]
        split
        · split
          · exact mirrors_unifyBoth faithful address left right (.pure primitive id)
          · exact .pure primitive id
        · exact .pure true id
    · next argument _ =>
        exact (below.expression true _ argument false (by omega)).bind fun _ => .pure true id
    · next operator left right =>
        simp only [Field.translate, Node.translate, Field.translateAll, Kind.translateName,
          visitExpression, isWord_translate]
        split
        · refine (below.expression true _ left false (by omega)).bind fun _ => ?_
          refine (below.expression unused _ right false (by omega)).bind fun primitive => ?_
          refine (mirrors_typeAt address).bind fun type => ?_
          exact mirrors_unifyWith faithful type _ right (.pure primitive id)
        · split
          · refine (below.expression unused _ left false (by omega)).bind fun first => ?_
            refine (below.expression unused _ right false (by omega)).bind fun second => ?_
            split
            · exact mirrors_unifyBoth faithful address left right (.pure (first && second) id)
            · exact .pure (first && second) id
          · exact .throw
    · next test consequent alternate =>
        refine (below.expression true _ test false (by omega)).bind fun _ => ?_
        refine (below.expression unused _ consequent false (by omega)).bind fun first => ?_
        refine (below.expression unused _ alternate false (by omega)).bind fun second => ?_
        split
        · exact mirrors_unifyBoth faithful address consequent alternate (.pure (first && second) id)
        · exact .pure (first && second) id
    · next callee arguments =>
        refine (below.expression false _ callee false (by omega)).bind fun _ => ?_
        refine (below.arguments address arguments (by omega)).bind fun _ => ?_
        exact (mirrors_finishCall faithful address false callee arguments).bind
          fun _ => .pure false id
    · next callee arguments =>
        refine (below.expression false _ callee false (by omega)).bind fun _ => ?_
        refine (below.arguments address arguments (by omega)).bind fun _ => ?_
        exact (mirrors_finishCall faithful address true callee arguments).bind
          fun _ => .pure false id
    · next object property computed =>
        simp only [Field.translate, Node.translate, Field.translateAll, Kind.translateName,
          visitExpression, isTruthy_translate]
        have finished := mirrors_finishMember faithful address object property computed.isTruthy
        refine (below.expression false _ object false (by omega)).bind fun _ => ?_
        refine (mirrors_typeOf _ object false).bind fun base => ?_
        split
        · refine (below.expression true _ property true (by omega)).bind fun _ => ?_
          exact (finished base).bind fun _ => .pure false id
        · exact (finished base).bind fun _ => .pure false id
    · next name =>
        change Mirrors translation id _
          (if (name.translateName translation).isWord "undefined" then pure true else do
              let type ← variableType (name.translateName translation)
              unify (← typeAt address) type
              return false)
        rw [isWord_translateName faithful.injective faithful.undefined]
        split
        · exact .pure true id
        · refine (mirrors_variableType faithful.injective name).bind fun type => ?_
          refine (mirrors_typeAt address).bind fun own => ?_
          exact (mirrors_unify faithful.injective own type).bind fun _ => .pure false id
    · exact .pure true id
    · exact .throw
    · exact .throw
  · exact .throw

end MirroredBelow

include faithful in
theorem mirroredBelow (scopes : Scopes) (bound : Nat) : MirroredBelow translation scopes bound := by
  induction bound with
  | zero =>
    exact ⟨fun _ _ small => (Nat.not_lt_zero _ small).elim,
      fun _ _ _ _ small => (Nat.not_lt_zero _ small).elim⟩
  | succ bound ih =>
    exact ⟨fun address field small => ih.statementStep faithful address field (by omega),
      fun unused address field isKey small =>
        ih.expressionStep faithful unused address field isKey (by omega)⟩

mutual

theorem mirrors_visitRoot (faithful : Faithful translation) (scopes : Scopes) (address : Address) :
    ∀ node : Node,
    Mirrors translation id (visitRoot scopes address node)
      (visitRoot (scopes.translate translation) address (node.translate translation false))
  | node => by
    rw [visitRoot.eq_def scopes]
    split
    · next body _ _ =>
        exact (mirroredBelow faithful scopes _).statements address 0 body (Nat.lt_succ_self _)
    · next items _ => exact mirrors_visitRootItems faithful scopes address 0 items
    · next other _ notList =>
        cases other with
        | list items => exact (notList items rfl).elim
        | data value => exact mirrors_noItems (.data value) false
        | node child => exact mirrors_noItems (.node child) false
    · exact .throw
termination_by node => sizeOf node

theorem mirrors_visitRootItems (faithful : Faithful translation) (scopes : Scopes)
    (address : Address) (place : Nat) : ∀ items : List Field,
    Mirrors translation id (visitRootItems scopes address place items)
      (visitRootItems (scopes.translate translation) address place
        (Field.translateItems translation items))
  | [] => .pure () id
  | .node child :: rest =>
    (mirrors_visitRoot faithful scopes _ child).bind fun _ =>
      mirrors_visitRootItems faithful scopes address (place + 1) rest
  | .data _ :: _ => .throw
  | .list _ :: _ => .throw
termination_by items => sizeOf items

end

end Infer

variable {translation : Text → Text}

theorem Typing.resolveReceivers_translate (injective : translation.Injective) (typing : Typing) :
    (typing.translate translation).resolveReceivers =
      typing.resolveReceivers.translate translation := by
  simp only [resolveReceivers, Typing.translate, TypeGraph.complete_translate injective,
    TypeGraph.queueReceivers_translate, Inference.translate]

theorem Codebase.infer_translate (faithful : Faithful translation) {codebase : Codebase}
    {inference : Inference} (inferEq : codebase.infer = .ok inference) :
    Codebase.infer ⟨codebase.root.translate translation false, codebase.scopes.translate translation⟩ =
      .ok (inference.translate translation) := by
  have start : Typing.start.translate translation = Typing.start := by
    simp [Typing.start, Typing.translate, translateKeys, faithful.receiver, TypeGraph.translate,
      TypeGraph.empty, TypeGraph.newNode, TypeNode.translate]
  unfold Codebase.infer at inferEq ⊢
  cases ranEq : (Infer.visitRoot codebase.scopes [] codebase.root).run Typing.start with
  | error fault =>
    rw [ranEq] at inferEq
    cases inferEq
  | ok outcome =>
    rw [ranEq] at inferEq
    cases inferEq
    have mirrored := Infer.mirrors_visitRoot faithful codebase.scopes [] codebase.root
      Typing.start outcome.1 outcome.2 ranEq
    rw [start] at mirrored
    rw [mirrored]
    exact congrArg Except.ok (Typing.resolveReceivers_translate faithful.injective outcome.2)

end Namesake
