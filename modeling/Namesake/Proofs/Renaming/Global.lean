import Namesake.Proofs.Renaming.Local
import Namesake.Proofs.Renaming.Target

/-!
The group lists the tokens that no inner scope declares, and the properties of the global
object.
-/

namespace Namesake

open List Node Occurrence

theorem Node.isScope_iff {node : Node} :
    node.kind.isScope = true ↔ node.kind = .program ∨ node.isShadowing = true := by
  simp [Kind.isScope, isShadowing, or_assoc]

theorem Node.kind_ne_of_isShadowing {node : Node} (shadowing : node.isShadowing = true) :
    node.kind ≠ .program ∧ node.kind ≠ .programCollection := by
  constructor <;>
  · intro kindEq
    simp [isShadowing, kindEq, Kind.isFunction] at shadowing

namespace Codebase

variable {codebase : Codebase} {typing : Typing} {spelling : Text}
variable {name : Name} {token : Occurrence}

theorem run_bind {α β : Type} {first : Infer α} {next : α → Infer β} {before after : Typing} {value : α}
    (firstEq : first.run before = .ok (value, after)) :
    (first >>= next).run before = (next value).run after := by
  rw [StateT.run_bind, firstEq]
  rfl

theorem run_baseRepresentative {base : Occurrence} {type : TypeId}
    (found : typing.class? base.address = some type) :
    (baseRepresentative (some base)).run typing = .ok (type, typing) := by
  obtain ⟨own, ownFound, rfl⟩ := Option.map_eq_some_iff.1 found
  have asked : (Infer.typeAt base.address).run typing = .ok (own, typing) := by
    simp only [Infer.typeAt, StateT.run_bind, StateT.run_get, pure_bind, ownFound, StateT.run_pure]
    rfl
  rw [baseRepresentative, baseType, run_bind asked]
  rfl

theorem run_isGlobalObject (type : TypeId) :
    (isGlobalObject type).run typing =
      .ok (decide (type = typing.graph.root Typing.globalType), typing) :=
  rfl

/-- What the search for a global variable takes a token for. -/
def candidate? (codebase : Codebase) (name : Name) (token : Occurrence) : Option Candidate :=
  match codebase.root.usage? token with
  | .ok (some ⟨role, own⟩) =>
    if own.equals name then
      match role with
      | .variable =>
        if isGlobalScope (codebase.declaringScope? token.address name) then
          some (.variable token)
        else none
      | .property base => some (.property token base)
      | .label => none
    else none
  | _ => none

theorem candidate?_of_kind (notIdentifier : token.node.kind ≠ .identifier)
    (notLiteral : token.node.kind ≠ .literal) :
    codebase.candidate? name token = none := by
  have unnamed : token.tokenName? = none := by
    cases named : token.tokenName? with
    | none => rfl
    | some own =>
      rcases kind_of_tokenName? named with kindEq | kindEq
      · exact absurd kindEq notIdentifier
      · exact absurd kindEq notLiteral
  simp [candidate?, usage?, unnamed]

theorem lookForGlobal_of_token
    (isToken : token.node.kind = .identifier ∨ token.node.kind = .literal) {shadowed : Bool}
    (belongs : shadowed = !isGlobalScope (codebase.declaringScope? token.address name)) :
    codebase.lookForGlobal name shadowed token =
      { found := (codebase.candidate? name token).toList, below := some shadowed } := by
  have isToken' : (token.node.kind = .identifier || token.node.kind = .literal) = true := by
    simpa using isToken
  rcases used : codebase.root.usage? token with fault | _ | ⟨role, own⟩
  · simp [lookForGlobal, isToken', candidate?, used]
  · simp [lookForGlobal, isToken', candidate?, used]
  · by_cases named : own.equals name = true
    · cases role with
      | «variable» =>
        cases isGlobal : isGlobalScope (codebase.declaringScope? token.address name) <;>
          simp [lookForGlobal, isToken', candidate?, used, named, belongs, isGlobal]
      | property | label => simp [lookForGlobal, isToken', candidate?, used, named]
    · simp [lookForGlobal, isToken', candidate?, used, named]

section Shaped

variable (shaped : codebase.root.Shaped)
variable {place : Occurrence}

include shaped

theorem scopeAbove?_of_program (inside : place.IsIn codebase.root)
    (isProgram : place.node.kind = .program) :
    codebase.scopeAbove? place.address name = none := by
  rcases shaped.at? inside with ⟨_, collections⟩ | inner
  · refine List.find?_eq_none.2 fun outer member => ?_
    simp [collections outer member, Kind.isScope, Kind.isFunction]
  · exact absurd isProgram inner.kind_ne.1

theorem isGlobalScope_child {child : Occurrence} (inside : place.IsIn codebase.root)
    (notIdentifier : place.node.kind ≠ .identifier)
    (passed : (place.node.isShadowing && codebase.scopes.declares place.address name) = false)
    (member : child ∈ place.children) :
    isGlobalScope (codebase.declaringScope? child.address name) =
      isGlobalScope (codebase.declaringScope? place.address name) := by
  rw [declaringScope?_of_not_identifier shaped inside notIdentifier]
  by_cases declares : codebase.Declares place name
  · have isProgram : place.node.kind = .program := by
      obtain ⟨isScope, declared⟩ := declares
      rw [declared, Bool.and_true] at passed
      exact (isScope_iff.1 isScope).resolve_right (by simp [passed])
    rw [declaringScope?_child_of_declares shaped inside declares member (by simp [isProgram]),
      scopeAbove?_of_program shaped inside isProgram]
    simp [isGlobalScope, isProgram]
  · rw [declaringScope?_child shaped inside declares member]

omit shaped in
theorem isGlobalScope_of_shadowing {scope : Occurrence} (shadowing : scope.node.isShadowing = true) :
    isGlobalScope (some scope) = false := by
  rw [isGlobalScope, decide_eq_false_iff_not]
  exact (kind_ne_of_isShadowing shadowing).1

theorem gather_functionName {function id : Occurrence} (inside : function.IsIn codebase.root)
    (isDeclaration : function.node.kind = .functionDeclaration) (member : id ∈ function.children)
    (isIdentifier : id.node.kind = .identifier) (inner : id.node.Inner) (spelling : Text)
    (shadowed : Bool) :
    id.gather (codebase.lookForGlobal (.text spelling)) shadowed =
      if !shadowed && id.isNamed (.text spelling) then [.variable id] else [] := by
  have idIn := inside.child member
  obtain ⟨own, named, _⟩ := Occurrence.name?_of_inner inner isIdentifier
  have names := namesVariable_functionName shaped inside isDeclaration member isIdentifier inner
  have used := (usage?_variable shaped idIn).2 ⟨names, named⟩
  rw [gather_eq, children_of_identifier inner isIdentifier]
  cases shadowed <;> by_cases same : own = spelling <;>
    simp [lookForGlobal, isIdentifier, used, Occurrence.isNamed, named, same]

theorem gather_children_of_shadowing (inside : place.IsIn codebase.root) (inner : place.node.Inner)
    (shadowing : place.node.isShadowing = true)
    (declares : codebase.Declares place (.text spelling))
    (ih : ∀ child ∈ place.children, child.IsIn codebase.root → ∀ {shadowed : Bool}, (shadowed =
      !isGlobalScope (codebase.declaringScope? child.address (.text spelling))) → child.gather
      (codebase.lookForGlobal (.text spelling)) shadowed = child.walk.filterMap
      (codebase.candidate? (.text spelling)))
    {shadowed : Bool}
    (belongs : shadowed = !isGlobalScope (codebase.declaringScope? place.address (.text spelling))) :
    (if shadowed then [] else (place.declaredName (.text spelling)).map .variable) ++
        place.children.flatMap
          (Occurrence.gather (codebase.lookForGlobal (.text spelling)) true) =
      place.children.flatMap fun child =>
        child.walk.filterMap (codebase.candidate? (.text spelling)) := by
  have below (child : Occurrence) (member : child ∈ place.children)
      (notName : place.node.kind = .functionDeclaration →
        child.address ≠ ⟨0, none⟩ :: place.address) :
      child.gather (codebase.lookForGlobal (.text spelling)) true =
        child.walk.filterMap (codebase.candidate? (.text spelling)) := by
    refine ih child member (inside.child member) ?_
    rw [declaringScope?_child_of_declares shaped inside declares member notName,
      isGlobalScope_of_shadowing shadowing]
    rfl
  by_cases isDeclaration : place.node.kind = .functionDeclaration
  · obtain ⟨id, rest, childrenEq, addressEq, idEq, isIdentifier, idInner⟩ :=
      children_functionDeclaration inner isDeclaration
    have idMember : id ∈ place.children := by simp [childrenEq]
    have idBelongs : shadowed =
        !isGlobalScope (codebase.declaringScope? id.address (.text spelling)) := by
      have idIn := inside.child idMember
      rw [Occurrence.IsIn, addressEq] at idIn
      rw [belongs, addressEq, declaringScope?_functionName shaped inside isDeclaration idIn,
        declaringScope?_of_not_identifier shaped inside (by simp [isDeclaration])]
    have apart := place.pairwise_children
    rw [childrenEq, pairwise_cons] at apart
    have others : rest.flatMap (Occurrence.gather (codebase.lookForGlobal (.text spelling)) true) =
        rest.flatMap fun child => child.walk.filterMap (codebase.candidate? (.text spelling)) :=
      flatMap_congr fun child member => below child (by simp [childrenEq, member])
        fun _ same => apart.1 child member (addressEq.trans same.symm)
    have named := gather_functionName shaped inside isDeclaration idMember isIdentifier idInner
      spelling
    rw [childrenEq, flatMap_cons, flatMap_cons, others,
      ← ih id idMember (inside.child idMember) idBelongs, named, named, Occurrence.declaredName,
      if_pos isDeclaration, idEq]
    cases shadowed <;> by_cases same : id.isNamed (.text spelling) = true <;>
      simp [same]
  · have others : place.children.flatMap
        (Occurrence.gather (codebase.lookForGlobal (.text spelling)) true) =
        place.children.flatMap fun child =>
          child.walk.filterMap (codebase.candidate? (.text spelling)) :=
      flatMap_congr fun child member => below child member
        fun isDeclaration' => absurd isDeclaration' isDeclaration
    rw [Occurrence.declaredName, if_neg isDeclaration, others]
    simp

theorem gather_lookForGlobal (place : Occurrence) (inside : place.IsIn codebase.root)
    {shadowed : Bool} (belongs : shadowed =
      !isGlobalScope (codebase.declaringScope? place.address (.text spelling))) :
    place.gather (codebase.lookForGlobal (.text spelling)) shadowed =
      place.walk.filterMap (codebase.candidate? (.text spelling)) := by
  induction place using Occurrence.induct generalizing shadowed with
  | step place ih =>
    rw [gather_eq, walk_eq, filterMap_cons]
    by_cases isToken : place.node.kind = .identifier ∨ place.node.kind = .literal
    · -- A token has nothing below it.
      rw [lookForGlobal_of_token isToken belongs, shaped.children_of_token inside isToken]
      cases codebase.candidate? (.text spelling) place <;> rfl
    · obtain ⟨notIdentifier, notLiteral⟩ := not_or.1 isToken
      rw [candidate?_of_kind notIdentifier notLiteral, filterMap_flatMap]
      cases passed : place.node.isShadowing &&
          codebase.scopes.declares place.address (.text spelling) with
      | true =>
        obtain ⟨shadowing, declared⟩ := Bool.and_eq_true_iff.1 passed
        have isScope := isScope_iff.2 (.inr shadowing)
        obtain ⟨notProgram, notCollection⟩ := kind_ne_of_isShadowing shadowing
        have inner := shaped.inner inside notProgram notCollection
        rw [lookForGlobal, if_neg (by simpa using isToken), if_pos passed]
        exact gather_children_of_shadowing shaped inside inner shadowing ⟨isScope, declared⟩
          ih belongs
      | false =>
        rw [lookForGlobal, if_neg (by simpa using isToken), if_neg (by simp [passed])]
        refine flatMap_congr fun child member => ?_
        refine ih child member (inside.child member) ?_
        rw [isGlobalScope_child shaped inside notIdentifier passed member, belongs]

theorem candidate?_cases (covers : typing.Covers codebase.root) (inside : token.IsIn codebase.root)
    (spelling : Text) :
    (codebase.candidate? (.text spelling) token = none ∧
      codebase.target? typing token ≠ some (.global, spelling)) ∨
    (codebase.candidate? (.text spelling) token = some (.variable token) ∧
      codebase.target? typing token = some (.global, spelling)) ∨
    ∃ base type, codebase.candidate? (.text spelling) token = some (.property token (some base)) ∧
      typing.class? base.address = some type ∧
      (codebase.target? typing token = some (.global, spelling) ↔
        type = typing.graph.root Typing.globalType) := by
  obtain ⟨_ | ⟨role, name⟩, used⟩ := shaped.exists_usage? inside
  · simp [candidate?, target?, used]
  obtain ⟨named, _⟩ := shaped.exists_usageIn? inside used
  obtain ⟨own, rfl⟩ := shaped.text_of_tokenName? inside named
  by_cases same : own = spelling
  · subst same
    rw [target?_of_usage? used]
    cases role with
    | «variable» =>
      by_cases isGlobal : isGlobalScope (codebase.declaringScope? token.address (.text own)) = true
      · simp [candidate?, used, isGlobal, targetOf?_variable_eq_global.2 isGlobal]
      · refine .inl ⟨by simp [candidate?, used, isGlobal], fun found => isGlobal ?_⟩
        obtain ⟨_, ofRole, same⟩ := Option.map_eq_some_iff.1 found
        cases same
        exact targetOf?_variable_eq_global.1 ofRole
    | property base =>
      obtain ⟨_, object, rfl, isProperty⟩ := (shaped.usage?_property inside).1 used
      obtain ⟨type, found⟩ := Option.isSome_iff_exists.1 (covers object token isProperty)
      refine .inr (.inr ⟨object, typing.graph.root type, by simp [candidate?, used], ?_, ?_⟩)
      · simp [Typing.class?, found]
      · simp [targetOf?, Typing.class?, found]
    | label =>
      refine .inl ⟨by simp [candidate?, used], fun found => ?_⟩
      obtain ⟨_, ofRole, same⟩ := Option.map_eq_some_iff.1 found
      cases same
      rcases of_targetOf? ofRole with isVariable | ⟨_, isProperty⟩
      · cases isVariable
      · cases isProperty
  · refine .inl ⟨by simp [candidate?, used, same], fun found => ?_⟩
    obtain ⟨_, otherUsed, _⟩ := target?_eq_some.1 found
    rw [used] at otherUsed
    cases otherUsed
    exact same rfl

omit shaped in
theorem run_globalTokens_property {base : Occurrence} {type : TypeId}
    (found : typing.class? base.address = some type) {rest : List Candidate}
    {others : List Occurrence} (restEq : (globalTokens rest).run typing = .ok (others, typing)) :
    (globalTokens (.property token (some base) :: rest)).run typing =
      .ok (if type = typing.graph.root Typing.globalType then token :: others else others,
        typing) := by
  rw [globalTokens, run_bind (run_baseRepresentative found), run_bind (run_isGlobalObject type),
    run_bind restEq]
  simp only [decide_eq_true_eq]
  rfl

theorem run_globalTokens (covers : typing.Covers codebase.root) (spelling : Text)
    (tokens : List Occurrence) (inside : ∀ token ∈ tokens, token.IsIn codebase.root) :
    (globalTokens (tokens.filterMap (codebase.candidate? (.text spelling)))).run typing =
      .ok (tokens.filter fun token => codebase.target? typing token = some (.global, spelling),
        typing) := by
  induction tokens with
  | nil => rfl
  | cons token rest ih =>
    rw [forall_mem_cons] at inside
    have restEq := ih inside.2
    rw [filterMap_cons, filter_cons]
    rcases candidate?_cases shaped covers inside.1 spelling with
      ⟨notCandidate, notGlobal⟩ | ⟨isVariable, isGlobal⟩ | ⟨base, type, isProperty, found, iff⟩
    · simpa [notCandidate, notGlobal] using restEq
    · simp [isVariable, globalTokens, isGlobal, restEq]
    · rw [isProperty]
      exact (run_globalTokens_property found restEq).trans (by simp only [iff, decide_eq_true_eq])

theorem run_globalGroup (covers : typing.Covers codebase.root) (spelling : Text) :
    (codebase.globalGroup (.text spelling)).run typing =
      .ok (codebase.tokensOf typing .global spelling, typing) := by
  have gathered : codebase.root.gather (codebase.lookForGlobal (.text spelling)) false [] =
      codebase.root.walk.filterMap (codebase.candidate? (.text spelling)) :=
    gather_lookForGlobal shaped ⟨[], codebase.root⟩ rfl rfl
  rw [globalGroup, gathered]
  exact run_globalTokens shaped covers spelling codebase.root.walk fun _ => mem_walk.1

theorem mem_tokensOf_global :
    token ∈ codebase.tokensOf typing .global spelling ↔
      (∃ scope, codebase.Resolves token (.text spelling) scope ∧ isGlobalScope scope = true) ∨
      (token.tokenName? = some (.text spelling) ∧
        ∃ base, Occurrence.PropertyOf codebase.root base token ∧
          typing.isGlobalAt base.address = true) := by
  rw [mem_tokensOf]
  constructor
  · rintro ⟨inside, found⟩
    exact (target?_eq_global shaped inside).1 found
  · intro isGlobal
    have inside : token.IsIn codebase.root := by
      rcases isGlobal with ⟨_, resolves, _⟩ | ⟨_, _, isProperty, _⟩
      · exact mem_walk.1 resolves.inside
      · exact isProperty.isIn_token
    exact ⟨inside, (target?_eq_global shaped inside).2 isGlobal⟩

theorem renameGlobalWith_eq (covers : typing.Covers codebase.root) (inference : Inference)
    (spelling : Text) :
    codebase.renameGlobalWith inference typing (.text spelling) = .ok
      { kind := .globalVariable, name := .text spelling,
        groups := [codebase.tokensOf typing .global spelling], inference := some inference } := by
  rw [renameGlobalWith, run_globalGroup shaped covers spelling]
  rfl

theorem renameGlobal_eq {inference : Inference} (inferEq : codebase.infer = .ok inference)
    (covers : inference.typing.Covers codebase.root) (spelling : Text) :
    codebase.renameGlobal (.text spelling) = .ok
      { kind := .globalVariable, name := .text spelling,
        groups := [codebase.tokensOf inference.typing .global spelling],
        inference := some inference } := by
  rw [renameGlobal, inferEq]
  exact renameGlobalWith_eq shaped covers inference spelling

end Shaped

end Codebase

/-- A global variable has one group.  The group lists the tokens of its name that no function and no
catch clause declares, in every file, and the properties of the global object, each of them once
and nothing else.  All of its places are known. -/
theorem renameGlobal_eq_resolved {root : Node} (parsed : root.IsParsed) :
    ∃ codebase inference, Codebase.ofRoot root = .ok codebase ∧ codebase.root = root ∧
      codebase.infer = .ok inference ∧ ∀ spelling, ∃ group places,
        codebase.renameGlobal (.text spelling) = .ok
          { kind := .globalVariable, name := .text spelling, groups := [group],
            inference := some inference } ∧
        (group.map Occurrence.address).Nodup ∧
        (∀ token, token ∈ group ↔
          (∃ scope, codebase.Resolves token (.text spelling) scope ∧
            Codebase.isGlobalScope scope = true) ∨
          (token.tokenName? = some (.text spelling) ∧
            ∃ base, Occurrence.PropertyOf root base token ∧
              inference.typing.isGlobalAt base.address = true)) ∧
        (∀ token scope, codebase.Resolves token (.text spelling) (some scope) →
          scope.node.isShadowing = true → token ∉ group) ∧
        codebase.ranges [group] = .ok [places] ∧ places.length = group.length := by
  have shaped : root.codebase.root.Shaped := parsed.shaped
  obtain ⟨inference, inferEq, covers⟩ := exists_covering parsed.shaped
  refine ⟨root.codebase, inference, Codebase.ofRoot_eq shaped, rfl, inferEq, fun spelling => ?_⟩
  obtain ⟨places, placesEq, lengthEq⟩ :=
    Codebase.exists_ranges_tokensOf shaped inference.typing .global spelling
  refine ⟨_, places, ?_, Codebase.nodup_tokensOf .global,
    fun token => Codebase.mem_tokensOf_global shaped, ?_, placesEq, lengthEq⟩
  · rw [Codebase.renameGlobal, inferEq]
    exact Codebase.renameGlobalWith_eq shaped covers inference spelling
  · intro token scope resolves shadowing member
    obtain ⟨inside, isGlobal⟩ := Codebase.mem_tokensOf.1 member
    have notProgram := (Node.kind_ne_of_isShadowing shadowing).1
    have isBound := isGlobal.symm.trans
      ((Codebase.target?_eq_bound shaped inside).2 ⟨scope, resolves, notProgram, rfl⟩)
    cases isBound

/-- A variable and a property of the global object, and a parameter of the same name. -/
theorem renameGlobal_eq_resolved_receiver :
    ∃ root, ((⟨"", "a;this.a;function f(a){}"⟩ : SourceFile).parse false).result = .ok root ∧
      root.IsParsed ∧ ∃ codebase inference group,
        Codebase.ofRoot root = .ok codebase ∧ codebase.infer = .ok inference ∧
        codebase.renameGlobal (.text (Text.ofString "a")) = .ok
          { kind := .globalVariable, name := .text (Text.ofString "a"), groups := [group],
            inference := some inference } ∧
        group.length = 2 ∧
        ∀ token, token ∈ group ↔
          (∃ scope, codebase.Resolves token (.text (Text.ofString "a")) scope ∧
            Codebase.isGlobalScope scope = true) ∨
          (token.tokenName? = some (.text (Text.ofString "a")) ∧
            ∃ base, Occurrence.PropertyOf root base token ∧
              inference.typing.isGlobalAt base.address = true) := by
  have found : ((⟨"", "a;this.a;function f(a){}"⟩ : SourceFile).parse false).result.toOption.any
      (fun root => ∃ answer ∈ (root.codebase.renameGlobal (.text (Text.ofString "a"))).toOption,
        answer.groups.map List.length = [2]) = true := by
    decide +kernel
  obtain ⟨root, parseEq, parsed, _, answered, sized⟩ := Node.exists_isParsed found
  obtain ⟨codebase, inference, analysed, rootEq, inferEq, renamed⟩ := renameGlobal_eq_resolved parsed
  obtain ⟨group, _, groupEq, _, members, _⟩ := renamed (Text.ofString "a")
  obtain rfl := Codebase.eq_of_ofRoot parsed.shaped analysed
  rw [groupEq] at answered
  cases answered
  exact ⟨root, parseEq, parsed, root.codebase, inference, group, analysed, inferEq, groupEq,
    by simpa using sized, members⟩

end Namesake
