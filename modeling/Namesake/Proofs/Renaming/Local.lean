import Namesake.Proofs.Renaming.Token

/-!
The group of a variable, which a search from the scope inwards finds, lists the tokens that
resolve to the scope outwards, in the order of the text.
-/

namespace Namesake

open Occurrence List

namespace Codebase

variable {codebase : Codebase} {scope : Occurrence} {spelling : Text}
variable {name : Name} {token place : Occurrence}

def belongsTo (codebase : Codebase) (scope : Occurrence) (name : Name) (token : Occurrence) :
    Bool :=
  token.isNamed name && codebase.namesVariable token &&
    (codebase.declaringScope? token.address name).map Occurrence.address = some scope.address

theorem not_belongsTo_of_kind (notIdentifier : token.node.kind ≠ .identifier) :
    codebase.belongsTo scope (.text spelling) token = false := by
  have notNamed : token.isNamed (.text spelling) = false := by
    rw [← Bool.not_eq_true, isNamed_text]
    exact fun named => notIdentifier (kind_of_name? named)
  rw [belongsTo, notNamed]
  rfl

theorem of_belongsTo (belongs : codebase.belongsTo scope name token = true) :
    ∃ own, codebase.declaringScope? token.address name = some own ∧ own.address = scope.address := by
  rw [belongsTo, Bool.and_eq_true, decide_eq_true_eq] at belongs
  exact Option.map_eq_some_iff.1 belongs.2

theorem belongsTo_iff (scopeIn : scope.IsIn codebase.root) (inside : token ∈ codebase.root.walk) :
    codebase.belongsTo scope (.text spelling) token = true ↔
      codebase.Resolves token (.text spelling) (some scope) := by
  unfold belongsTo
  rw [Bool.and_eq_true, Bool.and_eq_true, isNamed_text, decide_eq_true_eq, Option.map_eq_some_iff]
  constructor
  · rintro ⟨⟨named, names⟩, own, resolved, same⟩
    obtain ⟨ownIn, _⟩ := of_declaringScope? resolved
    rw [ownIn.eq_of_address scopeIn same] at resolved
    exact ⟨inside, names, named, resolved⟩
  · intro resolves
    exact ⟨⟨resolves.named, resolves.names⟩, scope, resolves.resolved, rfl⟩

theorem lookForLocal_of_declares (inner : place.node.Inner)
    (notIdentifier : place.node.kind ≠ .identifier) (declares : codebase.Declares place name) :
    codebase.lookForLocal name () place = { found := place.declaredName name } := by
  have shadowing : place.node.isShadowing = true := by
    rw [Node.isShadowing, ← inner.isScope_eq]
    exact declares.1
  simp [lookForLocal, notIdentifier, shadowing, declares.2]

theorem lookForLocal_of_not_declares (inner : place.node.Inner)
    (notIdentifier : place.node.kind ≠ .identifier) (undeclared : ¬ codebase.Declares place name) :
    codebase.lookForLocal name () place = { below := some () } := by
  have notShadowing : ¬ (place.node.isShadowing &&
      codebase.scopes.declares place.address name) = true := by
    rw [Node.isShadowing, ← inner.isScope_eq, Bool.and_eq_true]
    exact undeclared
  simp only [lookForLocal, notIdentifier, notShadowing, if_false, Bool.false_eq_true]

section Shaped

variable (shaped : codebase.root.Shaped)

include shaped

theorem namesVariable_functionName {function id : Occurrence} (inside : function.IsIn codebase.root)
    (isDeclaration : function.node.kind = .functionDeclaration) (member : id ∈ function.children)
    (isIdentifier : id.node.kind = .identifier) (inner : id.node.Inner) :
    codebase.namesVariable id = true := by
  obtain ⟨step, addressEq, _⟩ := mem_children.1 member
  obtain ⟨own, _, tokenName⟩ := Occurrence.name?_of_inner inner isIdentifier
  have notCollection : function.node.kind ≠ .programCollection := by simp [isDeclaration]
  have isScope : function.node.kind.isScope = true := by simp [isDeclaration, Kind.isScope,
    Kind.isFunction]
  rw [namesVariable, shaped.usage? (inside.child member) addressEq inside notCollection tokenName,
    isIdentifier, Node.usageIn?_variable (.inl isScope)]

theorem filter_walk_of_declares {child : Occurrence} (inside : place.IsIn codebase.root)
    (declares : codebase.Declares place (.text spelling)) (member : child ∈ place.children)
    (notName : place.node.kind = .functionDeclaration → child.address ≠ ⟨0, none⟩ :: place.address)
    (outer : scope.address.length < place.address.length) :
    child.walk.filter (codebase.belongsTo scope (.text spelling)) = [] := by
  refine filter_eq_nil_iff.2 fun token tokenMember belongs => ?_
  obtain ⟨step, addressEq, _⟩ := mem_children.1 member
  obtain ⟨tokenIn, path, pathEq⟩ := (mem_walk_iff child (inside.child member)).1 tokenMember
  rw [addressEq] at pathEq notName
  have path_ne : place.node.kind = .functionDeclaration → path ++ [step] ≠ [⟨0, none⟩] := by
    intro isDeclaration same
    rcases append_eq_singleton_iff.1 same with ⟨_, stepEq⟩ | ⟨_, stepEq⟩
    · exact notName isDeclaration (by rw [singleton_inj.1 stepEq])
    · cases stepEq
  obtain ⟨inner, innerFound, below⟩ := exists_declaringScope?_below shaped inside tokenIn declares
    (by simp) (by rw [← pathEq]; simp) path_ne
  obtain ⟨own, ownFound, same⟩ := of_belongsTo belongs
  rw [innerFound] at ownFound
  cases ownFound
  have atMost := below.length_le
  rw [same] at atMost
  exact absurd outer (Nat.not_lt.2 atMost)

theorem declaredName_eq (inside : place.IsIn codebase.root) (inner : place.node.Inner)
    (declares : codebase.Declares place (.text spelling))
    (resolved : codebase.scopeAbove? place.address (.text spelling) = some scope)
    (outer : scope.address.length < place.address.length) :
    place.declaredName (.text spelling) = place.children.flatMap fun child =>
      child.walk.filter (codebase.belongsTo scope (.text spelling)) := by
  by_cases isDeclaration : place.node.kind = .functionDeclaration
  · obtain ⟨id, rest, childrenEq, addressEq, idEq, isIdentifier, idInner⟩ :=
      children_functionDeclaration inner isDeclaration
    have idMember : id ∈ place.children := by simp [childrenEq]
    have idIn := inside.child idMember
    have idResolved : codebase.declaringScope? id.address (.text spelling) = some scope := by
      rw [Occurrence.IsIn, addressEq] at idIn
      rw [addressEq, declaringScope?_functionName shaped inside isDeclaration idIn, resolved]
    have apart := place.pairwise_children
    rw [childrenEq, pairwise_cons] at apart
    have others : rest.flatMap (fun child =>
        child.walk.filter (codebase.belongsTo scope (.text spelling))) = [] := by
      refine flatMap_eq_nil_iff.2 fun child member => ?_
      refine filter_walk_of_declares shaped inside declares (by simp [childrenEq, member]) ?_ outer
      exact fun _ same => apart.1 child member (addressEq.trans same.symm)
    rw [childrenEq, flatMap_cons, others, append_nil, walk_eq,
      children_of_identifier idInner isIdentifier, Occurrence.declaredName,
      if_pos isDeclaration, idEq]
    have names := namesVariable_functionName shaped inside isDeclaration idMember isIdentifier idInner
    simp [belongsTo, names, idResolved, filter_cons]
  · rw [Occurrence.declaredName, if_neg isDeclaration]
    refine (flatMap_eq_nil_iff.2 fun child member => ?_).symm
    exact filter_walk_of_declares shaped inside declares member
      (fun isDeclaration' => absurd isDeclaration' isDeclaration) outer

theorem gather_lookForLocal (place : Occurrence) (inside : place.IsIn codebase.root)
    (inner : place.node.Inner)
    (resolved : codebase.declaringScope? place.address (.text spelling) = some scope) :
    place.gather (codebase.lookForLocal (.text spelling)) () =
      place.walk.filter (codebase.belongsTo scope (.text spelling)) := by
  induction place using Occurrence.induct with
  | step place ih =>
    rw [gather_eq, walk_eq]
    by_cases isIdentifier : place.node.kind = .identifier
    · -- An identifier resolves to the scope and has nothing below it.
      rw [children_of_identifier inner isIdentifier]
      simp [lookForLocal, isIdentifier, belongsTo, resolved, filter_cons]
    · rw [declaringScope?_of_not_identifier shaped inside isIdentifier] at resolved
      rw [filter_cons_of_neg (by simp [not_belongsTo_of_kind isIdentifier])]
      obtain ⟨_, _, step, path, addressEq⟩ := of_scopeAbove? resolved
      have outer : scope.address.length < place.address.length := by
        rw [addressEq, length_append, length_cons]
        omega
      rw [filter_flatMap]
      by_cases declares : codebase.Declares place (.text spelling)
      · -- The search stops here, and below belongs nothing but the name of a function.
        rw [lookForLocal_of_declares inner isIdentifier declares, append_nil]
        exact declaredName_eq shaped inside inner declares resolved outer
      · rw [lookForLocal_of_not_declares inner isIdentifier declares, nil_append]
        refine flatMap_congr fun child member => ?_
        obtain ⟨_, _, found⟩ := mem_children.1 member
        refine ih child member (inside.child member) (inner.child found) ?_
        rw [declaringScope?_child shaped inside declares member, resolved]

theorem not_belongsTo_functionName {id : Occurrence} (inside : scope.IsIn codebase.root)
    (isDeclaration : scope.node.kind = .functionDeclaration) (idIn : id.IsIn codebase.root)
    (addressEq : id.address = ⟨0, none⟩ :: scope.address) :
    codebase.belongsTo scope name id = false := by
  rw [← Bool.not_eq_true]
  intro belongs
  obtain ⟨own, ownFound, same⟩ := of_belongsTo belongs
  rw [Occurrence.IsIn, addressEq] at idIn
  rw [addressEq, declaringScope?_functionName shaped inside isDeclaration idIn] at ownFound
  obtain ⟨_, _, step, path, pathEq⟩ := of_scopeAbove? ownFound
  have shorter := congrArg List.length pathEq
  rw [same, length_append, length_cons] at shorter
  omega

theorem flatMap_searchStarts (inside : scope.IsIn codebase.root) (inner : scope.node.Inner) :
    (searchStarts scope).flatMap (fun child => child.walk.filter (codebase.belongsTo scope name)) =
      scope.children.flatMap fun child => child.walk.filter (codebase.belongsTo scope name) := by
  unfold searchStarts
  by_cases isDeclaration : scope.node.kind = .functionDeclaration
  · obtain ⟨id, rest, childrenEq, addressEq, idEq, isIdentifier, idInner⟩ :=
      children_functionDeclaration inner isDeclaration
    have apart := scope.pairwise_children
    rw [childrenEq, pairwise_cons] at apart
    have idIn := inside.child (childrenEq ▸ mem_cons_self : id ∈ scope.children)
    have stepEq : scope.node.stepTo "id" = ⟨0, none⟩ := by
      rw [Node.stepTo, isDeclaration]
      rfl
    have kept : rest.filter (fun child => !(scope.node.kind = .functionDeclaration &&
        child.address = scope.node.stepTo "id" :: scope.address)) = rest := by
      refine filter_eq_self.2 fun child member => ?_
      have different := apart.1 child member
      rw [addressEq] at different
      simpa [isDeclaration, stepEq] using different.symm
    rw [childrenEq, filter_cons_of_neg (by simp [isDeclaration, stepEq, addressEq]), kept,
      flatMap_cons, walk_eq, children_of_identifier idInner isIdentifier]
    simp [not_belongsTo_functionName shaped inside isDeclaration idIn addressEq]
  · rw [filter_eq_self.2 (by simp [isDeclaration])]

theorem localGroup_eq (inside : scope.IsIn codebase.root) (inner : scope.node.Inner)
    (declares : codebase.Declares scope (.text spelling)) :
    codebase.localGroup scope (.text spelling) =
      codebase.root.walk.filter (codebase.belongsTo scope (.text spelling)) := by
  have notIdentifier : scope.node.kind ≠ .identifier := by
    intro isIdentifier
    have isScope := declares.1
    rw [isIdentifier] at isScope
    cases isScope
  have below (token : Occurrence) (belongs : codebase.belongsTo scope (.text spelling) token = true) :
      scope.address <:+ token.address := by
    obtain ⟨own, ownFound, same⟩ := of_belongsTo belongs
    obtain ⟨_, _, step, path, pathEq⟩ := of_declaringScope? ownFound
    exact ⟨path ++ [step], by rw [pathEq, same]; simp⟩
  rw [Node.filter_walk_of_suffix inside fun token _ => below token, walk_eq,
    filter_cons_of_neg (by simp [not_belongsTo_of_kind notIdentifier]), filter_flatMap,
    ← flatMap_searchStarts shaped inside inner]
  refine flatMap_congr fun child member => ?_
  rw [searchStarts, mem_filter] at member
  obtain ⟨_, _, found⟩ := mem_children.1 member.1
  refine gather_lookForLocal shaped child (inside.child member.1) (inner.child found) ?_
  refine declaringScope?_child_of_declares shaped inside declares member.1 ?_
  intro isDeclaration addressEq
  have stepEq : scope.node.stepTo "id" = ⟨0, none⟩ := by
    rw [Node.stepTo, isDeclaration]
    rfl
  simp [isDeclaration, stepEq, addressEq] at member

theorem mem_localGroup_iff (inside : scope.IsIn codebase.root) (inner : scope.node.Inner)
    (declares : codebase.Declares scope (.text spelling)) :
    token ∈ codebase.localGroup scope (.text spelling) ↔
      codebase.Resolves token (.text spelling) (some scope) := by
  rw [localGroup_eq shaped inside inner declares, mem_filter]
  constructor
  · rintro ⟨tokenIn, belongs⟩
    exact (belongsTo_iff inside tokenIn).1 belongs
  · intro resolves
    exact ⟨resolves.inside, (belongsTo_iff inside resolves.inside).2 resolves⟩

theorem renameLocal_spec (resolves : codebase.Resolves token name (some scope))
    (shadowing : scope.node.isShadowing = true) :
    codebase.renameLocal token =
        .ok { kind := .localVariable, name, groups := [codebase.localGroup scope name] } ∧
      ((codebase.localGroup scope name).map Occurrence.address).Nodup ∧
      ∀ other, other ∈ codebase.localGroup scope name ↔
        codebase.Resolves other name (some scope) := by
  obtain ⟨spelling, rfl⟩ := shaped.text_of_name? (Node.mem_walk.1 resolves.inside) resolves.named
  obtain ⟨scopeIn, declares, _⟩ := of_declaringScope? resolves.resolved
  have notProgram : scope.node.kind ≠ .program := by
    intro kindEq
    simp [Node.isShadowing, kindEq, Kind.isFunction] at shadowing
  have notCollection : scope.node.kind ≠ .programCollection := by
    intro kindEq
    simp [Node.isShadowing, kindEq, Kind.isFunction] at shadowing
  have inner := shaped.inner scopeIn notProgram notCollection
  refine ⟨?_, ?_, ?_⟩
  · simp only [renameLocal, resolves.named, resolves.resolved, notProgram, if_false]
  · rw [localGroup_eq shaped scopeIn inner declares]
    exact codebase.root.nodup_walk.sublist (filter_sublist.map _)
  · exact fun other => mem_localGroup_iff shaped scopeIn inner declares

end Shaped

end Codebase

/-- A variable of a function or a catch clause has one group.  The group lists every token that
resolves to the same scope, each of them once and nothing else, and all of its places are
known. -/
theorem renameLocal_eq_resolved {root : Node} (parsed : root.IsParsed) :
    ∃ codebase, Codebase.ofRoot root = .ok codebase ∧ codebase.root = root ∧
      ∀ token name scope, codebase.Resolves token name (some scope) →
        scope.node.isShadowing = true →
        ∃ group places,
          codebase.renameLocal token = .ok { kind := .localVariable, name, groups := [group] } ∧
          (group.map Occurrence.address).Nodup ∧
          (∀ other, other ∈ group ↔ codebase.Resolves other name (some scope)) ∧
          codebase.ranges [group] = .ok [places] ∧ places.length = group.length := by
  have shaped : root.codebase.root.Shaped := parsed.shaped
  refine ⟨root.codebase, Codebase.ofRoot_eq shaped, rfl, ?_⟩
  intro token name scope resolves shadowing
  obtain ⟨renamed, apart, members⟩ := Codebase.renameLocal_spec shaped resolves shadowing
  obtain ⟨places, placesEq, lengthEq⟩ := root.codebase.exists_ranges fun other member => by
    have otherResolves := (members other).1 member
    exact Codebase.located_of_inner
      (shaped.inner_of_name? (Node.mem_walk.1 otherResolves.inside) otherResolves.named)
  exact ⟨_, places, renamed, apart, members, placesEq, lengthEq⟩

/-- An inner function that has the name of a parameter and declares it again. -/
theorem renameLocal_eq_resolved_redeclared :
    ∃ root, ((⟨"", "function f(a){function a(a){}}"⟩ : SourceFile).parse false).result = .ok root ∧
      root.IsParsed ∧ ∃ codebase token scope group, Codebase.ofRoot root = .ok codebase ∧
        codebase.Resolves token (.text (Text.ofString "a")) (some scope) ∧
        scope.node.isShadowing = true ∧
        codebase.renameLocal token = .ok
          { kind := .localVariable, name := .text (Text.ofString "a"), groups := [group] } ∧
        ∀ other, other ∈ group ↔
          codebase.Resolves other (.text (Text.ofString "a")) (some scope) := by
  have found : ((⟨"", "function f(a){function a(a){}}"⟩ : SourceFile).parse false).result.toOption.any
      (fun root => root.codebase.AnyResolved (.text (Text.ofString "a"))
        fun _ scope => scope.node.isShadowing) = true := by
    decide +kernel
  obtain ⟨root, parseEq, parsed, found⟩ := Node.exists_isParsed found
  obtain ⟨token, scope, resolves, shadowing⟩ := found.exists
  obtain ⟨codebase, analysed, _, renamed⟩ := renameLocal_eq_resolved parsed
  obtain rfl := Codebase.eq_of_ofRoot parsed.shaped analysed
  obtain ⟨group, _, groupEq, _, member, _⟩ := renamed token _ scope resolves shadowing
  exact ⟨root, parseEq, parsed, root.codebase, token, scope, group, analysed, resolves, shadowing,
    groupEq, member⟩

end Namesake
