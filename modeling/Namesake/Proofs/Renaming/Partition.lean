import Namesake.Proofs.Renaming.Label
import Namesake.Proofs.Renaming.PropertyGroups

/-!
Whatever a token names, the answer for it has one group that holds it: the tokens that stand for
the same.
-/

namespace Namesake

def Node.Names (root : Node) (token : Occurrence) : Prop :=
  token.IsIn root ∧ ∃ usage, root.usage? token = .ok (some usage)

theorem Node.names_of_usage? {root : Node} {token : Occurrence} (inside : token ∈ root.walk)
    (used : (root.usage? token).toOption.any Option.isSome = true) : root.Names token := by
  refine ⟨Node.mem_walk.1 inside, ?_⟩
  cases usageEq : root.usage? token with
  | error fault =>
    rw [usageEq] at used
    cases used
  | ok usage =>
    rw [usageEq] at used
    obtain ⟨usage, rfl⟩ := Option.isSome_iff_exists.1 (show usage.isSome = true from used)
    exact ⟨usage, rfl⟩

def Occurrence.isAmong (token : Occurrence) (group : List Occurrence) : Bool :=
  group.any fun other => other.address = token.address

def Target.kind : Target → RenameKind
  | bound _ => .localVariable
  | global => .globalVariable
  | label _ | jump _ => .label
  | property _ => .property

namespace Codebase

variable {codebase : Codebase} {typing : Typing} {token : Occurrence} {spelling : Text}
  {target : Target}

theorem isAmong_tokensOf (inside : token.IsIn codebase.root) :
    token.isAmong (codebase.tokensOf typing target spelling) = true ↔
      codebase.target? typing token = some (target, spelling) := by
  rw [Occurrence.isAmong, List.any_eq_true]
  constructor
  · rintro ⟨other, member, same⟩
    obtain ⟨otherIn, found⟩ := mem_tokensOf.1 member
    rwa [otherIn.eq_of_address inside (of_decide_eq_true same)] at found
  · intro found
    exact ⟨token, mem_tokensOf.2 ⟨inside, found⟩, decide_eq_true rfl⟩

theorem filter_classGroups (inside : token.IsIn codebase.root) {type : TypeId}
    (found : codebase.target? typing token = some (.property type, spelling)) :
    (codebase.classGroups typing spelling).filter token.isAmong =
      [codebase.tokensOf typing (.property type) spelling] := by
  have isClass : type ∈ codebase.classesOf typing spelling :=
    mem_classesOf.2 ⟨token, mem_tokensOf.2 ⟨inside, found⟩⟩
  have sameClass (other : TypeId) :
      token.isAmong (codebase.tokensOf typing (.property other) spelling) = (other == type) := by
    rw [Bool.eq_iff_iff, isAmong_tokensOf inside, found, beq_iff_eq]
    constructor
    · intro same
      cases same
      rfl
    · rintro rfl
      rfl
  rw [classGroups, List.filter_map]
  simp only [Function.comp_def, sameClass]
  rw [List.filter_beq, List.count_eq_one_of_mem (nodup_classesOf spelling) isClass]
  rfl

def groupsOf (codebase : Codebase) (typing : Typing) (spelling : Text) :
    Target → List (List Occurrence)
  | .property _ => codebase.classGroups typing spelling
  | target => [codebase.tokensOf typing target spelling]

theorem exists_target_of_mem_groupsOf {group : List Occurrence}
    (member : group ∈ codebase.groupsOf typing spelling target) :
    ∃ target, group = codebase.tokensOf typing target spelling := by
  cases target with
  | property type => exact exists_target_of_mem_classGroups member
  | _ => exact ⟨_, List.mem_singleton.1 member⟩

theorem filter_groupsOf (inside : token.IsIn codebase.root)
    (found : codebase.target? typing token = some (target, spelling)) :
    (codebase.groupsOf typing spelling target).filter token.isAmong =
      [codebase.tokensOf typing target spelling] := by
  cases target with
  | property type => exact filter_classGroups inside found
  | _ => exact List.filter_cons_of_pos ((isAmong_tokensOf inside).2 found)

def ownGroup (codebase : Codebase) (typing : Typing) (token : Occurrence) : List Occurrence :=
  match codebase.target? typing token with
  | some (target, spelling) => codebase.tokensOf typing target spelling
  | none => []

theorem ownGroup_eq (found : codebase.target? typing token = some (target, spelling)) :
    codebase.ownGroup typing token = codebase.tokensOf typing target spelling := by
  rw [ownGroup, found]

theorem ownGroup_of_mem {member : Occurrence} (isMember : member ∈ codebase.ownGroup typing token) :
    member.IsIn codebase.root ∧ codebase.target? typing member = codebase.target? typing token ∧
      codebase.ownGroup typing member = codebase.ownGroup typing token := by
  cases found : codebase.target? typing token with
  | none =>
    rw [ownGroup, found] at isMember
    cases isMember
  | some entry =>
    obtain ⟨target, spelling⟩ := entry
    rw [ownGroup_eq found] at isMember
    obtain ⟨inside, memberFound⟩ := mem_tokensOf.1 isMember
    exact ⟨inside, memberFound, by rw [ownGroup_eq found, ownGroup_eq memberFound]⟩

theorem ownGroup_eq_or_disjoint (left right : Occurrence) :
    codebase.ownGroup typing left = codebase.ownGroup typing right ∨
      (codebase.ownGroup typing left).Disjoint (codebase.ownGroup typing right) := by
  by_cases common : ∃ token, token ∈ codebase.ownGroup typing left ∧
      token ∈ codebase.ownGroup typing right
  · obtain ⟨token, ofLeft, ofRight⟩ := common
    exact .inl ((ownGroup_of_mem ofLeft).2.2.symm.trans (ownGroup_of_mem ofRight).2.2)
  · exact .inr fun token ofLeft ofRight => common ⟨token, ofLeft, ofRight⟩

section Shaped

variable (shaped : codebase.root.Shaped)

include shaped

theorem localGroup_eq_tokensOf {scope : Occurrence} (inside : scope.IsIn codebase.root)
    (inner : scope.node.Inner) (declares : codebase.Declares scope (.text spelling)) :
    codebase.localGroup scope (.text spelling) =
      codebase.tokensOf typing (.bound scope.address) spelling := by
  rw [localGroup_eq shaped inside inner declares, tokensOf]
  refine List.filter_congr fun token member => ?_
  rw [Bool.eq_iff_iff, belongsTo_iff inside member, decide_eq_true_iff,
    target?_eq_bound shaped (Node.mem_walk.1 member)]
  constructor
  · exact fun resolves => ⟨scope, resolves, inner.kind_ne.1, rfl⟩
  · rintro ⟨place, resolves, _, same⟩
    obtain ⟨placeIn, _⟩ := of_declaringScope? resolves.resolved
    rwa [placeIn.eq_of_address inside same] at resolves

omit shaped in
theorem isGlobalProperty_eq {inference : Inference} {base : Occurrence} {type : TypeId}
    (isClass : inference.typing.class? base.address = some type) :
    isGlobalProperty inference (some base) =
      .ok (decide (type = inference.typing.graph.root Typing.globalType), inference.typing) := by
  rw [isGlobalProperty, run_bind (run_baseRepresentative isClass)]
  rfl

theorem rename?_of_label (inside : token.IsIn codebase.root)
    (used : codebase.root.usage? token = .ok (some ⟨.label, .text spelling⟩))
    (found : codebase.target? typing token = some (target, spelling)) :
    codebase.rename? token = .ok (some
      { kind := .label, name := .text spelling,
        groups := [codebase.tokensOf typing target spelling] }) := by
  rw [target?_of_usage? used, targetOf?_label shaped inside] at found
  cases found
  obtain ⟨named, _⟩ := (shaped.usage?_label inside).1 used
  rw [Occurrence.tokenName?_eq_name? (shaped.inner_of_tokenName? inside named)
    (shaped.kind_of_usage?_label inside used)] at named
  rw [rename?, used]
  change (codebase.renameLabel token >>= fun answer => pure (some answer)) = _
  rw [renameLabel, named, ← labelGroup_eq shaped inside used]
  rfl

theorem rename?_of_bound (inside : token.IsIn codebase.root)
    (used : codebase.root.usage? token = .ok (some ⟨.variable, .text spelling⟩)) {scope : Occurrence}
    (declared : codebase.declaringScope? token.address (.text spelling) = some scope)
    (notProgram : scope.node.kind ≠ .program) :
    codebase.rename? token = .ok (some
      { kind := .localVariable, name := .text spelling,
        groups := [codebase.tokensOf typing (.bound scope.address) spelling] }) := by
  obtain ⟨names, named⟩ := (usage?_variable shaped inside).1 used
  have resolves : codebase.Resolves token (.text spelling) (some scope) :=
    ⟨Node.mem_walk.2 inside, names, named, declared⟩
  obtain ⟨scopeIn, declares, _⟩ := of_declaringScope? declared
  have shadowing := (Node.isScope_iff.1 declares.1).resolve_left notProgram
  have inner := shaped.inner scopeIn notProgram (Node.kind_ne_of_isShadowing shadowing).2
  have isLocal : isGlobalScope (some scope) = false := isGlobalScope_of_shadowing shadowing
  rw [rename?, used]
  change (if isGlobalScope (codebase.declaringScope? token.address (.text spelling)) = true then
    codebase.renameGlobal (.text spelling) >>= fun answer => pure (some answer)
    else codebase.renameLocal token >>= fun answer => pure (some answer)) = _
  rw [declared, isLocal, if_neg Bool.false_ne_true, (renameLocal_spec shaped resolves shadowing).1,
    localGroup_eq_tokensOf shaped scopeIn inner declares]
  rfl

section Inferred

variable {inference : Inference} (inferEq : codebase.infer = .ok inference)
  (covers : inference.typing.Covers codebase.root)

include inferEq covers

theorem rename?_of_global (used : codebase.root.usage? token = .ok (some ⟨.variable, .text spelling⟩))
    (isGlobal : isGlobalScope (codebase.declaringScope? token.address (.text spelling)) = true) :
    codebase.rename? token = .ok (some
      { kind := .globalVariable, name := .text spelling,
        groups := [codebase.tokensOf inference.typing .global spelling],
        inference := some inference }) := by
  rw [rename?, used]
  change (if isGlobalScope (codebase.declaringScope? token.address (.text spelling)) = true then
    codebase.renameGlobal (.text spelling) >>= fun answer => pure (some answer)
    else codebase.renameLocal token >>= fun answer => pure (some answer)) = _
  rw [if_pos isGlobal, renameGlobal, inferEq]
  change (codebase.renameGlobalWith inference inference.typing (.text spelling) >>= _) = _
  rw [renameGlobalWith_eq shaped covers]
  rfl

theorem rename?_of_property {base : Occurrence}
    (used : codebase.root.usage? token = .ok (some ⟨.property (some base), .text spelling⟩))
    {type : TypeId} (isClass : inference.typing.class? base.address = some type) :
    codebase.rename? token = .ok (some (if type = inference.typing.graph.root Typing.globalType then
        { kind := .globalVariable, name := .text spelling,
          groups := [codebase.tokensOf inference.typing .global spelling],
          inference := some inference }
      else
        { kind := .property, name := .text spelling,
          groups := codebase.classGroups inference.typing spelling,
          inference := some inference })) := by
  rw [rename?, used]
  change (codebase.infer >>= fun inference => isGlobalProperty inference (some base) >>=
    fun answer => if answer.1 = true then
      codebase.renameGlobalWith inference answer.2 (.text spelling) >>= fun found => pure (some found)
    else
      codebase.renamePropertyWith inference answer.2 (.text spelling) >>=
        fun found => pure (some found)) = _
  rw [inferEq]
  change (isGlobalProperty inference (some base) >>= _) = _
  rw [isGlobalProperty_eq isClass]
  by_cases isGlobal : type = inference.typing.graph.root Typing.globalType
  · rw [if_pos isGlobal]
    refine (if_pos (decide_eq_true isGlobal)).trans ?_
    rw [renameGlobalWith_eq shaped covers]
    rfl
  · rw [if_neg isGlobal]
    refine (if_neg (by simpa using isGlobal)).trans ?_
    rw [renamePropertyWith_eq shaped covers]
    rfl

theorem rename?_of_target (inside : token.IsIn codebase.root)
    (found : codebase.target? inference.typing token = some (target, spelling)) :
    ∃ answer, codebase.rename? token = .ok (some answer) ∧ answer.kind = target.kind ∧
      answer.name = .text spelling ∧
      answer.groups = codebase.groupsOf inference.typing spelling target := by
  obtain ⟨role, used, ofRole⟩ := target?_eq_some.1 found
  cases target with
  | bound scope =>
    obtain rfl : role = .variable := of_targetOf? ofRole
    obtain ⟨place, declared, notProgram, rfl⟩ := targetOf?_variable_eq_bound.1 ofRole
    exact ⟨_, rename?_of_bound shaped inside used declared notProgram, rfl, rfl, rfl⟩
  | label | jump =>
    obtain rfl : role = .label := of_targetOf? ofRole
    exact ⟨_, rename?_of_label shaped inside used found, rfl, rfl, rfl⟩
  | global =>
    rcases of_targetOf? ofRole with rfl | ⟨base, rfl⟩
    · exact ⟨_, rename?_of_global shaped inferEq covers used
        (targetOf?_variable_eq_global.1 ofRole), rfl, rfl, rfl⟩
    · obtain ⟨object, rfl, isGlobal⟩ := targetOf?_property_eq_global.1 ofRole
      have renamed := rename?_of_property shaped inferEq covers used (of_decide_eq_true isGlobal)
      rw [if_pos rfl] at renamed
      exact ⟨_, renamed, rfl, rfl, rfl⟩
  | property type =>
    obtain ⟨base, rfl⟩ : ∃ base, role = .property base := of_targetOf? ofRole
    obtain ⟨object, rfl, isClass, notGlobal⟩ := targetOf?_property_eq_property.1 ofRole
    have renamed := rename?_of_property shaped inferEq covers used isClass
    rw [if_neg notGlobal] at renamed
    exact ⟨_, renamed, rfl, rfl, rfl⟩

omit shaped covers in
theorem classify?_of_target
    (found : codebase.target? inference.typing token = some (target, spelling)) :
    codebase.classify? token = .ok (some target.kind) := by
  obtain ⟨role, used, ofRole⟩ := target?_eq_some.1 found
  rw [classify?, used]
  cases role with
  | «variable» =>
    change (if isGlobalScope (codebase.declaringScope? token.address (.text spelling)) = true then
      Except.ok (some RenameKind.globalVariable) else .ok (some .localVariable)) = _
    simp only [targetOf?] at ofRole
    split at ofRole
    · rename_i declared
      cases ofRole
      rw [declared]
      rfl
    · rename_i scope declared
      cases ofRole
      rw [declared]
      by_cases isProgram : scope.node.kind = .program <;>
        simp [isGlobalScope, isProgram, Target.kind]
  | label =>
    simp only [targetOf?] at ofRole
    split at ofRole
    all_goals cases ofRole
    all_goals rfl
  | property base =>
    obtain ⟨type, isClass, targetEq⟩ := Option.map_eq_some_iff.1 ofRole
    obtain ⟨object, rfl, isClass⟩ := Option.bind_eq_some_iff.1 isClass
    change (codebase.infer >>= fun inference => isGlobalProperty inference (some object) >>=
      fun answer => pure (some (if answer.1 = true then RenameKind.globalVariable
        else .property))) = _
    rw [inferEq]
    change (isGlobalProperty inference (some object) >>= _) = _
    rw [isGlobalProperty_eq isClass, ← targetEq]
    by_cases isGlobal : type = inference.typing.graph.root Typing.globalType <;>
      simp [isGlobal, Target.kind]

theorem exists_rename? (inside : token.IsIn codebase.root)
    (found : codebase.target? inference.typing token = some (target, spelling)) :
    ∃ answer, codebase.rename? token = .ok (some answer) ∧
      answer.groups.filter token.isAmong = [codebase.tokensOf inference.typing target spelling] := by
  obtain ⟨answer, renamed, _, _, groupsEq⟩ := rename?_of_target shaped inferEq covers inside found
  refine ⟨answer, renamed, ?_⟩
  rw [groupsEq]
  exact filter_groupsOf inside found

end Inferred

end Shaped

end Codebase

/-- Groups divide the tokens that name something.  The answer for a token has exactly one group that
holds it, and that group holds it once; asking for any token of the group gives the group again,
and the groups of two tokens are the same or have nothing in common. -/
theorem rename?_partition {root : Node} (parsed : root.IsParsed) :
    ∃ codebase, Codebase.ofRoot root = .ok codebase ∧ codebase.root = root ∧
      ∃ own : Occurrence → List Occurrence, (∀ token, root.Names token →
          (∃ answer, codebase.rename? token = .ok (some answer) ∧
            answer.groups.filter token.isAmong = [own token]) ∧
          token ∈ own token ∧ ((own token).map Occurrence.address).Nodup ∧
          ∀ member ∈ own token, root.Names member ∧ own member = own token) ∧
        ∀ left right, root.Names left → root.Names right →
          own left = own right ∨ (own left).Disjoint (own right) := by
  have shaped : root.codebase.root.Shaped := parsed.shaped
  obtain ⟨inference, inferEq, covers⟩ := exists_covering parsed.shaped
  refine ⟨root.codebase, Codebase.ofRoot_eq shaped, rfl,
    root.codebase.ownGroup inference.typing, ?_, fun left right _ _ =>
      Codebase.ownGroup_eq_or_disjoint left right⟩
  rintro token ⟨inside, usage, used⟩
  obtain ⟨target, spelling, _, found⟩ := Codebase.exists_target? shaped inside covers used
  refine ⟨?_, ?_, ?_, ?_⟩
  · rw [Codebase.ownGroup_eq found]
    exact Codebase.exists_rename? shaped inferEq covers inside found
  · rw [Codebase.ownGroup_eq found]
    exact Codebase.mem_tokensOf.2 ⟨inside, found⟩
  · rw [Codebase.ownGroup_eq found]
    exact Codebase.nodup_tokensOf target
  · intro member isMember
    obtain ⟨memberIn, sameTarget, sameGroup⟩ := Codebase.ownGroup_of_mem isMember
    obtain ⟨role, memberUsed, _⟩ := Codebase.target?_eq_some.1 (sameTarget.trans found)
    exact ⟨⟨memberIn, _, memberUsed⟩, sameGroup⟩

/-- A variable and a property have one group. -/
theorem rename?_partition_receiver :
    ∃ root, ((⟨"", "a;this.a"⟩ : SourceFile).parse false).result = .ok root ∧
      root.IsParsed ∧ ∃ codebase left right answer other,
        Codebase.ofRoot root = .ok codebase ∧ root.Names left ∧ root.Names right ∧
        left.address ≠ right.address ∧
        codebase.rename? left = .ok (some answer) ∧ codebase.rename? right = .ok (some other) ∧
        answer.groups.filter left.isAmong = other.groups.filter right.isAmong := by
  have found : ((⟨"", "a;this.a"⟩ : SourceFile).parse false).result.toOption.any
      (fun root => ∃ left ∈ root.walk, ∃ right ∈ root.walk, left.address ≠ right.address ∧
        (root.usage? left).toOption.any Option.isSome ∧
          (root.usage? right).toOption.any Option.isSome ∧
          (root.codebase.rename? left).toOption.any fun answer => answer.any fun answer =>
            ∃ group ∈ answer.groups, left.isAmong group ∧ right.isAmong group) = true := by
    decide +kernel
  obtain ⟨root, parseEq, parsed, left, leftIn, right, rightIn, different, leftUsed, rightUsed,
    together⟩ := Node.exists_isParsed found
  have leftNames := Node.names_of_usage? leftIn leftUsed
  have rightNames := Node.names_of_usage? rightIn rightUsed
  obtain ⟨codebase, analysed, _, own, groups, _⟩ := rename?_partition parsed
  obtain rfl := Codebase.eq_of_ofRoot parsed.shaped analysed
  obtain ⟨⟨answer, answerEq, ofLeft⟩, _, _, members⟩ := groups left leftNames
  obtain ⟨⟨other, otherEq, ofRight⟩, _⟩ := groups right rightNames
  rw [answerEq] at together
  obtain ⟨group, groupMember, leftAmong, rightAmong⟩ := of_decide_eq_true together
  have isOwn : group ∈ [own left] := ofLeft ▸ List.mem_filter.2 ⟨groupMember, leftAmong⟩
  obtain ⟨member, isMember, same⟩ := List.any_eq_true.1 rightAmong
  rw [List.mem_singleton.1 isOwn] at isMember
  obtain ⟨memberNames, sameGroup⟩ := members member isMember
  obtain rfl := memberNames.1.eq_of_address rightNames.1 (of_decide_eq_true same)
  exact ⟨root, parseEq, parsed, root.codebase, left, member, answer, other, analysed, leftNames,
    rightNames, different, answerEq, otherEq, by rw [ofLeft, ofRight, sameGroup]⟩

end Namesake
