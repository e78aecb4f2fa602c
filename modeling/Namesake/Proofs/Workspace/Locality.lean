import Namesake.Proofs.Workspace.Ranges

/-!
What a local name stands for has an owner, which is part of one program, so renaming a local
name changes one file.
-/

namespace Namesake

def Target.owner? : Target → Option Address
  | bound scope => some scope
  | label statement => some statement
  | jump function => function
  | global | property _ => none

namespace Codebase

variable {codebase : Codebase} {typing : Typing} {token other : Occurrence} {spelling : Text}
  {target : Target}

theorem groupsOf_of_local (isLocal : Workspace.isLocalKind target.kind = true) :
    codebase.groupsOf typing spelling target = [codebase.tokensOf typing target spelling] := by
  cases target with
  | property type => cases isLocal
  | _ => rfl

section Shaped

variable (shaped : codebase.root.Shaped)

include shaped

theorem exists_owner (inside : token.IsIn codebase.root)
    (found : codebase.target? typing token = some (target, spelling))
    (isLocal : Workspace.isLocalKind target.kind = true) :
    ∃ owner : Occurrence, target.owner? = some owner.address ∧ owner.IsIn codebase.root ∧
      owner.node.kind ≠ .programCollection ∧ owner.address <:+ token.address := by
  obtain ⟨role, used, ofRole⟩ := target?_eq_some.1 found
  have ofLabel (isLabel : role = .label) :
      ∃ owner : Occurrence, target.owner? = some owner.address ∧ owner.IsIn codebase.root ∧
        owner.node.kind ≠ .programCollection ∧ owner.address <:+ token.address := by
    subst isLabel
    rw [targetOf?_label shaped inside, Option.some.injEq] at ofRole
    have inner := shaped.inner_of_tokenName? inside (tokenName?_of_target? shaped inside found)
    obtain ⟨home, homeEq⟩ : ∃ home, codebase.home? (.text spelling) token.address = some home :=
      exists_home? shaped inside inner
    obtain ⟨homeIn, isHome, step, path, below⟩ := of_home? homeEq
    rw [homeEq, Target.ofHome] at ofRole
    refine ⟨home, ?_, homeIn, ?_, ?_⟩
    · rw [← ofRole]
      split
      · rfl
      · rfl
    · intro isCollection
      simp [Codebase.isHome, isLabelled, isCollection, Kind.isFunction] at isHome
    · rw [below]
      exact (List.suffix_cons step home.address).trans (List.suffix_append path _)
  cases target with
  | bound scope =>
    obtain rfl : role = .variable := of_targetOf? ofRole
    obtain ⟨place, declared, _, rfl⟩ := targetOf?_variable_eq_bound.1 ofRole
    obtain ⟨placeIn, declares, step, path, below⟩ := of_declaringScope? declared
    refine ⟨place, rfl, placeIn, ?_, ?_⟩
    · intro isCollection
      have isScope := declares.1
      rw [isCollection] at isScope
      cases isScope
    · rw [below]
      exact (List.suffix_cons step place.address).trans (List.suffix_append path _)
  | label | jump => exact ofLabel (of_targetOf? ofRole)
  | global | property => cases isLocal

theorem suffix_of_target? (inside : token.IsIn codebase.root) (otherIn : other.IsIn codebase.root)
    (found : codebase.target? typing token = some (target, spelling))
    (otherFound : codebase.target? typing other = some (target, spelling))
    (isLocal : Workspace.isLocalKind target.kind = true) {program : Occurrence}
    (member : program ∈ codebase.root.programs) (above : program.address <:+ token.address) :
    program.address <:+ other.address := by
  obtain ⟨owner, ownerEq, ownerIn, notCollection, ownerAbove⟩ :=
    exists_owner shaped inside found isLocal
  obtain ⟨otherOwner, otherOwnerEq, _, _, otherAbove⟩ :=
    exists_owner shaped otherIn otherFound isLocal
  have same : owner.address = otherOwner.address :=
    Option.some.inj (ownerEq.symm.trans otherOwnerEq)
  obtain ⟨holder, holderMember, holderAbove⟩ := shaped.exists_program ownerIn notCollection
  obtain rfl : program = holder :=
    shaped.program_unique member holderMember above (holderAbove.trans ownerAbove)
  rw [same] at holderAbove
  exact holderAbove.trans otherAbove

end Shaped

end Codebase

namespace Workspace

variable {workspace : Workspace} {file : String} {offset : Data} {token : Occurrence}

theorem exists_program_of_token? (found : workspace.token? file offset = some token)
    (shaped : workspace.codebase.root.Shaped) :
    ∃ program ∈ workspace.codebase.root.programs, program.node.file? = some file ∧
      program.address <:+ token.address := by
  obtain ⟨program, programFound, found⟩ := Option.bind_eq_some_iff.1 found
  have member := List.mem_of_find?_eq_some programFound
  rw [program?, Node.programOf?] at programFound
  refine ⟨program, member, of_decide_eq_true (List.find?_some programFound :), ?_⟩
  unfold Node.nodeAtOffset? at found
  split at found
  · cases found
    exact ((Occurrence.mem_walk_iff program (shaped.mem_programs.1 member).1).1
      (program.innermost_mem_walk offset)).2
  · cases found

theorem file_of_local (filed : workspace.Filed) (shaped : workspace.codebase.root.Shaped)
    {typing : Typing} {target : Target} {spelling : Text}
    (inside : token.IsIn workspace.codebase.root)
    (asked : workspace.token? file offset = some token)
    (found : workspace.codebase.target? typing token = some (target, spelling))
    (isLocal : isLocalKind target.kind = true) {other : Occurrence}
    (member : other ∈ workspace.codebase.tokensOf typing target spelling) :
    (workspace.codebase.placeOf other).file = file := by
  obtain ⟨otherIn, otherFound⟩ := Codebase.mem_tokensOf.1 member
  obtain ⟨program, programMember, fileEq, above⟩ := exists_program_of_token? asked shaped
  have otherAbove := Codebase.suffix_of_target? shaped inside otherIn found otherFound isLocal
    programMember above
  have below := (Occurrence.mem_walk_iff program (shaped.mem_programs.1 programMember).1).2
    ⟨otherIn, otherAbove⟩
  obtain ⟨source, yields, _⟩ := filed.exists_file programMember
  have otherName := Codebase.tokenName?_of_target? shaped otherIn otherFound
  rw [(spelledAt_placeOf shaped programMember yields below otherName).1]
  exact Option.some.inj (yields.file?_eq.symm.trans fileEq)

theorem file_of_rename? (filed : workspace.Filed) (shaped : workspace.codebase.root.Shaped)
    {inference : Inference} (inferEq : workspace.codebase.infer = .ok inference)
    (covers : inference.typing.Covers workspace.codebase.root)
    (inside : token.IsIn workspace.codebase.root)
    (asked : workspace.token? file offset = some token) {outcome : Renaming}
    (renamed : workspace.codebase.rename? token = .ok (some outcome))
    (isLocal : isLocalKind outcome.kind = true) {places : List (List Location)}
    (rangesEq : workspace.ranges outcome = .ok places) :
    ∀ group ∈ places, ∀ place ∈ group, place.file = file := by
  obtain ⟨usage, used⟩ := shaped.exists_usage? inside
  cases usage with
  | none =>
    rw [Codebase.rename?, used] at renamed
    cases renamed
  | some usage =>
    obtain ⟨target, spelling, _, found⟩ := Codebase.exists_target? shaped inside covers used
    obtain ⟨other, otherRenamed, kindEq, _, groupsEq⟩ :=
      Codebase.rename?_of_target shaped inferEq covers inside found
    obtain rfl : outcome = other :=
      Option.some.inj (Except.ok.inj (renamed.symm.trans otherRenamed))
    rw [kindEq] at isLocal
    rw [ranges, groupsEq, Codebase.groupsOf_of_local isLocal, Codebase.ranges_eq_of_targets shaped
      fun group member => ⟨target, List.mem_singleton.1 member⟩] at rangesEq
    obtain rfl := Except.ok.inj rangesEq
    intro group groupMember place placeMember
    obtain rfl := List.mem_singleton.1 groupMember
    obtain ⟨other, member, rfl⟩ := List.mem_map.1 placeMember
    exact file_of_local filed shaped inside asked found isLocal member

end Workspace

/-- What a workspace says about a token is what it does with it.  Whatever files were added, the
token at an offset of a file has a kind exactly if it has a renaming, and the kind is that of the
renaming.  It can be renamed locally exactly if it is a local variable or a label, and then all
places of the renaming are in this file. -/
theorem Workspace.Built.classify_eq_kind {workspace : Workspace} (built : workspace.Built)
    (file : String) (offset : Data) :
    ∃ answer : Option Renaming, workspace.renameAt file offset = .ok answer ∧
      workspace.classify file offset = .ok (answer.map Renaming.kind) ∧
      workspace.canRenameLocally file offset =
        .ok (answer.map fun outcome => isLocalKind outcome.kind) ∧
      ∀ outcome ∈ answer, ∃ places, workspace.ranges outcome = .ok places ∧
        (workspace.canRenameLocally file offset = .ok (some true) →
          ∀ group ∈ places, ∀ place ∈ group, place.file = file) := by
  have analysed := built.analysed
  obtain ⟨shaped, inference, inferEq, covers⟩ := analysed.exists_covering
  cases asked : workspace.token? file offset with
  | none =>
    have unclassified : workspace.classify file offset = .ok none := by
      rw [classify, asked]
    refine ⟨none, ?_, unclassified, ?_, by simp⟩
    · rw [renameAt, asked]
    · rw [canRenameLocally, unclassified]
      rfl
  | some token =>
    have inside := analysed.isIn_of_token? asked
    obtain ⟨answer, classified, renamed, outcomes⟩ :=
      Codebase.exists_answer shaped inferEq covers inside
    have classifiedAt : workspace.classify file offset = .ok (answer.map Renaming.kind) := by
      rw [classify, asked, ← classified]
    have isLocalAt : workspace.canRenameLocally file offset =
        .ok (answer.map fun outcome => isLocalKind outcome.kind) := by
      rw [canRenameLocally, classifiedAt]
      cases answer with
      | none => rfl
      | some outcome => rfl
    refine ⟨answer, ?_, classifiedAt, isLocalAt, ?_⟩
    · rw [renameAt, asked, ← renamed]
    · intro outcome isOutcome
      obtain ⟨places, rangesEq⟩ := outcomes outcome isOutcome
      refine ⟨places, rangesEq, fun isLocal => ?_⟩
      obtain rfl : answer = some outcome := isOutcome
      rw [isLocalAt] at isLocal
      exact file_of_rename? built.filed shaped inferEq covers inside asked renamed
        (Option.some.inj (Except.ok.inj isLocal)) rangesEq

theorem Workspace.Built.classify_eq_kind_label :
    ∃ workspace : Workspace, workspace.Built ∧ workspace.files = ["a", "b"] ∧
      ∃ outcome places, workspace.renameAt "b" (.int 0) = .ok (some outcome) ∧
        workspace.classify "b" (.int 0) = .ok (some .label) ∧
        workspace.canRenameLocally "b" (.int 0) = .ok (some true) ∧
        workspace.ranges outcome = .ok places ∧ places.map List.length = [2] ∧
        ∀ group ∈ places, ∀ place ∈ group, place.file = "b" := by
  let first := (Workspace.empty.add ⟨"a", "x:x"⟩ false).2
  have built : (first.add ⟨"b", "x:break x"⟩ false).2.Built := (empty.add _ _).add _ _
  have found : (first.add ⟨"b", "x:break x"⟩ false).2.files = ["a", "b"] ∧
      ((first.add ⟨"b", "x:break x"⟩ false).2.renameAt "b" (.int 0)).toOption.any (fun answer =>
        answer.any fun outcome => outcome.kind = .label ∧
          ((first.add ⟨"b", "x:break x"⟩ false).2.ranges outcome).toOption.any
            fun places => places.map List.length = [2]) = true := by
    simp only [first, Workspace.add, SourceFile.parse_eq_lookup]
    decide +kernel
  obtain ⟨answer, renamed, classified, isLocal, outcomes⟩ := built.classify_eq_kind "b" (.int 0)
  obtain ⟨filesEq, counted⟩ := found
  rw [renamed, Except.toOption, Option.any_some] at counted
  obtain ⟨outcome, rfl, sized⟩ := (Option.any_eq_true _ _).1 counted
  obtain ⟨kindEq, sized⟩ := of_decide_eq_true sized
  rw [Option.map_some, kindEq] at classified isLocal
  obtain ⟨places, rangesEq, inFile⟩ := outcomes outcome rfl
  rw [rangesEq] at sized
  exact ⟨_, built, filesEq, outcome, places, renamed, classified, isLocal, rangesEq,
    of_decide_eq_true sized, inFile isLocal⟩

end Namesake
