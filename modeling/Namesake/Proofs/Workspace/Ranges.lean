import Namesake.Proofs.Workspace.Files

/-!
The places of one file in a group stand together, in the order of the text, never overlap, and
show the old name.
-/

namespace Namesake

open Occurrence List

variable {token : Occurrence}

section Labels

variable {α β κ : Type} [DecidableEq κ] {items : List β} {part : β → List α} {label : β → κ}
  {key : α → κ} (nodup : (items.map label).Nodup)
  (keyed : ∀ item ∈ items, ∀ entry ∈ part item, key entry = label item)

include nodup keyed

theorem flatMap_eq_flatMap_filter :
    items.flatMap part = (items.map label).flatMap fun name =>
        (items.flatMap part).filter fun entry => key entry = name := by
  induction items with
  | nil => rfl
  | cons item rest ih =>
    rw [map_cons, nodup_cons] at nodup
    obtain ⟨ofItem, ofRest⟩ := forall_mem_cons.1 keyed
    have ownOnly : (part item).filter (fun entry => key entry = label item) = part item :=
      filter_eq_self.2 fun entry member => decide_eq_true (ofItem entry member)
    have noneLater : (rest.flatMap part).filter (fun entry => key entry = label item) = [] := by
      refine filter_eq_nil_iff.2 fun entry member isOwn => nodup.1 ?_
      obtain ⟨other, otherMember, entryMember⟩ := mem_flatMap.1 member
      rw [← of_decide_eq_true isOwn, ofRest other otherMember entry entryMember]
      exact mem_map_of_mem otherMember
    have later : ∀ name ∈ rest.map label,
        (part item ++ rest.flatMap part).filter (fun entry => key entry = name) =
          (rest.flatMap part).filter fun entry => key entry = name := by
      intro name member
      have noneFirst : (part item).filter (fun entry => key entry = name) = [] := by
        refine filter_eq_nil_iff.2 fun entry entryMember isOther => nodup.1 ?_
        rw [← ofItem entry entryMember, of_decide_eq_true isOther]
        exact member
      rw [filter_append, noneFirst, nil_append]
    rw [flatMap_cons, map_cons, flatMap_cons, filter_append, ownOnly,
      noneLater, append_nil, flatMap_congr later, ← ih nodup.2 ofRest]

omit [DecidableEq κ] in
theorem pairwise_flatMap_of_label {related : α → α → Prop}
    (each : ∀ item ∈ items, (part item).Pairwise related) :
    (items.flatMap part).Pairwise fun entry next => key entry = key next → related entry next := by
  rw [pairwise_flatMap]
  refine ⟨fun item member => ?_, ?_⟩
  · apply (each item member).imp
    intro entry next holds _
    exact holds
  · apply (pairwise_map.1 nodup).imp_of_mem
    intro item other itemMember otherMember different entry entryMember next nextMember same
    rw [keyed item itemMember entry entryMember, keyed other otherMember next nextMember] at same
    exact absurd same different

end Labels

def Occurrence.isSpelled (token : Occurrence) : Bool :=
  match token.tokenName? with
  | some (.text _) => true
  | _ => false

theorem Occurrence.isSpelled_iff :
    token.isSpelled = true ↔ ∃ spelling, token.tokenName? = some (.text spelling) := by
  unfold isSpelled
  constructor
  · intro isSpelled
    split at isSpelled
    · rename_i spelling tokenName
      exact ⟨spelling, tokenName⟩
    · cases isSpelled
  · rintro ⟨spelling, tokenName⟩
    rw [tokenName]

theorem Node.tokenName?_of_usage? {root : Node} {usage : Usage}
    (used : root.usage? token = .ok (some usage)) : token.tokenName? = some usage.name := by
  unfold usage? at used
  split at used
  · cases used
  · rename_i name tokenName
    split at used
    · rw [tokenName, name_of_usageIn? (Except.ok.inj used)]
    · cases used

theorem Occurrence.isTerm_of_tokenName? {name : Name} (named : token.tokenName? = some name) :
    token.node.kind.isTerm = true := by
  rcases kind_of_tokenName? named with kindEq | kindEq
  · rw [kindEq]
    rfl
  · rw [kindEq]
    rfl

namespace Workspace

variable {workspace : Workspace} (filed : workspace.Filed)
  (shaped : workspace.codebase.root.Shaped)
variable {spelling : Text}

section Program

variable {program : Occurrence} (member : program ∈ workspace.codebase.root.programs)
  {file : SourceFile} (yields : file.Yields program.node)

include shaped member yields

theorem placeOf_eq_namePlace (below : token ∈ program.walk) {lexeme : Token}
    (nodeEq : token.node = lexeme.term file.name)
    (named : token.tokenName? = some (.text spelling)) :
    workspace.codebase.placeOf token = lexeme.namePlace file.name := by
  obtain ⟨programIn, _⟩ := shaped.mem_programs.1 member
  obtain ⟨inside, _⟩ := (mem_walk_iff program programIn).1 below
  have fileEq : workspace.codebase.root.fileOf? token = some file.name := by
    rw [shaped.fileOf?_eq member below (shaped.inner_of_tokenName? inside named), yields.file?_eq]
  have margin : (if token.node.kind = .literal then (1 : Int) else 0) = lexeme.margin := by
    obtain ⟨address, node⟩ := token
    obtain rfl : node = lexeme.term file.name := nodeEq
    rcases Token.cases_of_tokenName? named with ⟨isIdentifier, notString, _⟩ | ⟨isLiteral, isString, _⟩
    · rw [isIdentifier, Token.margin, if_neg notString]
      rfl
    · rw [isLiteral, Token.margin, if_pos isString]
      rfl
  have located : token.node.location =
      some (.between file.name lexeme.extent.first lexeme.extent.last) := by
    rw [nodeEq, Token.location_term]
  have range : workspace.codebase.rangeOf token = .ok (lexeme.namePlace file.name) := by
    unfold Codebase.rangeOf
    simp only [fileEq, located, margin, Option.getD_some, Option.bind_eq_bind, Option.bind_some]
    rw [show (Location.between file.name lexeme.extent.first lexeme.extent.last).file = file.name
      from rfl, ite_self]
    rfl
  rw [Codebase.placeOf, range]
  rfl

theorem exists_lexemes {chosen : Occurrence → Bool}
    (named : ∀ token, chosen token = true → ∃ spelling, token.tokenName? = some (.text spelling)) :
    ∃ lexemes : List Token,
      (program.walk.filter chosen).map Occurrence.node = lexemes.map (Token.term file.name) ∧
      (program.walk.filter chosen).map workspace.codebase.placeOf =
        lexemes.map (Token.namePlace file.name) ∧
      (∀ lexeme ∈ lexemes, lexeme.IsPiece file.text.toList ∧ lexeme.WellSpelled) ∧
      lexemes.Pairwise fun lexeme next =>
        lexeme.extent.last.offset ≤ next.extent.first.offset := by
  have inTerms : ((program.walk.filter chosen).map Occurrence.node).Sublist program.node.terms := by
    have narrower : program.walk.filter chosen =
        (program.walk.filter fun token => token.node.kind.isTerm).filter chosen := by
      rw [filter_filter]
      refine filter_congr fun token below => ?_
      cases isChosen : chosen token with
      | false => rfl
      | true =>
        obtain ⟨spelling, tokenName⟩ := named token isChosen
        rw [isTerm_of_tokenName? tokenName]
        rfl
    rw [narrower, Node.terms, ← map_node_walk, filter_map]
    exact filter_sublist.map _
  obtain ⟨tolerant, parsed⟩ := yields
  obtain ⟨lexemes, nodesEq, pieces, follow⟩ := SourceFile.exists_tokens_of_sublist parsed inTerms
  refine ⟨lexemes, nodesEq, ?_, pieces, follow⟩
  have sameLength : (program.walk.filter chosen).length = lexemes.length := by
    simpa using congrArg List.length nodesEq
  apply ext_getElem
  · rw [length_map, length_map, sameLength]
  · intro index tokenBound lexemeBound
    rw [length_map] at tokenBound lexemeBound
    have nodeEq := getElem_of_eq nodesEq (by rwa [length_map])
    rw [getElem_map, getElem_map] at nodeEq
    have isChosen := mem_filter.1 (getElem_mem tokenBound)
    obtain ⟨spelling, tokenName⟩ := named _ isChosen.2
    rw [getElem_map, getElem_map]
    exact placeOf_eq_namePlace shaped member ⟨tolerant, parsed⟩ isChosen.1 nodeEq tokenName

theorem places_of_program {chosen : Occurrence → Bool}
    (named : ∀ token, chosen token = true → ∃ spelling, token.tokenName? = some (.text spelling)) :
    (∀ place ∈ (program.walk.filter chosen).map workspace.codebase.placeOf,
        place.file = file.name) ∧
      ((program.walk.filter chosen).map workspace.codebase.placeOf).Pairwise Location.Before := by
  obtain ⟨lexemes, _, placesEq, pieces, follow⟩ := exists_lexemes shaped member yields named
  rw [placesEq]
  constructor
  · intro place placeMember
    obtain ⟨lexeme, _, rfl⟩ := mem_map.1 placeMember
    rfl
  · rw [pairwise_map]
    apply follow.imp_of_mem
    intro lexeme next lexemeMember _ ordered
    obtain ⟨piece, spelled⟩ := pieces lexeme lexemeMember
    exact Token.before_namePlace piece spelled ordered

theorem spelledAt_placeOf (below : token ∈ program.walk)
    (tokenName : token.tokenName? = some (.text spelling)) :
    (workspace.codebase.placeOf token).file = file.name ∧
      token.node.SpelledAt (workspace.codebase.placeOf token) file.text spelling := by
  have isTerm : [token.node].Sublist program.node.terms := by
    rw [singleton_sublist, Node.terms, ← map_node_walk]
    exact mem_filter.2 ⟨mem_map_of_mem below, isTerm_of_tokenName? tokenName⟩
  obtain ⟨tolerant, parsed⟩ := yields
  obtain ⟨lexemes, nodesEq, pieces, _⟩ := SourceFile.exists_tokens_of_sublist parsed isTerm
  obtain ⟨lexeme, rfl, nodeEq⟩ := map_eq_singleton_iff.1 nodesEq.symm
  obtain ⟨piece, spelled⟩ := pieces lexeme (mem_singleton_self lexeme)
  rw [placeOf_eq_namePlace shaped member ⟨tolerant, parsed⟩ below nodeEq.symm tokenName]
  obtain ⟨address, node⟩ := token
  obtain rfl : lexeme.term file.name = node := nodeEq
  exact ⟨rfl, Token.spelledAt_namePlace piece spelled tokenName⟩

end Program

section Chosen

variable {chosen : Occurrence → Bool}
  (named : ∀ token, chosen token = true → ∃ spelling, token.tokenName? = some (.text spelling))

include shaped named

theorem map_placeOf_eq :
    (workspace.codebase.root.walk.filter chosen).map workspace.codebase.placeOf =
      workspace.codebase.root.programs.flatMap fun program =>
        (program.walk.filter chosen).map workspace.codebase.placeOf := by
  have noCollection : ∀ place : Occurrence, place.node.kind = .programCollection →
      chosen place = false := by
    intro place isCollection
    refine Bool.eq_false_iff.2 fun isChosen => ?_
    obtain ⟨spelling, tokenName⟩ := named place isChosen
    have isTerm := isTerm_of_tokenName? tokenName
    rw [isCollection] at isTerm
    cases isTerm
  rw [← map_flatMap]
  exact congrArg _ (shaped.filter_walk_eq noCollection ⟨[], workspace.codebase.root⟩)

include filed

theorem places_by_file :
    (workspace.codebase.root.walk.filter chosen).map workspace.codebase.placeOf =
      workspace.files.flatMap fun file =>
        ((workspace.codebase.root.walk.filter chosen).map workspace.codebase.placeOf).filter
          fun place => place.file = file := by
  have nodup := filed.nodup
  rw [filed.files_eq] at nodup ⊢
  rw [map_placeOf_eq shaped named]
  apply flatMap_eq_flatMap_filter nodup
  intro program member place placeMember
  obtain ⟨file, yields, _⟩ := filed.exists_file member
  rw [yields.file?_eq]
  exact (places_of_program shaped member yields named).1 place placeMember

theorem places_pairwise :
    ((workspace.codebase.root.walk.filter chosen).map workspace.codebase.placeOf).Pairwise
      fun place next => place.file = next.file → place.Before next := by
  have nodup := filed.nodup
  rw [filed.files_eq] at nodup
  rw [map_placeOf_eq shaped named]
  apply pairwise_flatMap_of_label nodup
  · intro program member place placeMember
    obtain ⟨file, yields, _⟩ := filed.exists_file member
    rw [yields.file?_eq]
    exact (places_of_program shaped member yields named).1 place placeMember
  · intro program member
    obtain ⟨file, yields, _⟩ := filed.exists_file member
    exact (places_of_program shaped member yields named).2

end Chosen

include filed shaped

theorem apart_of_ne {other : Occurrence} (tokenIn : token.IsIn workspace.codebase.root)
    (otherIn : other.IsIn workspace.codebase.root) (different : token ≠ other)
    {otherSpelling : Text} (tokenName : token.tokenName? = some (.text spelling))
    (otherName : other.tokenName? = some (.text otherSpelling)) :
    (workspace.codebase.placeOf token).Apart (workspace.codebase.placeOf other) := by
  have follow := places_pairwise filed shaped fun token => isSpelled_iff.1
  rw [pairwise_map] at follow
  have apart : (workspace.codebase.root.walk.filter Occurrence.isSpelled).Pairwise fun token other =>
      (workspace.codebase.placeOf token).Apart (workspace.codebase.placeOf other) := by
    apply follow.imp
    intro token other before sameFile
    exact .inl (before sameFile)
  have symmetric : Std.Symm fun token other : Occurrence =>
      (workspace.codebase.placeOf token).Apart (workspace.codebase.placeOf other) :=
    ⟨fun _ _ => Location.Apart.symm⟩
  have tokenMember := mem_filter.2 ⟨Node.mem_walk.2 tokenIn, isSpelled_iff.2 ⟨spelling, tokenName⟩⟩
  have otherMember := mem_filter.2
    ⟨Node.mem_walk.2 otherIn, isSpelled_iff.2 ⟨otherSpelling, otherName⟩⟩
  exact apart.forall tokenMember otherMember different

theorem exists_source (inside : token.IsIn workspace.codebase.root)
    (tokenName : token.tokenName? = some (.text spelling)) :
    ∃ source, workspace.source? (workspace.codebase.placeOf token).file = some source ∧
      token.node.SpelledAt (workspace.codebase.placeOf token) source spelling := by
  have inner := shaped.inner_of_tokenName? inside tokenName
  obtain ⟨program, member, suffix⟩ := shaped.exists_program inside inner.kind_ne.2
  have below := (mem_walk_iff program (shaped.mem_programs.1 member).1).2 ⟨inside, suffix⟩
  obtain ⟨file, yields, sourceEq⟩ := filed.exists_file member
  obtain ⟨fileEq, spelled⟩ := spelledAt_placeOf shaped member yields below tokenName
  refine ⟨file.text, ?_, spelled⟩
  rw [fileEq]
  exact sourceEq

omit filed shaped

/-- Whether the places of a renaming can be replaced in the sources as they are. -/
structure Replaceable (workspace : Workspace) (outcome : Renaming) (spelling : Text)
    (places : List (List Location)) : Prop where
  name_eq : outcome.name = .text spelling
  ranges_eq : workspace.ranges outcome = .ok places
  byFile : ∀ group ∈ places, group =
    workspace.files.flatMap fun file => group.filter fun place => place.file = file
  ascending : ∀ group ∈ places,
    group.Pairwise fun place next => place.file = next.file → place.Before next
  apart : places.Pairwise fun group other => ∀ place ∈ group, ∀ next ∈ other, place.Apart next
  spelled : List.Forall₂ (List.Forall₂ fun token place => ∃ source,
    workspace.source? place.file = some source ∧ token.node.SpelledAt place source spelling)
      outcome.groups places

theorem replaceable_of_targets (filed : workspace.Filed) (shaped : workspace.codebase.root.Shaped)
    {typing : Typing} {outcome : Renaming} (nameEq : outcome.name = .text spelling)
    (targets : ∀ group ∈ outcome.groups, ∃ target, group = workspace.codebase.tokensOf typing
      target spelling)
    (disjoint : outcome.groups.Pairwise List.Disjoint) :
    ∃ places, workspace.Replaceable outcome spelling places := by
  have named (target : Target) (token : Occurrence)
      (isChosen : decide (workspace.codebase.target? typing token = some (target, spelling)) = true) :
      ∃ spelling, token.tokenName? = some (.text spelling) := by
    obtain ⟨role, used, _⟩ := Codebase.target?_eq_some.1 (of_decide_eq_true isChosen)
    exact ⟨spelling, Node.tokenName?_of_usage? used⟩
  have tokenOf : ∀ group ∈ outcome.groups, ∀ token ∈ group,
      token.IsIn workspace.codebase.root ∧ token.tokenName? = some (.text spelling) := by
    intro group isGroup token member
    obtain ⟨target, rfl⟩ := targets group isGroup
    obtain ⟨inside, found⟩ := Codebase.mem_tokensOf.1 member
    exact ⟨inside, Codebase.tokenName?_of_target? shaped inside found⟩
  refine ⟨outcome.groups.map fun group => group.map workspace.codebase.placeOf, ?_⟩
  constructor
  case name_eq => exact nameEq
  case ranges_eq => exact Codebase.ranges_eq_of_targets shaped targets
  case byFile =>
    intro places isPlaces
    obtain ⟨group, isGroup, rfl⟩ := mem_map.1 isPlaces
    obtain ⟨target, rfl⟩ := targets group isGroup
    exact places_by_file filed shaped (named target)
  case ascending =>
    intro places isPlaces
    obtain ⟨group, isGroup, rfl⟩ := mem_map.1 isPlaces
    obtain ⟨target, rfl⟩ := targets group isGroup
    exact places_pairwise filed shaped (named target)
  case apart =>
    rw [pairwise_map]
    apply disjoint.imp_of_mem
    intro group other isGroup isOther noCommon place placeMember next nextMember
    obtain ⟨token, member, rfl⟩ := mem_map.1 placeMember
    obtain ⟨nextToken, nextTokenMember, rfl⟩ := mem_map.1 nextMember
    obtain ⟨inside, tokenName⟩ := tokenOf group isGroup token member
    obtain ⟨nextInside, nextName⟩ := tokenOf other isOther nextToken nextTokenMember
    refine apart_of_ne filed shaped inside nextInside ?_ tokenName nextName
    rintro rfl
    exact noCommon member nextTokenMember
  case spelled =>
    rw [forall₂_map_right_iff, forall₂_same]
    intro group isGroup
    rw [forall₂_map_right_iff, forall₂_same]
    intro token member
    obtain ⟨inside, tokenName⟩ := tokenOf group isGroup token member
    exact exists_source filed shaped inside tokenName

end Workspace

namespace Codebase

theorem disjoint_classGroups (codebase : Codebase) (typing : Typing) (spelling : Text) :
    (codebase.classGroups typing spelling).Pairwise List.Disjoint :=
  (nodup_flatten.1 (nodup_flatten_classGroups spelling).of_map).2

theorem disjoint_groupsOf (codebase : Codebase) (typing : Typing) (spelling : Text)
    (target : Target) : (codebase.groupsOf typing spelling target).Pairwise List.Disjoint := by
  cases target with
  | property type => exact codebase.disjoint_classGroups typing spelling
  | _ => exact pairwise_singleton _ _

end Codebase

theorem Workspace.exists_replaceable_of_token {workspace : Workspace} (filed : workspace.Filed)
    (shaped : workspace.codebase.root.Shaped) {inference : Inference}
    (inferEq : workspace.codebase.infer = .ok inference)
    (covers : inference.typing.Covers workspace.codebase.root)
    (inside : token.IsIn workspace.codebase.root) :
    ∃ answer, workspace.codebase.rename? token = .ok answer ∧
      ∀ outcome ∈ answer, ∃ spelling places, token.tokenName? = some (.text spelling) ∧
        workspace.Replaceable outcome spelling places := by
  obtain ⟨usage, used⟩ := shaped.exists_usage? inside
  cases usage with
  | none =>
    refine ⟨none, ?_, by simp⟩
    rw [Codebase.rename?, used]
    rfl
  | some usage =>
    obtain ⟨target, spelling, nameEq, isTarget⟩ := Codebase.exists_target? shaped inside covers used
    obtain ⟨outcome, renamed, _, outcomeName, groupsEq⟩ :=
      Codebase.rename?_of_target shaped inferEq covers inside isTarget
    have tokenName := Node.tokenName?_of_usage? used
    rw [nameEq] at tokenName
    have replaceable : ∃ places, workspace.Replaceable outcome spelling places := by
      apply replaceable_of_targets filed shaped outcomeName
      · rw [groupsEq]
        exact fun _ => Codebase.exists_target_of_mem_groupsOf
      · rw [groupsEq]
        exact workspace.codebase.disjoint_groupsOf _ _ _
    refine ⟨some outcome, renamed, ?_⟩
    intro other isOther
    obtain rfl : outcome = other := Option.some.inj isOther
    obtain ⟨places, replaceable⟩ := replaceable
    exact ⟨spelling, places, tokenName, replaceable⟩

/-- Every renaming in source files can be patched in as it is.  Whatever files were added, the token
at an offset names nothing or has a renaming whose places can be replaced, and so has every
property. -/
theorem Workspace.Built.exists_replaceable {workspace : Workspace} (built : workspace.Built) :
    (∀ file offset, ∃ answer, workspace.renameAt file offset = .ok answer ∧
      ∀ outcome ∈ answer, ∃ token spelling places,
        workspace.token? file offset = some token ∧ token.tokenName? = some (.text spelling) ∧
        workspace.Replaceable outcome spelling places) ∧
    ∀ spelling, ∃ outcome places, workspace.renameProperty (.text spelling) = .ok outcome ∧
      workspace.Replaceable outcome spelling places := by
  have analysed := built.analysed
  obtain ⟨shaped, inference, inferEq, covers⟩ := analysed.exists_covering
  constructor
  · intro file offset
    unfold renameAt
    cases found : workspace.token? file offset with
    | none => exact ⟨none, rfl, by simp⟩
    | some token =>
      obtain ⟨answer, renamed, outcomes⟩ := exists_replaceable_of_token built.filed shaped inferEq
        covers (analysed.isIn_of_token? found)
      refine ⟨answer, renamed, ?_⟩
      intro outcome isOutcome
      obtain ⟨spelling, places, tokenName, replaceable⟩ := outcomes outcome isOutcome
      exact ⟨token, spelling, places, rfl, tokenName, replaceable⟩
  · intro spelling
    obtain ⟨outcome, renamed, outcomeName, groupsEq⟩ :
        ∃ outcome, workspace.renameProperty (.text spelling) = .ok outcome ∧
          outcome.name = .text spelling ∧
          outcome.groups = workspace.codebase.classGroups inference.typing spelling :=
      ⟨_, Codebase.renameProperty_eq shaped inferEq covers spelling, rfl, rfl⟩
    have replaceable : ∃ places, workspace.Replaceable outcome spelling places := by
      apply replaceable_of_targets built.filed shaped outcomeName
      · rw [groupsEq]
        exact fun _ => Codebase.exists_target_of_mem_classGroups
      · rw [groupsEq]
        exact workspace.codebase.disjoint_classGroups _ _
    obtain ⟨places, replaceable⟩ := replaceable
    exact ⟨outcome, places, renamed, replaceable⟩

/-- A global variable of two files, in one of them as a string. -/
theorem Workspace.Built.exists_replaceable_string :
    ∃ workspace : Workspace, workspace.Built ∧ workspace.files = ["a", "b"] ∧
      ∃ outcome token spelling places, workspace.renameAt "b" (.int 0) = .ok (some outcome) ∧
        workspace.token? "b" (.int 0) = some token ∧ token.tokenName? = some (.text spelling) ∧
        places.map List.length = [2] ∧ workspace.Replaceable outcome spelling places := by
  let first := (Workspace.empty.add ⟨"a", "this['x']"⟩ false).2
  have built : (first.add ⟨"b", "x"⟩ false).2.Built := (empty.add _ _).add _ _
  have found : (first.add ⟨"b", "x"⟩ false).2.files = ["a", "b"] ∧
      ((first.add ⟨"b", "x"⟩ false).2.renameAt "b" (.int 0)).toOption.any (fun answer =>
        answer.any fun outcome => ((first.add ⟨"b", "x"⟩ false).2.ranges outcome).toOption.any
          fun places => places.map List.length = [2]) = true := by
    simp only [first, Workspace.add, SourceFile.parse_eq_lookup]
    decide +kernel
  obtain ⟨answer, renamed, outcomes⟩ := built.exists_replaceable.1 "b" (.int 0)
  obtain ⟨filesEq, counted⟩ := found
  rw [renamed, Except.toOption, Option.any_some] at counted
  obtain ⟨outcome, rfl, sized⟩ := (Option.any_eq_true _ _).1 counted
  obtain ⟨token, spelling, places, found, tokenName, replaceable⟩ := outcomes outcome rfl
  rw [replaceable.ranges_eq] at sized
  exact ⟨_, built, filesEq, outcome, token, spelling, places, renamed, found, tokenName,
    of_decide_eq_true sized, replaceable⟩

end Namesake
