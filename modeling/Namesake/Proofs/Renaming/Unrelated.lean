import Namesake.Proofs.Inference.Counterparts
import Namesake.Proofs.Inference.Lookups
import Namesake.Proofs.Renaming.Counterparts
import Namesake.Proofs.Renaming.Partition
import Namesake.Proofs.Tree.Addition

/-!
A program that has nothing to do with the others changes nothing for them: what it demands is
about types that their demands say nothing of.
-/

namespace Namesake

open Option Codebase Node

variable {trees : List Node} {added : Node}

section Demands

variable (shaped : ∀ tree ∈ trees, tree.Shaped) (addedShaped : added.Shaped)

def AddedDemands (trees : List Node) (added : Node) (constraint : Constraint) : Prop :=
  ∃ own, added.Demands own ∧ constraint = own.move (· ++ lastPlace trees)

include shaped addedShaped

theorem constraintsAt_ofTrees {place : Occurrence} (inside : place.IsIn (collection trees))
    (holds : (Transfer.ofTrees shaped addedShaped).Holds place.address) :
    (collection (trees ++ [added])).constraintsAt place =
      (collection trees).constraintsAt place := by
  refine (Transfer.constraintsAt_carry inside holds).trans ?_
  rw [show (Transfer.ofTrees shaped addedShaped).move = id from rfl, Constraint.move_id, List.map_id]

theorem demands_append : (collection (trees ++ [added])).Demands =
    Together (collection trees).Demands (AddedDemands trees added) := by
  funext constraint
  refine propext ⟨?_, ?_⟩
  · rintro ⟨place, inside, demanded⟩
    rcases Transfer.place_cases shaped addedShaped inside (kind_of_constraintsAt demanded) with
      ⟨holds, isIn⟩ | ⟨own, isIn, rfl⟩
    · rw [constraintsAt_ofTrees shaped addedShaped isIn holds] at demanded
      exact .inl ⟨place, isIn, demanded⟩
    · have carried := (Transfer.ofAdded shaped addedShaped).constraintsAt_carry isIn trivial
      rw [carried] at demanded
      obtain ⟨constraint, ownDemanded, rfl⟩ := List.mem_map.1 demanded
      exact .inr ⟨constraint, ⟨own, isIn, ownDemanded⟩, rfl⟩
  · rintro (⟨place, inside, demanded⟩ | ⟨own, ⟨place, inside, demanded⟩, rfl⟩)
    · have holds := Transfer.holds_ofTrees shaped addedShaped inside (kind_of_constraintsAt demanded)
      refine ⟨place, (Transfer.isIn_carry holds).2 inside, ?_⟩
      rwa [constraintsAt_ofTrees shaped addedShaped inside holds]
    · exact (Transfer.ofAdded shaped addedShaped).demands_carry inside trivial demanded

end Demands

/-- A collection of parsed trees, and another one that has nothing to do with them and is added. -/
structure Enlargement (trees : List Node) (added : Node) : Prop where
  parsed : ∀ tree ∈ trees, tree.IsParsed
  addedParsed : added.IsParsed
  unrelated : added.Unrelated (collection trees)

namespace Enlargement

variable (larger : Enlargement trees added)

include larger in
theorem shaped_of_mem {tree : Node} (member : tree ∈ trees) : tree.Shaped :=
  (larger.parsed tree member).shaped

def oldTrees : Transfer (collection trees) (collection (trees ++ [added])) :=
  .ofTrees (fun _ => larger.shaped_of_mem) larger.addedParsed.shaped

def newTree : Transfer added (collection (trees ++ [added])) :=
  .ofAdded (fun _ => larger.shaped_of_mem) larger.addedParsed.shaped

include larger

theorem holds_oldTrees {place : Occurrence} (inside : place.IsIn (collection trees))
    (notCollection : place.node.kind ≠ .programCollection) :
    larger.oldTrees.Holds place.address :=
  Transfer.holds_ofTrees _ _ inside notCollection

theorem exists_places {typing otherTyping : Typing} {target other : Target} {spelling : Text}
    (sameTokens : (collection (trees ++ [added])).codebase.tokensOf otherTyping other spelling =
      (collection trees).codebase.tokensOf typing target spelling) :
    ∃ places, (collection trees).codebase.ranges
          [(collection trees).codebase.tokensOf typing target spelling] = .ok [places] ∧
        (collection (trees ++ [added])).codebase.ranges
          [(collection trees).codebase.tokensOf typing target spelling] = .ok [places] := by
  have ofTarget (root : Node) (shaped : root.codebase.root.Shaped) (typing : Typing)
      (target : Target) :
      root.codebase.ranges [root.codebase.tokensOf typing target spelling] =
        .ok [(root.codebase.tokensOf typing target spelling).map root.codebase.placeOf] :=
    ranges_eq_of_targets shaped fun group member => ⟨target, List.mem_singleton.1 member⟩
  refine ⟨_, ofTarget _ larger.oldTrees.leftShaped typing target, ?_⟩
  rw [← sameTokens, ofTarget (collection (trees ++ [added])) larger.oldTrees.rightShaped, sameTokens]
  refine congrArg (fun places => Except.ok [places]) (List.map_congr_left fun token member => ?_)
  obtain ⟨inside, found⟩ := mem_tokensOf.1 member
  have holds := larger.holds_oldTrees inside (kind_of_target? found)
  exact larger.oldTrees.placeOf_carry inside holds

theorem usage?_append_eq_none {token : Occurrence} (inside : token.IsIn (collection trees))
    (unused : (collection trees).usage? token = .ok none) :
    (collection (trees ++ [added])).usage? token = .ok none := by
  by_cases isCollection : token.node.kind = .programCollection
  · obtain ⟨address, kind, fields, location⟩ := token
    obtain rfl : kind = .programCollection := isCollection
    rfl
  · have holds := larger.holds_oldTrees inside isCollection
    have carried := larger.oldTrees.usage?_carry inside holds
    rw [unused] at carried
    exact carried

theorem separate_demands : Separate larger.oldTrees.Holds
    (collection trees).codebase.Shares (collection trees).Demands (AddedDemands trees added) where
  native constraint demanded := by
    refine (IsParsed.collection larger.parsed).native_demands (fun place inside notCollection => ?_)
      demanded
    exact Transfer.holds_append (larger.holds_oldTrees inside notCollection)
  foreign := by
    rintro _ ⟨own, demanded, rfl⟩
    exact (larger.unrelated.foreign_demands larger.addedParsed demanded).move fun type foreign =>
      foreign.move (Transfer.not_holds_append _ _)

theorem exists_separate : ∃ others, Separate larger.oldTrees.Holds
      (collection trees).codebase.Shares (WithReceivers (collection trees).Demands) others ∧
    WithReceivers (collection (trees ++ [added])).Demands =
      Together (WithReceivers (collection trees).Demands) others := by
  rw [demands_append (fun _ => larger.shaped_of_mem) larger.addedParsed.shaped]
  exact larger.separate_demands.withReceivers

variable {first second : World} (inferred : first.Inferred (collection trees))
  (otherInferred : second.Inferred (collection (trees ++ [added])))

include otherInferred

theorem class?_added {address : Address} {type : TypeId}
    (isClass : second.typing.class? (address ++ lastPlace trees) = some type) :
    type ≠ second.typing.graph.root Typing.globalType ∧
      ∀ old, larger.oldTrees.Holds old → second.typing.class? old ≠ some type := by
  obtain ⟨others, separate, same⟩ := larger.exists_separate
  have foreign : (TypeName.node (address ++ lastPlace trees)).Foreign
      larger.oldTrees.Holds (collection trees).codebase.Shares :=
    Transfer.not_holds_append _ _ address
  have mentioned : Mentions (WithReceivers (collection (trees ++ [added])).Demands)
      (address ++ lastPlace trees) := by
    obtain ⟨own, found, _⟩ := map_eq_some_iff.1 isClass
    exact otherInferred.isSome_type?_iff.1 (isSome_of_mem found)
  refine ⟨?_, fun old holds oldIsClass => ?_⟩
  · rintro rfl
    have isGlobal : second.typing.isGlobalAt (address ++ lastPlace trees) = true :=
      decide_eq_true isClass
    have native : TypeName.global.Native larger.oldTrees.Holds
        (collection trees).codebase.Shares := trivial
    have entails := (otherInferred.isGlobalAt_iff.1 isGlobal).2
    rw [same] at entails
    exact separate.not_entails native foreign entails.symm
  · have native : (TypeName.node old).Native larger.oldTrees.Holds
        (collection trees).codebase.Shares := holds
    have entails := (otherInferred.class?_eq_iff.1 (isClass.trans oldIsClass.symm)).2 mentioned
    rw [same] at entails
    exact separate.not_entails native foreign entails.symm

include inferred

theorem agrees_oldTrees :
    larger.oldTrees.Agrees first.typing second.typing := by
  obtain ⟨others, separate, same⟩ := larger.exists_separate
  have mentions {address : Address} (holds : larger.oldTrees.Holds address) :
      Mentions (WithReceivers (collection (trees ++ [added])).Demands) address ↔
        Mentions (WithReceivers (collection trees).Demands) address := by
    rw [same]
    exact separate.mentions_iff holds
  have entails {address : Address} (holds : larger.oldTrees.Holds address) (type : TypeName) :
      Entails (WithReceivers (collection (trees ++ [added])).Demands) (.node address) type ↔
        Entails (WithReceivers (collection trees).Demands) (.node address) type := by
    rw [same]
    exact separate.entails_iff holds
  refine ⟨fun address holds => ?_, fun address other holds otherHolds => ?_, fun address holds => ?_⟩
  · rw [Bool.eq_iff_iff, otherInferred.isSome_type?_iff, inferred.isSome_type?_iff]
    exact mentions holds
  · rw [otherInferred.class?_eq_iff, inferred.class?_eq_iff]
    exact and_congr (iff_congr (mentions holds) (mentions otherHolds))
      (imp_congr (mentions holds) (entails holds _))
  · rw [Bool.eq_iff_iff, otherInferred.isGlobalAt_iff, inferred.isGlobalAt_iff]
    exact and_congr (mentions holds) (entails holds _)

omit inferred

theorem target?_added {target other : Target} {spelling : Text}
    (same : larger.oldTrees.SameTarget first.typing second.typing target other)
    (shared : target = .global → (collection trees).codebase.Shares spelling)
    {own : Occurrence} (inside : own.IsIn added) :
    (collection (trees ++ [added])).codebase.target? second.typing
      (larger.newTree.carry own) ≠ some (other, spelling) := by
  intro found
  obtain ⟨_, carriedUsed, ofRole⟩ := Codebase.target?_eq_some.1 found
  obtain ⟨role, used, rfl⟩ := (Transfer.usage?_carry_eq_some inside trivial).1 carriedUsed
  -- What is named by its place would be in an old tree and in the added one.
  have elsewhere (place : Occurrence) {old : Address} (holds : larger.oldTrees.Holds old)
      (sameAddress : (larger.newTree.carry place).address = old) : False :=
    Transfer.not_holds_append _ _ place.address (sameAddress ▸ holds)
  cases same with
  | bound holds =>
    rw [of_targetOf? ofRole] at ofRole
    obtain ⟨_, declared, _, sameAddress⟩ := Codebase.targetOf?_variable_eq_bound.1 ofRole
    rw [Transfer.address_carry, (Transfer.declaringScope?_move trivial inside spelling).1]
      at declared
    obtain ⟨place, _, rfl⟩ := map_eq_some_iff.1 declared
    exact elsewhere place holds sameAddress
  | label holds =>
    rw [of_targetOf? ofRole] at ofRole
    obtain ⟨_, declared, sameAddress⟩ := Codebase.targetOf?_label_eq_label.1 ofRole
    rw [(Transfer.labelDeclaration?_carry inside trivial spelling).1] at declared
    obtain ⟨place, _, rfl⟩ := map_eq_some_iff.1 declared
    exact elsewhere place holds sameAddress
  | jump holds =>
    rw [of_targetOf? ofRole] at ofRole
    obtain ⟨_, enclosing⟩ := Codebase.targetOf?_label_eq_jump.1 ofRole
    have enclosing : ((collection (trees ++ [added])).enclosingFunction?
        (larger.newTree.move own.address)).map Occurrence.address = some _ := enclosing
    rw [(Transfer.enclosingFunction?_move trivial inside).1, map_map] at enclosing
    obtain ⟨place, _, sameAddress⟩ := map_eq_some_iff.1 enclosing
    exact elsewhere place holds sameAddress
  | global =>
    cases role with
    | «variable» =>
      have isGlobal := Codebase.targetOf?_variable_eq_global.1 ofRole
      rw [Transfer.address_carry, (Transfer.declaringScope?_move trivial inside spelling).1,
        Transfer.isGlobalScope_map] at isGlobal
      have resolves := @Codebase.resolves_of_usage? added.codebase
        larger.addedParsed.shaped _ _ inside used
      exact larger.unrelated.not_shares larger.addedParsed resolves isGlobal (shared rfl)
    | property base =>
      obtain ⟨object, objectEq, isGlobal⟩ := Codebase.targetOf?_property_eq_global.1 ofRole
      obtain ⟨object, rfl, rfl⟩ := map_eq_some_iff.1 objectEq
      exact (larger.class?_added otherInferred (of_decide_eq_true isGlobal)).1 rfl
    | label => exact nomatch of_targetOf? ofRole
  | property holds isClass otherIsClass =>
    cases role with
    | property base =>
      obtain ⟨object, objectEq, addedIsClass, _⟩ := Codebase.targetOf?_property_eq_property.1 ofRole
      obtain ⟨object, rfl, rfl⟩ := map_eq_some_iff.1 objectEq
      exact (larger.class?_added otherInferred addedIsClass).2 _ holds otherIsClass
    | «variable» | label => exact nomatch of_targetOf? ofRole

include inferred

theorem tokensOf_append {target other : Target} {spelling : Text}
    (same : larger.oldTrees.SameTarget first.typing second.typing target other)
    (shared : target = .global → (collection trees).codebase.Shares spelling) :
    (collection (trees ++ [added])).codebase.tokensOf second.typing other spelling =
      (collection trees).codebase.tokensOf first.typing target spelling := by
  have notCollection {root : Node} {typing : Typing} {target : Target} (place : Occurrence)
      (isCollection : place.node.kind = .programCollection) :
      decide (root.codebase.target? typing place = some (target, spelling)) = false := by
    rw [Codebase.target?_of_collection isCollection]
    rfl
  have agrees := larger.agrees_oldTrees inferred otherInferred
  have noneAdded : (Occurrence.walk ⟨lastPlace trees, added⟩).filter (fun token =>
      (collection (trees ++ [added])).codebase.target? second.typing token =
        some (other, spelling)) = [] := by
    refine List.filter_eq_nil_iff.2 fun token member => ?_
    have walk : Occurrence.walk ⟨lastPlace trees, added⟩ = added.walk.map larger.newTree.carry :=
      larger.newTree.carries.walk ⟨[], added⟩ trivial
    rw [walk] at member
    obtain ⟨own, ownMember, rfl⟩ := List.mem_map.1 member
    simpa using larger.target?_added otherInferred same shared (mem_walk.1 ownMember)
  -- The walk goes through the old trees first, so what is left is the same list.
  refine (filter_walk_append notCollection).trans ?_
  rw [noneAdded, List.append_nil]
  refine List.filter_congr fun token member => ?_
  by_cases isCollection : token.node.kind = .programCollection
  · rw [notCollection token isCollection, notCollection token isCollection]
  · have inside := mem_walk.1 member
    have holds := larger.holds_oldTrees inside isCollection
    exact decide_eq_decide.2 (Transfer.target?_carry_iff inside holds agrees same)

end Enlargement

theorem Codebase.shares_of_global {codebase : Codebase} (shaped : codebase.root.Shaped)
    {typing : Typing} {token : Occurrence} (inside : token.IsIn codebase.root) {spelling : Text}
    (found : codebase.target? typing token = some (.global, spelling)) :
    codebase.Shares spelling := by
  rcases (Codebase.target?_eq_global shaped inside).1 found with
    ⟨scope, resolves, isGlobal⟩ | ⟨named, base, isProperty, _⟩
  · exact .inr (.inl (mem_globalNames shaped resolves isGlobal))
  · exact .inr (.inr (mem_propertyNames shaped isProperty named))

theorem Transfer.SameTarget.kind_eq {left right : Node} {transfer : Transfer left right}
    {first second : Typing} {target other : Target}
    (same : transfer.SameTarget first second target other) : other.kind = target.kind := by
  cases same <;> rfl

theorem Codebase.rename?_of_unused {codebase : Codebase} {token : Occurrence}
    (unused : codebase.root.usage? token = .ok none) : codebase.rename? token = .ok none := by
  rw [rename?, unused]
  rfl

/-- An unrelated program changes nothing.  Whatever a token of the old trees names, its answers with
and without the added tree have one group that holds the token, and it is the same group, at the
same places.  A token that names nothing has no answer in either. -/
theorem rename?_of_unrelated_added (parsed : ∀ tree ∈ trees, tree.IsParsed)
    (addedParsed : added.IsParsed) (unrelated : added.Unrelated (collection trees)) :
    ∃ codebase other, Codebase.ofRoot (collection trees) = .ok codebase ∧
      Codebase.ofRoot (collection (trees ++ [added])) = .ok other ∧
      ∀ token : Occurrence, token.IsIn (collection trees) → ((collection trees).Names token →
          ∃ answer otherAnswer group places, codebase.rename? token = .ok (some answer) ∧
            other.rename? token = .ok (some otherAnswer) ∧
            otherAnswer.kind = answer.kind ∧ otherAnswer.name = answer.name ∧
            answer.groups.filter token.isAmong = [group] ∧
            otherAnswer.groups.filter token.isAmong = [group] ∧
            codebase.ranges [group] = .ok [places] ∧ other.ranges [group] = .ok [places]) ∧
        (¬ (collection trees).Names token →
          codebase.rename? token = .ok none ∧ other.rename? token = .ok none) := by
  have larger : Enlargement trees added := ⟨parsed, addedParsed, unrelated⟩
  have shaped : (collection trees).codebase.root.Shaped := larger.oldTrees.leftShaped
  have otherShaped : (collection (trees ++ [added])).codebase.root.Shaped :=
    larger.oldTrees.rightShaped
  obtain ⟨inference, world, inferEq, typingEq, inferred⟩ := exists_inferred shaped
  obtain ⟨otherInference, otherWorld, otherInferEq, otherTypingEq, otherInferred⟩ :=
    exists_inferred otherShaped
  have covers := inferred.covers shaped
  have otherCovers := otherInferred.covers otherShaped
  have agrees := larger.agrees_oldTrees inferred otherInferred
  have sameTokens {target other : Target} {spelling : Text} :=
    @Enlargement.tokensOf_append _ _ larger _ _ inferred otherInferred target other spelling
  rw [typingEq] at covers agrees sameTokens
  rw [otherTypingEq] at otherCovers agrees sameTokens
  refine ⟨(collection trees).codebase, (collection (trees ++ [added])).codebase,
    Codebase.ofRoot_eq shaped, Codebase.ofRoot_eq otherShaped, fun token inside => ⟨?_, ?_⟩⟩
  · rintro ⟨_, usage, used⟩
    obtain ⟨target, spelling, _, found⟩ := Codebase.exists_target? shaped inside covers used
    have holds := larger.holds_oldTrees inside (Codebase.kind_of_target? found)
    have otherIn := (Transfer.isIn_carry holds).2 inside
    obtain ⟨other, same⟩ := Transfer.exists_sameTarget inside holds agrees found
    have otherFound := (Transfer.target?_carry_iff inside holds agrees same).2 found
    have sameTokens := sameTokens same fun isGlobal =>
      Codebase.shares_of_global shaped inside (isGlobal ▸ found)
    obtain ⟨answer, renamed, kindEq, nameEq, groupsEq⟩ :=
      Codebase.rename?_of_target shaped inferEq covers inside found
    obtain ⟨otherAnswer, otherRenamed, otherKindEq, otherNameEq, otherGroupsEq⟩ :=
      Codebase.rename?_of_target otherShaped otherInferEq otherCovers otherIn otherFound
    obtain ⟨places, placesEq, otherPlacesEq⟩ := larger.exists_places sameTokens
    refine ⟨answer, otherAnswer, _, places, renamed, otherRenamed, ?_, ?_, ?_, ?_, placesEq,
      otherPlacesEq⟩
    · rw [kindEq, otherKindEq, same.kind_eq]
    · rw [nameEq, otherNameEq]
    · rw [groupsEq]
      exact Codebase.filter_groupsOf inside found
    · rw [otherGroupsEq, ← sameTokens]
      exact Codebase.filter_groupsOf otherIn otherFound
  · intro namesNothing
    obtain ⟨usage, used⟩ := shaped.exists_usage? inside
    cases usage with
    | some usage => exact absurd ⟨inside, usage, used⟩ namesNothing
    | none =>
      have otherUsed := larger.usage?_append_eq_none inside used
      exact ⟨Codebase.rename?_of_unused used, Codebase.rename?_of_unused otherUsed⟩

/-- A property of the same name in the program that is added. -/
theorem rename?_of_unrelated_added_member :
    ∃ first second, ((⟨"p", "a.b"⟩ : SourceFile).parse false).result = .ok first ∧
      ((⟨"q", "c.b"⟩ : SourceFile).parse false).result = .ok second ∧
      first.IsParsed ∧ second.IsParsed ∧ second.Unrelated (collection [first]) ∧
      ∃ codebase other token answer otherAnswer group places,
        Codebase.ofRoot (collection [first]) = .ok codebase ∧
        Codebase.ofRoot (collection [first, second]) = .ok other ∧
        token.isNamed (.text (Text.ofString "b")) = true ∧
        codebase.rename? token = .ok (some answer) ∧
        other.rename? token = .ok (some otherAnswer) ∧
        answer.groups.filter token.isAmong = [group] ∧
        otherAnswer.groups.filter token.isAmong = [group] ∧
        codebase.ranges [group] = .ok [places] ∧ other.ranges [group] = .ok [places] := by
  have found : ((⟨"p", "a.b"⟩ : SourceFile).parse false).result.toOption.any (fun first =>
      (((⟨"q", "c.b"⟩ : SourceFile).parse false).result.toOption.any fun second =>
        second.Unrelated (collection [first]) ∧ ∃ token ∈ (collection [first]).walk,
            token.isNamed (.text (Text.ofString "b")) ∧
              ((collection [first]).usage? token).toOption.any Option.isSome) = true) = true := by
    simp only [SourceFile.parse_eq_lookup]
    decide +kernel
  obtain ⟨first, firstEq, firstParsed, found⟩ := Node.exists_isParsed found
  obtain ⟨second, secondEq, secondParsed, unrelated, token, inWalk, named, used⟩ :=
    Node.exists_isParsed found
  obtain ⟨codebase, other, analysed, otherAnalysed, answers⟩ :=
    rename?_of_unrelated_added (List.forall_mem_singleton.2 firstParsed) secondParsed unrelated
  obtain ⟨answer, otherAnswer, group, places, renamed, otherRenamed, _, _, own, otherOwn, placesEq,
    otherPlacesEq⟩ := (answers token (mem_walk.1 inWalk)).1 (names_of_usage? inWalk used)
  exact ⟨first, second, firstEq, secondEq, firstParsed, secondParsed, unrelated, codebase, other,
    token, answer, otherAnswer, group, places, analysed, otherAnalysed, named, renamed,
    otherRenamed, own, otherOwn, placesEq, otherPlacesEq⟩

end Namesake
