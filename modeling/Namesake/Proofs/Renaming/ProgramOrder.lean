import Namesake.Proofs.Inference.Counterparts
import Namesake.Proofs.Renaming.Counterparts
import Namesake.Proofs.Renaming.PropertyGroups

/-!
Where two trees have the same programs, the groups of a property or a global variable are the
same.  Only the order of the groups may differ, and in a group the order of the files.
-/

namespace Namesake

open Codebase List

theorem exists_arranged {α β : Type} [Inhabited β] {related : α → β → Prop} {list : List α}
    {others : List β} (nodup : list.Nodup) (othersNodup : others.Nodup)
    (total : ∀ item ∈ list, ∃ other ∈ others, related item other)
    (onto : ∀ other ∈ others, ∃ item ∈ list, related item other)
    (unique : ∀ item other another, related item other → related item another → other = another)
    (injective : ∀ item another other, related item other → related another other → item = another) :
    ∃ arranged, arranged.Perm others ∧ List.Forall₂ related list arranged := by
  choose! pick picked using total
  refine ⟨list.map pick, ?_, ?_⟩
  · refine (perm_ext_iff_of_nodup ?_ othersNodup).2 fun other => ?_
    · refine nodup.map_on fun item member another anotherMember same => ?_
      have related := (picked item member).2
      rw [same] at related
      exact injective item another _ related (picked another anotherMember).2
    · constructor
      · intro member
        obtain ⟨item, itemMember, rfl⟩ := mem_map.1 member
        exact (picked item itemMember).1
      · intro member
        obtain ⟨item, itemMember, related⟩ := onto other member
        rw [unique item other _ related (picked item itemMember).2]
        exact mem_map_of_mem itemMember
  · rw [forall₂_map_right_iff, forall₂_same]
    exact fun item member => (picked item member).2

namespace Pairing

variable {left right : Node} (pairing : Pairing left right)
variable {first second : Typing}

def Corresponds (first second : Typing) (type other : TypeId) : Prop :=
  ∃ address, pairing.Holds address ∧ first.class? address = some type ∧
    second.class? (pairing.move address) = some other

section Typings

variable {pairing} {first second : Typing} (agrees : pairing.Agrees first second)

include agrees

theorem Corresponds.class?_iff (corresponds : pairing.Corresponds first second type other)
    {address : Address} (holds : pairing.Holds address) :
    second.class? (pairing.move address) = some other ↔ first.class? address = some type := by
  obtain ⟨member, memberHolds, classEq, otherEq⟩ := corresponds
  rw [← classEq, ← otherEq]
  exact agrees.classes address member holds memberHolds

theorem Corresponds.unique {another : TypeId}
    (corresponds : pairing.Corresponds first second type other)
    (alsoCorresponds : pairing.Corresponds first second type another) : other = another := by
  obtain ⟨member, memberHolds, classEq, otherEq⟩ := corresponds
  have anotherEq := (alsoCorresponds.class?_iff agrees memberHolds).2 classEq
  exact Option.some.inj (otherEq.symm.trans anotherEq)

theorem Corresponds.injective {another : TypeId}
    (corresponds : pairing.Corresponds first second type other)
    (alsoCorresponds : pairing.Corresponds first second another other) : type = another := by
  obtain ⟨member, memberHolds, classEq, otherEq⟩ := corresponds
  have anotherEq := (alsoCorresponds.class?_iff agrees memberHolds).1 otherEq
  exact Option.some.inj (classEq.symm.trans anotherEq)

theorem exists_corresponds {address : Address} (holds : pairing.Holds address)
    (classEq : first.class? address = some type) :
    ∃ other, pairing.Corresponds first second type other := by
  have typed : (first.type? address).isSome = true := by
    obtain ⟨own, found, _⟩ := Option.map_eq_some_iff.1 classEq
    rw [found]
    rfl
  rw [← agrees.typed address holds] at typed
  obtain ⟨own, found⟩ := Option.isSome_iff_exists.1 typed
  exact ⟨second.graph.root own, address, holds, classEq, by rw [Typing.class?, found]; rfl⟩

end Typings

variable (leftShaped : left.Shaped) (rightShaped : right.Shaped)
variable {type other : TypeId}

include leftShaped rightShaped

theorem agrees_transfer (agrees : pairing.Agrees first second) :
    (pairing.transfer leftShaped rightShaped).Agrees first second :=
  ⟨agrees.typed, agrees.classes, agrees.global⟩

theorem target?_carry_iff (agrees : pairing.Agrees first second) {token : Occurrence}
    (inside : token.IsIn left) (holds : pairing.Holds token.address) {target other : Target}
    (same : (pairing.transfer leftShaped rightShaped).SameTarget first second target other)
    (spelling : Text) :
    right.codebase.target? second (pairing.carry token) = some (other, spelling) ↔
      left.codebase.target? first token = some (target, spelling) :=
  Transfer.target?_carry_iff inside holds (pairing.agrees_transfer leftShaped rightShaped agrees) same

theorem Corresponds.sameTarget (corresponds : pairing.Corresponds first second type other) :
    (pairing.transfer leftShaped rightShaped).SameTarget first second (.property type)
      (.property other) := by
  obtain ⟨address, holds, isClass, otherIsClass⟩ := corresponds
  exact .property holds isClass otherIsClass

theorem filter_walk_pair {chosen picked : Occurrence → Bool}
    (agree : ∀ token : Occurrence, token.IsIn left → pairing.Holds token.address →
      picked (pairing.carry token) = chosen token)
    {pair : Occurrence × Occurrence} (member : pair ∈ pairing.pairs) :
    pair.2.walk.filter picked = (pair.1.walk.filter chosen).map pairing.carry := by
  have holds : pairing.Holds pair.1.address := ⟨pair, member, suffix_refl _⟩
  have programIn := (leftShaped.mem_programs.1 (pairing.mem_programs_left member)).1
  have walk : (pairing.carry pair.1).walk = pair.1.walk.map pairing.carry :=
    (pairing.transfer leftShaped rightShaped).carries.walk pair.1 holds
  rw [← pairing.carry_program leftShaped member, walk, filter_map]
  refine congrArg (List.map _) (filter_congr fun token below => ?_)
  obtain ⟨inside, suffix⟩ := (Occurrence.mem_walk_iff pair.1 programIn).1 below
  exact agree token inside ⟨pair, member, suffix⟩

omit leftShaped rightShaped

/-- Whether two lists of places are made of the same blocks, one for each program, each list in the
order of its programs. -/
def Rearranges (places others : List Location) : Prop :=
  ∃ block : Occurrence → List Location, places = left.programs.flatMap block ∧
    others = right.programs.flatMap fun program => block (pairing.symm.carry program)

/-- Whether two lists of groups are the same up to the order of the groups, and in each group up to
the order of the programs. -/
def SameGroups (groups others : List (List Location)) : Prop :=
  ∃ arranged, arranged.Perm others ∧
    List.Forall₂ (fun group other => group.Perm other ∧ pairing.Rearranges group other) groups arranged

include rightShaped

theorem symm_carry_program {pair : Occurrence × Occurrence} (member : pair ∈ pairing.pairs) :
    pairing.symm.carry pair.2 = pair.1 :=
  pairing.symm.carry_program rightShaped (mem_map_of_mem member)

theorem Rearranges.perm {places others : List Location}
    (rearranges : pairing.Rearranges places others) : places.Perm others := by
  obtain ⟨block, rfl, rfl⟩ := rearranges
  have ofLeft := pairing.lefts.flatMap_right block
  have ofRight := pairing.rights.flatMap_right fun program => block (pairing.symm.carry program)
  rw [flatMap_map] at ofLeft ofRight
  refine ofLeft.symm.trans (.trans (.of_eq ?_) ofRight)
  exact flatMap_congr fun pair member =>
    congrArg block (pairing.symm_carry_program rightShaped member).symm

include leftShaped

theorem rearranges_filter {chosen picked : Occurrence → Bool}
    (agree : ∀ token : Occurrence, token.IsIn left → pairing.Holds token.address →
      picked (pairing.carry token) = chosen token)
    (notChosen : ∀ place : Occurrence, place.node.kind = .programCollection → chosen place = false)
    (notPicked : ∀ place : Occurrence, place.node.kind = .programCollection → picked place = false) :
    pairing.Rearranges ((left.walk.filter chosen).map left.codebase.placeOf)
      ((right.walk.filter picked).map right.codebase.placeOf) := by
  refine ⟨fun program => (program.walk.filter chosen).map left.codebase.placeOf, ?_, ?_⟩
  · rw [← map_flatMap]
    exact congrArg _ (leftShaped.filter_walk_eq notChosen ⟨[], left⟩)
  · refine (congrArg _ (rightShaped.filter_walk_eq notPicked ⟨[], right⟩)).trans ?_
    rw [map_flatMap]
    refine flatMap_congr fun program member => ?_
    obtain ⟨pair, pairMember, rfl⟩ := mem_map.1 (pairing.rights.symm.subset member)
    rw [pairing.filter_walk_pair leftShaped rightShaped agree pairMember,
      pairing.symm_carry_program rightShaped pairMember, map_map]
    refine map_congr_left fun token tokenMember => ?_
    have programIn := (leftShaped.mem_programs.1 (pairing.mem_programs_left pairMember)).1
    obtain ⟨inside, suffix⟩ :=
      (Occurrence.mem_walk_iff pair.1 programIn).1 (mem_filter.1 tokenMember).1
    exact (pairing.transfer leftShaped rightShaped).placeOf_carry inside ⟨pair, pairMember, suffix⟩

theorem rearranges_tokensOf {target other : Target} {spelling : Text}
    (agree : ∀ token : Occurrence, token.IsIn left → pairing.Holds token.address →
      (right.codebase.target? second (pairing.carry token) = some (other, spelling) ↔
        left.codebase.target? first token = some (target, spelling))) :
    pairing.Rearranges ((left.codebase.tokensOf first target spelling).map left.codebase.placeOf)
      ((right.codebase.tokensOf second other spelling).map right.codebase.placeOf) := by
  apply pairing.rearranges_filter leftShaped rightShaped
  · intro token inside holds
    exact decide_eq_decide.2 (agree token inside holds)
  · intro place isCollection
    rw [Codebase.target?_of_collection isCollection]
    rfl
  · intro place isCollection
    rw [Codebase.target?_of_collection isCollection]
    rfl

theorem Corresponds.of_symm (corresponds : pairing.symm.Corresponds second first other type) :
    pairing.Corresponds first second type other := by
  obtain ⟨address, holds, otherEq, classEq⟩ := corresponds
  have moved := pairing.symm.symm_move rightShaped leftShaped holds
  have returned := pairing.symm.holds_move rightShaped holds
  rw [symm_symm] at moved returned
  exact ⟨pairing.symm.move address, returned, classEq, by rwa [moved]⟩

theorem exists_class (agrees : pairing.Agrees first second) {spelling : Text}
    (member : type ∈ left.codebase.classesOf first spelling) :
    ∃ other ∈ right.codebase.classesOf second spelling,
      pairing.Corresponds first second type other := by
  obtain ⟨token, tokenMember⟩ := mem_classesOf.1 member
  obtain ⟨inside, found⟩ := mem_tokensOf.1 tokenMember
  obtain ⟨named, base, isProperty, classEq, _⟩ :=
    (Codebase.target?_eq_property leftShaped inside).1 found
  have inner := leftShaped.inner_of_tokenName? inside named
  have holds := pairing.holds_of_isIn leftShaped inside inner.kind_ne.2
  have baseHolds : pairing.Holds base.address :=
    (pairing.transfer leftShaped rightShaped).holds_of_usage? inside holds
      (isProperty.usage? leftShaped named)
  obtain ⟨other, corresponds⟩ := exists_corresponds agrees baseHolds classEq
  refine ⟨other, mem_classesOf.2 ⟨pairing.carry token, mem_tokensOf.2 ⟨?_, ?_⟩⟩, corresponds⟩
  · exact (pairing.isIn_carry leftShaped rightShaped holds).2 inside
  · exact (pairing.target?_carry_iff leftShaped rightShaped agrees inside holds
      (corresponds.sameTarget pairing leftShaped rightShaped) spelling).2 found

theorem sameGroups_classGroups (agrees : pairing.Agrees first second)
    (returns : pairing.symm.Agrees second first) (spelling : Text) :
    pairing.SameGroups ((left.codebase.classGroups first spelling).map fun group =>
        group.map left.codebase.placeOf)
      ((right.codebase.classGroups second spelling).map fun group =>
        group.map right.codebase.placeOf) := by
  have total (type : TypeId) (member : type ∈ left.codebase.classesOf first spelling) :=
    pairing.exists_class leftShaped rightShaped agrees member
  have onto (other : TypeId) (member : other ∈ right.codebase.classesOf second spelling) :
      ∃ type ∈ left.codebase.classesOf first spelling,
        pairing.Corresponds first second type other := by
    obtain ⟨type, typeMember, corresponds⟩ :=
      pairing.symm.exists_class rightShaped leftShaped returns member
    exact ⟨type, typeMember, .of_symm pairing leftShaped rightShaped corresponds⟩
  obtain ⟨arranged, perm, related⟩ := exists_arranged (nodup_classesOf spelling)
    (nodup_classesOf spelling) total onto
    (fun _ _ _ => Corresponds.unique agrees) (fun _ _ _ => Corresponds.injective agrees)
  refine ⟨arranged.map fun other =>
    (right.codebase.tokensOf second (.property other) spelling).map right.codebase.placeOf, ?_, ?_⟩
  · rw [Codebase.classGroups, map_map]
    exact perm.map _
  · rw [Codebase.classGroups, map_map, forall₂_map_left_iff, forall₂_map_right_iff]
    refine related.imp fun type other corresponds => ?_
    have rearranges := pairing.rearranges_tokensOf leftShaped rightShaped
      fun token inside holds => pairing.target?_carry_iff leftShaped rightShaped agrees inside holds
        (corresponds.sameTarget pairing leftShaped rightShaped) spelling
    exact ⟨rearranges.perm pairing rightShaped, rearranges⟩

theorem sameGroups_global (agrees : pairing.Agrees first second) (spelling : Text) :
    pairing.SameGroups [(left.codebase.tokensOf first .global spelling).map left.codebase.placeOf]
      [(right.codebase.tokensOf second .global spelling).map right.codebase.placeOf] := by
  have rearranges := pairing.rearranges_tokensOf leftShaped rightShaped
    fun token inside holds => pairing.target?_carry_iff leftShaped rightShaped agrees inside holds
      .global spelling
  exact ⟨_, .refl _, .cons ⟨rearranges.perm pairing rightShaped, rearranges⟩ .nil⟩

end Pairing

/-- Whether two answers of paired trees rename the same places together. -/
def Pairing.SameAnswer {left right : Node} (pairing : Pairing left right)
    (codebase other : Codebase) (answer otherAnswer : Except Fault Renaming) : Prop :=
  ∃ outcome otherOutcome places otherPlaces, answer = .ok outcome ∧
    otherAnswer = .ok otherOutcome ∧ codebase.ranges outcome.groups = .ok places ∧
    other.ranges otherOutcome.groups = .ok otherPlaces ∧ pairing.SameGroups places otherPlaces

/-- The order of the programs and the collections around them do not matter.  Inference gives types to
the same nodes of the programs, divides them into the same classes and finds the same namespaces.
So a property has the same groups and a global variable the same group, up to the order of the
groups and in each group up to the order of the files. -/
theorem sameAnswer_of_permuted_programs {left right : Node} (leftParsed : left.IsParsed)
    (rightParsed : right.IsParsed)
    (permuted : (left.programs.map Occurrence.node).Perm (right.programs.map Occurrence.node)) :
    Nonempty (Pairing left right) ∧ ∀ pairing : Pairing left right,
      ∃ codebase other inference otherInference,
        Codebase.ofRoot left = .ok codebase ∧ Codebase.ofRoot right = .ok other ∧
        codebase.infer = .ok inference ∧ other.infer = .ok otherInference ∧
        pairing.Agrees inference.typing otherInference.typing ∧
        ∀ spelling, pairing.SameAnswer codebase other (codebase.renameProperty (.text spelling))
            (other.renameProperty (.text spelling)) ∧
          pairing.SameAnswer codebase other (codebase.renameGlobal (.text spelling))
            (other.renameGlobal (.text spelling)) := by
  have leftShaped : left.codebase.root.Shaped := leftParsed.shaped
  have rightShaped : right.codebase.root.Shaped := rightParsed.shaped
  refine ⟨Pairing.nonempty_iff.2 permuted, fun pairing => ?_⟩
  obtain ⟨inference, world, inferEq, typingEq, inferred⟩ := exists_inferred leftParsed.shaped
  obtain ⟨otherInference, otherWorld, otherInferEq, otherTypingEq, otherInferred⟩ :=
    exists_inferred rightParsed.shaped
  have agrees := pairing.agrees_of_inferred leftShaped rightShaped inferred otherInferred
  have returns := pairing.symm.agrees_of_inferred rightShaped leftShaped otherInferred inferred
  have covers := inferred.covers leftParsed.shaped
  have otherCovers := otherInferred.covers rightParsed.shaped
  rw [typingEq] at agrees returns covers
  rw [otherTypingEq] at agrees returns otherCovers
  refine ⟨left.codebase, right.codebase, inference, otherInference, Codebase.ofRoot_eq leftShaped,
    Codebase.ofRoot_eq rightShaped, inferEq, otherInferEq, agrees, fun spelling => ⟨?_, ?_⟩⟩
  · have targets (codebase : Codebase) (typing : Typing) (group : List Occurrence) :
        group ∈ codebase.classGroups typing spelling →
          ∃ target, group = codebase.tokensOf typing target spelling :=
      Codebase.exists_target_of_mem_classGroups
    exact ⟨_, _, _, _, Codebase.renameProperty_eq leftShaped inferEq covers spelling,
      Codebase.renameProperty_eq rightShaped otherInferEq otherCovers spelling,
      Codebase.ranges_eq_of_targets leftShaped (targets _ _),
      Codebase.ranges_eq_of_targets rightShaped (targets _ _),
      pairing.sameGroups_classGroups leftShaped rightShaped agrees returns spelling⟩
  · have targets (codebase : Codebase) (typing : Typing) (group : List Occurrence)
        (member : group ∈ [codebase.tokensOf typing .global spelling]) :
        ∃ target, group = codebase.tokensOf typing target spelling :=
      ⟨.global, List.mem_singleton.1 member⟩
    exact ⟨_, _, _, _, Codebase.renameGlobal_eq leftShaped inferEq covers spelling,
      Codebase.renameGlobal_eq rightShaped otherInferEq otherCovers spelling,
      Codebase.ranges_eq_of_targets leftShaped (targets _ _),
      Codebase.ranges_eq_of_targets rightShaped (targets _ _),
      pairing.sameGroups_global leftShaped rightShaped agrees spelling⟩

/-- Two files, and the same files in another order and one of them in a collection of its own. -/
theorem sameAnswer_of_permuted_programs_nested :
    ∃ first second, ((⟨"p", "var a"⟩ : SourceFile).parse false).result = .ok first ∧
      ((⟨"q", "var a"⟩ : SourceFile).parse false).result = .ok second ∧
      (Node.collection [first, second]).IsParsed ∧
      (Node.collection [.collection [second], first]).IsParsed ∧
      ((Node.collection [first, second]).programs.map Occurrence.node).Perm
        ((Node.collection [.collection [second], first]).programs.map Occurrence.node) ∧
      ∃ (pairing : Pairing (.collection [first, second]) (.collection [.collection [second], first]))
        (codebase other : Codebase),
        Codebase.ofRoot (.collection [first, second]) = .ok codebase ∧
        Codebase.ofRoot (.collection [.collection [second], first]) = .ok other ∧
        pairing.SameAnswer codebase other (codebase.renameGlobal (.text (Text.ofString "a")))
          (other.renameGlobal (.text (Text.ofString "a"))) := by
  have found : ((⟨"p", "var a"⟩ : SourceFile).parse false).result.toOption.any
        (fun _ => True) = true ∧
      ((⟨"q", "var a"⟩ : SourceFile).parse false).result.toOption.any (fun _ => True) = true := by
    decide +kernel
  obtain ⟨first, firstEq, firstParsed, _⟩ := Node.exists_isParsed found.1
  obtain ⟨second, secondEq, secondParsed, _⟩ := Node.exists_isParsed found.2
  have leftParsed : (Node.collection [first, second]).IsParsed := by
    apply Node.IsParsed.collection
    simp [firstParsed, secondParsed]
  have innerParsed : (Node.collection [second]).IsParsed := by
    apply Node.IsParsed.collection
    simp [secondParsed]
  have rightParsed : (Node.collection [.collection [second], first]).IsParsed := by
    apply Node.IsParsed.collection
    simp [innerParsed, firstParsed]
  have permuted : ((Node.collection [first, second]).programs.map Occurrence.node).Perm
      ((Node.collection [.collection [second], first]).programs.map Occurrence.node) := by
    have isProgram := List.mem_singleton.1 (SourceFile.fits_parse firstEq).kind_mem
    have otherIsProgram := List.mem_singleton.1 (SourceFile.fits_parse secondEq).kind_mem
    obtain ⟨kind, fields, location⟩ := first
    obtain ⟨otherKind, otherFields, otherLocation⟩ := second
    obtain rfl : kind = .program := isProgram
    obtain rfl : otherKind = .program := otherIsProgram
    exact .swap _ _ []
  obtain ⟨⟨pairing⟩, agree⟩ := sameAnswer_of_permuted_programs leftParsed rightParsed permuted
  obtain ⟨codebase, other, _, _, analysed, otherAnalysed, _, _, _, answers⟩ := agree pairing
  exact ⟨first, second, firstEq, secondEq, leftParsed, rightParsed, permuted, pairing, codebase,
    other, analysed, otherAnalysed, (answers (Text.ofString "a")).2⟩

end Namesake
