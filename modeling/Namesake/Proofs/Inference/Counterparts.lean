import Namesake.Proofs.Inference.Moves
import Namesake.Proofs.Inference.Variables
import Namesake.Proofs.Scope.Counterparts
import Namesake.Proofs.Tree.Pairing

/-!
The counterpart of a node demands the counterpart of what the node demands, so inference divides
the nodes into the same classes, whatever the order of the programs.
-/

namespace Namesake

variable {address : Address} {node : Node}

theorem Node.use?_of_allCollections {root : Node} (found : root.at? address = some node)
    (collections : AllCollections (root.above address)) :
    root.use? address = some .tree := by
  induction address generalizing node with
  | nil => rfl
  | cons step address ih =>
    obtain ⟨parent, parentFound, _⟩ := exists_at?_of_cons found
    rw [above_cons parentFound] at collections
    obtain ⟨isCollection, outer⟩ := List.forall_mem_cons.1 collections
    obtain ⟨kind, fields, location⟩ := parent
    obtain rfl : kind = .programCollection := isCollection
    rw [use?, ih parentFound outer, parentFound]
    rfl

theorem Node.shadowing_of_allCollections {root : Node}
    (collections : AllCollections (root.above address)) : root.shadowing address = [] := by
  refine List.filter_eq_nil_iff.2 fun outer member isShadowing => ?_
  exact (kind_ne_of_isShadowing isShadowing).2 (collections outer member)

namespace Transfer

variable {left right : Node} {transfer : Transfer left right}

theorem movesBy (holds : transfer.Holds address) :
    Address.MovesBy transfer.move address := by
  intro path
  induction path with
  | nil => rfl
  | cons step path ih =>
    rw [List.cons_append, transfer.move_cons (transfer.holds_append holds path), ih]
    rfl

theorem binds_carry {scope : Occurrence} (holds : transfer.Holds scope.address) (name : Text) :
    (transfer.carry scope).binds name = scope.binds name := by
  rw [Bool.eq_iff_iff, Occurrence.binds_iff, Occurrence.binds_iff,
    exists_mem_declarations_carry holds]
  rfl

theorem use?_move (holds : transfer.Holds address) (found : left.at? address = some node) :
    right.use? (transfer.move address) = left.use? address := by
  induction holds using induct generalizing node with
  | top address holds leftAbove rightAbove =>
    rw [Node.use?_of_allCollections found leftAbove,
      Node.use?_of_allCollections ((transfer.at?_move holds).trans found) rightAbove]
  | child step parent holds ih =>
    obtain ⟨outer, outerFound, _⟩ := Node.exists_at?_of_cons found
    rw [transfer.move_cons holds, Node.use?, Node.use?, ih outerFound, transfer.at?_move holds]

theorem resolve_move (holds : transfer.Holds address) (found : left.at? address = some node)
    (name : Text) :
    right.resolve (transfer.move address) name =
      (left.resolve address name).move transfer.move := by
  induction holds using induct generalizing node with
  | top address holds leftAbove rightAbove =>
    rw [Node.resolve, Node.resolve, Node.shadowing_of_allCollections leftAbove,
      Node.shadowing_of_allCollections rightAbove]
    dsimp only [List.find?_nil]
    split <;> rfl
  | child step parent holds ih =>
    obtain ⟨outer, outerFound, _⟩ := Node.exists_at?_of_cons found
    have movedFound := (transfer.at?_move holds).trans outerFound
    have binds : Occurrence.binds ⟨transfer.move parent, outer⟩ name =
        Occurrence.binds ⟨parent, outer⟩ name :=
      @binds_carry _ _ transfer ⟨parent, outer⟩ holds name
    rw [transfer.move_cons holds, Node.resolve_cons movedFound, Node.resolve_cons outerFound,
      ih outerFound, binds]
    split <;> rfl

theorem constraintsAt_carry {place : Occurrence} (inside : place.IsIn left)
    (holds : transfer.Holds place.address) :
    right.constraintsAt (transfer.carry place) =
      (left.constraintsAt place).map (Constraint.move transfer.move) := by
  unfold Node.constraintsAt
  rw [address_carry, use?_move holds inside]
  cases left.use? place.address with
  | none => rfl
  | some use =>
    have lookup : right.resolve (transfer.move place.address) =
        fun name => (left.resolve place.address name).move transfer.move :=
      funext (resolve_move holds inside)
    refine Eq.trans ?_ (Node.map_constraints (movesBy holds) (left.resolve place.address) use
      place.node).symm
    rw [lookup]
    rfl

theorem demands_carry {place : Occurrence} (inside : place.IsIn left)
    (holds : transfer.Holds place.address) {constraint : Constraint}
    (demanded : constraint ∈ left.constraintsAt place) :
    right.Demands (constraint.move transfer.move) :=
  ⟨transfer.carry place, (isIn_carry holds).2 inside,
    constraintsAt_carry inside holds ▸ List.mem_map_of_mem demanded⟩

end Transfer

namespace Pairing

variable {left right : Node} (pairing : Pairing left right)

theorem symm_symm : pairing.symm.symm = pairing := by
  obtain ⟨pairs, _, _, _⟩ := pairing
  simp [symm, Function.comp_def]

section Left

variable (leftShaped : left.Shaped)

include leftShaped

theorem holds_of_mentions (mentions : Mentions left.Demands address) :
    pairing.Holds address := by
  obtain ⟨constraint, demanded, isAbout⟩ := mentions
  obtain ⟨type, isType, isAbout⟩ := Constraint.mem_nodes.1 isAbout
  suffices held : constraint.Over fun type => ∀ inner ∈ type.nodes, pairing.Holds inner from
    held type isType address isAbout
  refine Node.over_of_demands demanded fun place use inside notCollection _ => ?_
  have holds := pairing.holds_of_isIn leftShaped inside notCollection
  exact .of_addresses (left.nodes_resolve place.address) holds (fun field item => holds.cons _)
    (fun item => (holds.cons _).cons _) (fun field _ => holds.cons _)
    (fun _ _ _ => (holds.cons _).cons _)

variable (rightShaped : right.Shaped)

include rightShaped

theorem demands_move {constraint : Constraint} (demanded : left.Demands constraint) :
    right.Demands (constraint.move pairing.move) ∧
      (constraint.move pairing.move).move pairing.symm.move = constraint := by
  obtain ⟨place, inside, member⟩ := demanded
  have holds := pairing.holds_of_isIn leftShaped inside (Node.kind_of_constraintsAt member)
  have movedIn := (pairing.isIn_carry leftShaped rightShaped holds).2 inside
  have there : right.constraintsAt (pairing.carry place) =
      (left.constraintsAt place).map (Constraint.move pairing.move) :=
    (pairing.transfer leftShaped rightShaped).constraintsAt_carry inside holds
  have andBack : left.constraintsAt (pairing.symm.carry (pairing.carry place)) =
      (right.constraintsAt (pairing.carry place)).map (Constraint.move pairing.symm.move) :=
    (pairing.symm.transfer rightShaped leftShaped).constraintsAt_carry movedIn
      (pairing.holds_move leftShaped holds)
  rw [pairing.symm_carry leftShaped rightShaped holds, there, List.map_map] at andBack
  refine ⟨⟨pairing.carry place, movedIn, there ▸ List.mem_map_of_mem member⟩, ?_⟩
  have fixed := List.map_inj_left.1 (andBack.symm.trans (List.map_id _).symm)
  exact fixed constraint member

theorem matches_demands :
    Matches left.Demands right.Demands pairing.move pairing.symm.move where
  forth _ demanded := (pairing.demands_move leftShaped rightShaped demanded).1
  back _ demanded := (pairing.symm.demands_move rightShaped leftShaped demanded).1
  returns _ demanded := (pairing.demands_move leftShaped rightShaped demanded).2
  departs constraint demanded := by
    have departs := (pairing.symm.demands_move rightShaped leftShaped demanded).2
    rwa [symm_symm] at departs

end Left

end Pairing

namespace Typing

def isNamespaceAt (typing : Typing) (address : Address) : Bool :=
  (typing.class? address).any fun type => (typing.graph.node type).isNamespace

def globalIsNamespace (typing : Typing) : Bool :=
  (typing.graph.node (typing.graph.root globalType)).isNamespace

end Typing

namespace World.Inferred

variable {root : Node} {world : World} (inferred : world.Inferred root)

include inferred

theorem isSome_type?_iff : (world.typing.type? address).isSome = true ↔
    Mentions (WithReceivers root.Demands) address :=
  inferred.good.isSome_type?_iff inferred.meets address

theorem class?_eq_none (unmentioned : ¬ Mentions (WithReceivers root.Demands) address) :
    world.typing.class? address = none := by
  have untyped := mt inferred.isSome_type?_iff.1 unmentioned
  rw [Typing.class?, Option.not_isSome_iff_eq_none.1 untyped]
  rfl

theorem exists_type (mentions : Mentions (WithReceivers root.Demands) address) :
    ∃ type, world.typing.class? address = some (world.typing.graph.root type) ∧
      world.Denotes (.node address) type := by
  obtain ⟨type, found⟩ := Option.isSome_iff_exists.1 (inferred.isSome_type?_iff.2 mentions)
  exact ⟨type, by simp [Typing.class?, found], type, found, .refl type⟩

theorem class?_eq_iff {other : Address} :
    world.typing.class? address = world.typing.class? other ↔
      (Mentions (WithReceivers root.Demands) address ↔
        Mentions (WithReceivers root.Demands) other) ∧
      (Mentions (WithReceivers root.Demands) address →
        Entails (WithReceivers root.Demands) (.node address) (.node other)) := by
  by_cases first : Mentions (WithReceivers root.Demands) address
  · obtain ⟨type, classEq, denotes⟩ := inferred.exists_type first
    by_cases second : Mentions (WithReceivers root.Demands) other
    · obtain ⟨otherType, otherEq, otherDenotes⟩ := inferred.exists_type second
      rw [classEq, otherEq, Option.some.injEq,
        inferred.good.root_eq_iff inferred.settled inferred.meets denotes otherDenotes]
      simp only [first, second, true_and, true_imp_iff]
    · rw [classEq, inferred.class?_eq_none second]
      simp only [first, second, reduceCtorEq, true_iff, false_and]
  · by_cases second : Mentions (WithReceivers root.Demands) other
    · obtain ⟨otherType, otherEq, _⟩ := inferred.exists_type second
      rw [otherEq, inferred.class?_eq_none first]
      simp only [first, second, reduceCtorEq, iff_true, false_and]
    · rw [inferred.class?_eq_none first, inferred.class?_eq_none second]
      simp only [first, second, true_and, false_imp_iff]

theorem isGlobalAt_iff : world.typing.isGlobalAt address = true ↔
    Mentions (WithReceivers root.Demands) address ∧
      Entails (WithReceivers root.Demands) (.node address) .global := by
  rw [Typing.isGlobalAt, decide_eq_true_iff]
  by_cases mentioned : Mentions (WithReceivers root.Demands) address
  · obtain ⟨type, classEq, denotes⟩ := inferred.exists_type mentioned
    have ofGlobal : world.Denotes .global Typing.globalType := .refl _
    rw [classEq, Option.some.injEq,
      inferred.good.root_eq_iff inferred.settled inferred.meets denotes ofGlobal]
    simp only [mentioned, true_and]
  · rw [inferred.class?_eq_none mentioned]
    simp only [mentioned, reduceCtorEq, false_and]

theorem isNamespaceAt_iff : world.typing.isNamespaceAt address = true ↔
    Mentions (WithReceivers root.Demands) address ∧
      IsNamespace (WithReceivers root.Demands) (.node address) := by
  rw [Typing.isNamespaceAt]
  by_cases mentioned : Mentions (WithReceivers root.Demands) address
  · obtain ⟨type, classEq, denotes⟩ := inferred.exists_type mentioned
    rw [classEq, ← inferred.good.isNamespace_iff inferred.settled inferred.meets denotes]
    simp only [mentioned, true_and]
    rfl
  · rw [inferred.class?_eq_none mentioned]
    simp only [mentioned, Option.any_none, Bool.false_eq_true, false_and]

theorem globalIsNamespace_iff : world.typing.globalIsNamespace = true ↔
    IsNamespace (WithReceivers root.Demands) .global :=
  have ofGlobal : world.Denotes .global Typing.globalType := .refl _
  inferred.good.isNamespace_iff inferred.settled inferred.meets ofGlobal

end World.Inferred

/-- Whether typings of two trees say the same of their programs: the same nodes have types, they are
divided into the same classes, and the same classes are namespaces or that of the global object. -/
structure Pairing.Agrees {left right : Node} (pairing : Pairing left right)
    (first second : Typing) : Prop where
  inPrograms : ∀ address, (first.type? address).isSome = true → pairing.Holds address
  inOtherPrograms : ∀ address, (second.type? address).isSome = true → pairing.symm.Holds address
  typed : ∀ address, pairing.Holds address →
    (second.type? (pairing.move address)).isSome = (first.type? address).isSome
  classes : ∀ address other, pairing.Holds address → pairing.Holds other →
    (second.class? (pairing.move address) = second.class? (pairing.move other) ↔
      first.class? address = first.class? other)
  global : ∀ address, pairing.Holds address →
    second.isGlobalAt (pairing.move address) = first.isGlobalAt address
  namespaces : ∀ address, pairing.Holds address →
    second.isNamespaceAt (pairing.move address) = first.isNamespaceAt address
  globalNamespace : second.globalIsNamespace = first.globalIsNamespace

theorem Pairing.agrees_of_inferred {left right : Node} (pairing : Pairing left right)
    (leftShaped : left.Shaped) (rightShaped : right.Shaped) {first second : World}
    (leftInferred : first.Inferred left) (rightInferred : second.Inferred right) :
    pairing.Agrees first.typing second.typing := by
  have both := (pairing.matches_demands leftShaped rightShaped).withReceivers
  have returns {address : Address} (holds : pairing.Holds address) :
      ((TypeName.node address).move pairing.move).move pairing.symm.move = .node address :=
    congrArg TypeName.node (pairing.symm_move leftShaped rightShaped holds)
  have ofGlobal : (TypeName.global.move pairing.move).move pairing.symm.move = .global := rfl
  have mentions {address : Address} (holds : pairing.Holds address) :=
    both.mentions_iff (pairing.symm_move leftShaped rightShaped holds)
  refine ⟨?_, ?_, ?_, ?_, ?_, ?_, ?_⟩
  · intro address typed
    exact pairing.holds_of_mentions leftShaped
      (mentions_of_withReceivers (leftInferred.isSome_type?_iff.1 typed))
  · intro address typed
    exact pairing.symm.holds_of_mentions rightShaped
      (mentions_of_withReceivers (rightInferred.isSome_type?_iff.1 typed))
  · intro address holds
    rw [Bool.eq_iff_iff, leftInferred.isSome_type?_iff, rightInferred.isSome_type?_iff,
      mentions holds]
  · intro address other holds otherHolds
    rw [leftInferred.class?_eq_iff, rightInferred.class?_eq_iff, mentions holds, mentions otherHolds]
    exact and_congr_right fun _ => imp_congr_right fun _ =>
      both.entails_iff (returns holds) (returns otherHolds)
  · intro address holds
    rw [Bool.eq_iff_iff, leftInferred.isGlobalAt_iff, rightInferred.isGlobalAt_iff, mentions holds]
    exact and_congr_right fun _ => both.entails_iff (returns holds) ofGlobal
  · intro address holds
    rw [Bool.eq_iff_iff, leftInferred.isNamespaceAt_iff, rightInferred.isNamespaceAt_iff,
      mentions holds]
    exact and_congr_right fun _ => both.isNamespace_iff (returns holds)
  · rw [Bool.eq_iff_iff, leftInferred.globalIsNamespace_iff, rightInferred.globalIsNamespace_iff]
    exact both.isNamespace_iff ofGlobal

end Namesake
