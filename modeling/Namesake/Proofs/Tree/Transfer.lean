import Namesake.Proofs.Scope.Carried

/-!
A `Transfer` says of some addresses of a tree where their nodes stand in another tree.  What is
below a node goes with it, and so does what is above it up to the program.
-/

namespace Namesake

open Node (AllCollections)

/-- Nodes of a tree that stand in another tree as well, together with all that is below them.  Above
them are other such nodes or collections only. -/
structure Transfer (left right : Node) where
  leftShaped : left.Shaped
  rightShaped : right.Shaped
  Holds : Address → Prop
  move : Address → Address
  holds_cons : ∀ {address}, Holds address → ∀ step, Holds (step :: address)
  move_cons : ∀ {address}, Holds address → ∀ step, move (step :: address) = step :: move address
  move_injective : ∀ {first second}, Holds first → Holds second → move first = move second →
    first = second
  at?_move : ∀ {address}, Holds address → right.at? (move address) = left.at? address
  outermost : ∀ {address}, Holds address →
    (∃ step parent, address = step :: parent ∧ Holds parent) ∨
      AllCollections (left.above address) ∧ AllCollections (right.above (move address))

namespace Transfer

variable {left right : Node} (transfer : Transfer left right)

def carry (place : Occurrence) : Occurrence :=
  ⟨transfer.move place.address, place.node⟩

@[simp] theorem node_carry (place : Occurrence) : (transfer.carry place).node = place.node := rfl

@[simp] theorem address_carry (place : Occurrence) :
    (transfer.carry place).address = transfer.move place.address := rfl

variable {transfer}
variable {address : Address} {node : Node} {place : Occurrence}

theorem induct {motive : (address : Address) → transfer.Holds address → Prop}
    (top : ∀ address (holds : transfer.Holds address), AllCollections (left.above address) →
      AllCollections (right.above (transfer.move address)) → motive address holds)
    (child : ∀ step parent (holds : transfer.Holds parent), motive parent holds → motive (step ::
      parent) (transfer.holds_cons holds step))
    (holds : transfer.Holds address) : motive address holds := by
  induction address with
  | nil =>
    rcases transfer.outermost holds with ⟨_, _, same, _⟩ | ⟨leftAbove, rightAbove⟩
    · cases same
    · exact top [] holds leftAbove rightAbove
  | cons step parent ih =>
    rcases transfer.outermost holds with ⟨_, _, same, parentHolds⟩ | ⟨leftAbove, rightAbove⟩
    · cases same
      exact child step parent parentHolds (ih parentHolds)
    · exact top _ holds leftAbove rightAbove

theorem holds_append (holds : transfer.Holds address) (path : Address) :
    transfer.Holds (path ++ address) := by
  induction path with
  | nil => exact holds
  | cons step path ih => exact transfer.holds_cons ih step

theorem isIn_carry (holds : transfer.Holds place.address) :
    (transfer.carry place).IsIn right ↔ place.IsIn left := by
  rw [Occurrence.IsIn, carry, transfer.at?_move holds]
  rfl

theorem holds_of_mem_children {child : Occurrence} (holds : transfer.Holds place.address)
    (member : child ∈ place.children) : transfer.Holds child.address := by
  obtain ⟨step, addressEq, _⟩ := Occurrence.mem_children.1 member
  rw [addressEq]
  exact transfer.holds_cons holds step

theorem children_carry (holds : transfer.Holds place.address) :
    (transfer.carry place).children = place.children.map transfer.carry := by
  rw [Occurrence.children, Occurrence.children, List.map_map]
  refine List.map_congr_left fun entry _ => ?_
  obtain ⟨step, child⟩ := entry
  have moved := transfer.move_cons holds step
  exact congrArg (fun address => (⟨address, child⟩ : Occurrence)) moved.symm

theorem carries : Occurrence.Carries (transfer.Holds ·.address) transfer.carry := by
  refine ⟨fun _ => rfl, holds_of_mem_children, children_carry, fun holds member => ?_⟩
  obtain ⟨step, addressEq, _⟩ := Occurrence.mem_children.1 member
  rw [address_carry, addressEq, transfer.move_cons holds]
  rfl

theorem around_cases {step : Step} {parent : Address} (holds : transfer.Holds parent)
    (found : left.at? (step :: parent) = some node) :
    left.around (step :: parent) = [] ∧ right.around (step :: transfer.move parent) = [] ∨
      ∃ outer, left.at? parent = some outer ∧
        left.around (step :: parent) = ⟨parent, outer⟩ :: left.around parent ∧
        right.around (step :: transfer.move parent) =
          ⟨transfer.move parent, outer⟩ :: right.around (transfer.move parent) := by
  obtain ⟨outer, outerFound, _⟩ := Node.exists_at?_of_cons found
  have movedFound := (transfer.at?_move holds).trans outerFound
  have movedBelow := (transfer.at?_move (transfer.holds_cons holds step)).trans found
  rw [transfer.move_cons holds] at movedBelow
  by_cases isCollection : outer.kind = .programCollection
  · refine .inl ⟨?_, ?_⟩
    · rw [transfer.leftShaped.around found, Node.inside_eq_nil
        (transfer.leftShaped.above_of_collection outerFound isCollection)]
      rfl
    · rw [transfer.rightShaped.around movedBelow, Node.inside_eq_nil
        (transfer.rightShaped.above_of_collection movedFound isCollection)]
      rfl
  · exact .inr ⟨outer, outerFound, transfer.leftShaped.around_cons found outerFound isCollection,
      transfer.rightShaped.around_cons movedBelow movedFound isCollection⟩

theorem around_of_allCollections (holds : transfer.Holds address)
    (found : left.at? address = some node) (leftAbove : AllCollections (left.above address))
    (rightAbove : AllCollections (right.above (transfer.move address))) :
    left.around address = [] ∧ right.around (transfer.move address) = [] := by
  rw [transfer.leftShaped.around found,
    transfer.rightShaped.around ((transfer.at?_move holds).trans found),
    Node.inside_eq_nil leftAbove, Node.inside_eq_nil rightAbove]
  exact ⟨rfl, rfl⟩

theorem around_move (holds : transfer.Holds address) (found : left.at? address = some node) :
    right.around (transfer.move address) = (left.around address).map transfer.carry ∧
      ∀ outer ∈ left.around address, transfer.Holds outer.address := by
  induction holds using induct generalizing node with
  | top address holds leftAbove rightAbove =>
    obtain ⟨leftNone, rightNone⟩ := around_of_allCollections holds found leftAbove rightAbove
    rw [leftNone, rightNone]
    exact ⟨rfl, List.forall_mem_nil _⟩
  | child step parent holds ih =>
    rw [transfer.move_cons holds]
    rcases around_cases holds found with
      ⟨leftNone, rightNone⟩ | ⟨outer, outerFound, leftEq, rightEq⟩
    · rw [leftNone, rightNone]
      exact ⟨rfl, List.forall_mem_nil _⟩
    · obtain ⟨moved, hold⟩ := ih outerFound
      rw [leftEq, rightEq, moved]
      exact ⟨rfl, List.forall_mem_cons.2 ⟨holds, hold⟩⟩

theorem holds_parent {step : Step} {parent : Address} {outer : Node}
    (holds : transfer.Holds (step :: parent)) (found : left.at? (step :: parent) = some node)
    (outerFound : left.at? parent = some outer) (notCollection : outer.kind ≠ .programCollection) :
    transfer.Holds parent := by
  refine (around_move holds found).2 ⟨parent, outer⟩ ?_
  rw [transfer.leftShaped.around_cons found outerFound notCollection]
  exact List.mem_cons_self

theorem parent?_move (holds : transfer.Holds address) (found : left.at? address = some node) :
    right.parent? (transfer.move address) = (left.parent? address).map transfer.carry := by
  rw [Node.parent?, Node.parent?, (around_move holds found).1, List.head?_map]

theorem enclosingFunction?_move (holds : transfer.Holds address)
    (found : left.at? address = some node) :
    right.enclosingFunction? (transfer.move address) =
        (left.enclosingFunction? address).map transfer.carry ∧
      ∀ function ∈ left.enclosingFunction? address, transfer.Holds function.address := by
  obtain ⟨around, hold⟩ := around_move holds found
  refine ⟨?_, fun function enclosing => hold function (List.mem_of_find?_eq_some enclosing)⟩
  rw [Node.enclosingFunction?, Node.enclosingFunction?, around, List.find?_map]
  rfl

theorem fileOf?_carry {token : Occurrence} (inside : token.IsIn left)
    (holds : transfer.Holds token.address) :
    right.fileOf? (transfer.carry token) = left.fileOf? token := by
  have around : right.around (transfer.carry token).address =
      (left.around token.address).map transfer.carry :=
    (around_move holds inside).1
  rw [Node.fileOf?, Node.fileOf?, around, ← List.map_cons, List.find?_map, Option.bind_map]
  rfl

end Transfer

end Namesake
