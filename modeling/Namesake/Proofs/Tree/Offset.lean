import Namesake.Node.Place
import Namesake.Proofs.Tree.Walk

/-!
The search for the innermost node at an offset goes from a node to the first child that covers
the offset.  It ends at a node of the tree.
-/

namespace Namesake

open List

namespace Occurrence

/-- The innermost node at an offset is that of the first child that covers the offset, or the node
itself if none does. -/
theorem innermost_eq (offset : Data) (place : Occurrence) :
    Node.innermost offset place.address place.node =
      (((place.children.find? fun child => child.node.covers offset).map
        fun child => Node.innermost offset child.address child.node).getD place) := by
  obtain ⟨address, kind, fields, location⟩ := place
  have recursion : Node.Recursion Option.or none
      (fun step child => if child.covers offset then
        some (Node.innermost offset (step :: address) child) else none)
      (Node.innermostInFields offset address) (Node.innermostInField offset address)
      (Node.innermostInItems offset address) := by
    constructor <;> intros <;> first | rfl | (rw [Node.innermostInItems]; split <;> rfl)
  rw [children, List.find?_map, Option.map_map]
  refine congrArg (Option.getD · _) (recursion.eq_ofSteps (fun entries =>
    (entries.find? _).map _) (fun left right => ?_) (fun step child => ?_) (.mk kind fields location))
  · rw [List.find?_append, Option.map_or]
  · rw [find?_singleton]
    by_cases covered : child.covers offset = true <;> simp [covered]

theorem innermost_mem_walk (offset : Data) (place : Occurrence) :
    Node.innermost offset place.address place.node ∈ place.walk := by
  induction place using induct with
  | step place ih =>
    rw [innermost_eq, walk_eq]
    cases found : place.children.find? fun child => child.node.covers offset with
    | none => exact mem_cons_self
    | some child =>
      have member := mem_of_find?_eq_some found
      exact mem_cons_of_mem _ (mem_flatMap.2 ⟨child, member, ih child member⟩)

def isAround (place : Occurrence) (address : Address) : Bool :=
  place.address.isSuffixOf address

/-- The nodes that stand left of the way from a tree to an address: of each node around the address,
the children before the one that leads there. -/
def elders (tree : Occurrence) (address : Address) : List Occurrence :=
  (tree.walk.filter fun outer => outer.isAround address && outer.address != address).flatMap
    fun outer => outer.children.takeWhile fun child => !child.isAround address

variable {tree child place : Occurrence} {left right : List Occurrence}

theorem isAround_iff {address : Address} :
    place.isAround address = true ↔ place.address <:+ address :=
  isSuffixOf_iff_suffix

theorem isAround_of_mem_walk (member : place ∈ tree.walk) : tree.isAround place.address = true :=
  isAround_iff.2 (suffix_of_mem_walk tree place member)

theorem not_isAround_of_ne (childMember : child ∈ tree.children) {other : Occurrence}
    (otherMember : other ∈ tree.children) (different : other.address ≠ child.address)
    {address : Address} (around : child.isAround address = true) : other.isAround address = false := by
  obtain ⟨step, childEq, _⟩ := mem_children.1 childMember
  obtain ⟨otherStep, otherEq, _⟩ := mem_children.1 otherMember
  have sameLength : other.address.length = child.address.length := by
    rw [childEq, otherEq]
    rfl
  refine Bool.eq_false_iff.2 fun otherAround => different ?_
  exact (suffix_of_suffix_length_le (isAround_iff.1 otherAround) (isAround_iff.1 around)
    (Nat.le_of_eq sameLength)).eq_of_length sameLength

theorem elders_self (tree : Occurrence) : tree.elders tree.address = [] := by
  have none : (tree.walk.filter fun outer =>
      outer.isAround tree.address && outer.address != tree.address) = [] := by
    refine filter_eq_nil_iff.2 fun outer member kept => ?_
    obtain ⟨around, different⟩ := Bool.and_eq_true_iff.1 kept
    have inner := suffix_of_mem_walk tree outer member
    have outerSuffix := isAround_iff.1 around
    have sameLength := Nat.le_antisymm outerSuffix.length_le inner.length_le
    exact absurd (outerSuffix.eq_of_length sameLength) (by simpa using different)
  rw [elders, none]
  rfl

theorem elders_of_child (childrenEq : tree.children = left ++ child :: right)
    (below : place ∈ child.walk) :
    tree.elders place.address = left ++ child.elders place.address := by
  have around := isAround_of_mem_walk below
  have childMember : child ∈ tree.children := by simp [childrenEq]
  have distinct := tree.pairwise_children
  rw [childrenEq, pairwise_append, pairwise_cons] at distinct
  have astray (other : Occurrence) (member : other ∈ left ∨ other ∈ right) :
      other.isAround place.address = false := by
    refine not_isAround_of_ne childMember ?_ ?_ around
    · rw [childrenEq]
      rcases member with inLeft | inRight
      · simp [inLeft]
      · simp [inRight]
    · rcases member with inLeft | inRight
      · exact distinct.2.2 other inLeft child mem_cons_self
      · exact (distinct.2.1.1 other inRight).symm
  have lost (others : List Occurrence) (all : ∀ other ∈ others, other ∈ left ∨ other ∈ right) :
      ((others.flatMap walk).filter fun outer =>
        outer.isAround place.address && outer.address != place.address) = [] := by
    refine filter_eq_nil_iff.2 fun outer member kept => ?_
    obtain ⟨other, otherMember, inOther⟩ := mem_flatMap.1 member
    have outerAround := isAround_iff.1 (Bool.and_eq_true_iff.1 kept).1
    have otherAround := isAround_iff.2 ((suffix_of_mem_walk other outer inOther).trans outerAround)
    rw [astray other (all other otherMember)] at otherAround
    cases otherAround
  have own : (tree.isAround place.address && tree.address != place.address) = true := by
    obtain ⟨step, addressEq, _⟩ := mem_children.1 childMember
    have longer := isAround_iff.1 around
    rw [addressEq] at longer
    rw [Bool.and_eq_true, isAround_iff, bne_iff_ne]
    refine ⟨(suffix_cons _ _).trans longer, fun same => ?_⟩
    rw [← same] at longer
    exact absurd longer.length_le (Nat.not_succ_le_self _)
  have before : (tree.children.takeWhile fun other => !other.isAround place.address) = left := by
    rw [childrenEq, takeWhile_append_of_pos, takeWhile_cons_of_neg, append_nil]
    · simp [around]
    · intro other member
      simp [astray other (.inl member)]
  rw [elders, walk_eq, filter_cons, if_pos own, flatMap_cons, before, childrenEq,
    flatMap_append, flatMap_cons, filter_append, filter_append,
    lost left (fun _ => .inl), lost right (fun _ => .inr), nil_append, append_nil]
  rfl

theorem innermost_eq_iff (offset : Data) (member : place ∈ tree.walk) (noChildren : place.children = [])
    (covered : ∀ outer ∈ tree.walk, place ∈ outer.walk → outer.node.covers offset = true) :
    Node.innermost offset tree.address tree.node = place ↔
      ∀ elder ∈ tree.elders place.address, elder.node.covers offset = false := by
  induction tree using induct with
  | step tree ih =>
    rw [walk_eq] at member
    rcases mem_cons.1 member with rfl | member
    · rw [innermost_eq, noChildren, elders_self]
      simp
    · obtain ⟨child, childMember, below⟩ := mem_flatMap.1 member
      obtain ⟨left, right, childrenEq⟩ := append_of_mem childMember
      have inside : ∀ outer ∈ child.walk, outer ∈ tree.walk := fun outer inChild => by
        rw [walk_eq]
        exact mem_cons_of_mem _ (mem_flatMap.2 ⟨child, childMember, inChild⟩)
      have childCovers := covered child (inside child (by rw [walk_eq]; exact mem_cons_self)) below
      rw [innermost_eq, elders_of_child childrenEq below, forall_mem_append]
      by_cases early : ∀ elder ∈ left, elder.node.covers offset = false
      · have found : tree.children.find? (fun other => other.node.covers offset) = some child := by
          rw [childrenEq, List.find?_append, List.find?_eq_none.2 (by simpa using early),
            List.find?_cons, childCovers]
          rfl
        rw [found, Option.map_some, Option.getD_some, and_iff_right early]
        exact ih child childMember below fun outer inChild => covered outer (inside outer inChild)
      · -- The search goes to another child, which does not lead to the node.
        obtain ⟨other, otherFound⟩ : ∃ other,
            left.find? (fun other => other.node.covers offset) = some other := by
          refine Option.isSome_iff_exists.1 (List.find?_isSome.2 ?_)
          simpa using early
        have otherMember := mem_of_find?_eq_some otherFound
        have found : tree.children.find? (fun other => other.node.covers offset) = some other := by
          rw [childrenEq, List.find?_append, otherFound]
          rfl
        rw [found, Option.map_some, Option.getD_some]
        refine iff_of_false (fun same => ?_) fun none => early none.1
        have inOther := innermost_mem_walk offset other
        rw [same] at inOther
        have distinct := tree.pairwise_children
        rw [childrenEq, pairwise_append] at distinct
        have astray := not_isAround_of_ne childMember (by simp [childrenEq, otherMember])
          (distinct.2.2 other otherMember child mem_cons_self) (isAround_of_mem_walk below)
        rw [isAround_of_mem_walk inOther] at astray
        cases astray

end Occurrence

end Namesake
