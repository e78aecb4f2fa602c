import Namesake.Proofs.Tree.Transfer

/-!
The trees of a collection stay where they are when one more is added at the end, and the tree that is
added has its nodes at the addresses below its place.
-/

namespace Namesake

open List

namespace Node

variable {trees : List Node} {added : Node}

theorem at?_item (index : Nat) : (collection trees).at? [⟨0, some index⟩] = trees[index]? := by
  change (trees.map Field.node)[index]?.bind Field.node? = _
  rw [List.getElem?_map]
  cases trees[index]? <;> rfl

theorem exists_index {place : Occurrence} (inside : place.IsIn (collection trees))
    (inTree : place.address ≠ []) :
    ∃ index < trees.length, place.address.getLast? = some ⟨0, some index⟩ := by
  obtain ⟨path, step, addressEq⟩ := (eq_nil_or_concat place.address).resolve_left inTree
  rw [concat_eq_append] at addressEq
  rw [Occurrence.IsIn, addressEq, at?_append] at inside
  obtain ⟨tree, found, _⟩ := Option.bind_eq_some_iff.1 inside
  have isStep := mem_steps.2 found
  rw [steps_collection] at isStep
  obtain ⟨index, rfl, _⟩ := mem_itemChildren.1 isStep
  rw [at?_item] at found
  exact ⟨index, (List.getElem?_eq_some_iff.1 found).1, by simp [addressEq]⟩

def lastPlace (trees : List Node) : Address :=
  [⟨0, some trees.length⟩]

theorem at?_lastPlace : (collection (trees ++ [added])).at? (lastPlace trees) = some added := by
  rw [lastPlace, at?_item, List.getElem?_concat_length]

theorem children_collection_append :
    Occurrence.children ⟨[], collection (trees ++ [added])⟩ =
      Occurrence.children ⟨[], collection trees⟩ ++ [⟨lastPlace trees, added⟩] := by
  simp [Occurrence.children, steps_collection, itemChildren, zipIdx_append, Field.node?, lastPlace]

theorem filter_walk_append {chosen : Occurrence → Bool}
    (noCollection : ∀ place : Occurrence, place.node.kind = .programCollection →
      chosen place = false) :
    (collection (trees ++ [added])).walk.filter chosen = (collection trees).walk.filter chosen ++
        (Occurrence.walk ⟨lastPlace trees, added⟩).filter chosen := by
  have below (trees : List Node) : (collection trees).walk.filter chosen =
      ((Occurrence.children ⟨[], collection trees⟩).flatMap Occurrence.walk).filter chosen := by
    refine (congrArg _ (Occurrence.walk_eq ⟨[], collection trees⟩)).trans ?_
    exact filter_cons_of_neg (Bool.eq_false_iff.1 (noCollection _ rfl))
  rw [below, below, children_collection_append, flatMap_append, filter_append]
  simp

end Node

namespace Transfer

open Node

variable {trees : List Node} {added : Node}

theorem above_singleton (step : Step) (trees : List Node) :
    AllCollections ((collection trees).above [step]) := by
  rw [above_cons rfl]
  exact forall_mem_cons.2 ⟨rfl, forall_mem_nil _⟩

def ofTrees (shaped : ∀ tree ∈ trees, tree.Shaped) (addedShaped : added.Shaped) :
    Transfer (collection trees) (collection (trees ++ [added])) where
  leftShaped := .collection shaped
  rightShaped := .collection (by simpa [or_imp, forall_and] using ⟨shaped, addedShaped⟩)
  Holds address := ∃ index < trees.length, address.getLast? = some ⟨0, some index⟩
  move := id
  holds_cons := by
    rintro address ⟨index, inside, last⟩ step
    exact ⟨index, inside, by simp [List.getLast?_cons, last]⟩
  move_cons _ _ := rfl
  move_injective _ _ same := same
  at?_move := by
    rintro address ⟨index, inside, last⟩
    obtain ⟨path, rfl⟩ := List.getLast?_eq_some_iff.1 last
    rw [id, at?_append, at?_append, at?_item, at?_item, List.getElem?_append_left inside]
  outermost := by
    rintro address ⟨index, inside, last⟩
    obtain ⟨path, rfl⟩ := List.getLast?_eq_some_iff.1 last
    cases path with
    | nil => exact .inr ⟨above_singleton _ _, above_singleton _ _⟩
    | cons step path => exact .inl ⟨step, _, rfl, index, inside, by simp⟩

def ofAdded (shaped : ∀ tree ∈ trees, tree.Shaped) (addedShaped : added.Shaped) :
    Transfer added (collection (trees ++ [added])) where
  leftShaped := addedShaped
  rightShaped := .collection (by simpa [or_imp, forall_and] using ⟨shaped, addedShaped⟩)
  Holds _ := True
  move address := address ++ lastPlace trees
  holds_cons _ _ := trivial
  move_cons _ _ := rfl
  move_injective _ _ := append_cancel_right
  at?_move := by
    intro address _
    rw [at?_append, at?_lastPlace, Option.bind_some]
  outermost := by
    intro address _
    cases address with
    | nil => exact .inr ⟨forall_mem_nil _, above_singleton _ _⟩
    | cons step parent => exact .inl ⟨step, parent, rfl, trivial⟩

section Places

variable (shaped : ∀ tree ∈ trees, tree.Shaped) (addedShaped : added.Shaped)
variable {place : Occurrence}

theorem address_ne_nil (inside : place.IsIn (collection trees))
    (notCollection : place.node.kind ≠ .programCollection) : place.address ≠ [] := by
  intro isRoot
  rw [Occurrence.IsIn, isRoot] at inside
  exact notCollection (congrArg Node.kind (Option.some.inj inside).symm)

theorem holds_ofTrees (inside : place.IsIn (collection trees))
    (notCollection : place.node.kind ≠ .programCollection) :
    (ofTrees shaped addedShaped).Holds place.address :=
  exists_index inside (address_ne_nil inside notCollection)

theorem not_holds_append (path : Address) :
    ¬ (ofTrees shaped addedShaped).Holds (path ++ lastPlace trees) := by
  rintro ⟨index, inside, last⟩
  simp only [lastPlace, List.getLast?_append, List.getLast?_singleton, Option.some_or,
    Option.some.injEq, Step.mk.injEq, true_and] at last
  exact absurd last.symm (Nat.ne_of_lt inside)

theorem place_cases (inside : place.IsIn (collection (trees ++ [added])))
    (notCollection : place.node.kind ≠ .programCollection) :
    ((ofTrees shaped addedShaped).Holds place.address ∧ place.IsIn (collection trees)) ∨
      ∃ own : Occurrence, own.IsIn added ∧ place = (ofAdded shaped addedShaped).carry own := by
  obtain ⟨index, isIndex, last⟩ := exists_index inside (address_ne_nil inside notCollection)
  by_cases isOld : index < trees.length
  · have holds : (ofTrees shaped addedShaped).Holds place.address := ⟨index, isOld, last⟩
    exact .inl ⟨holds, (isIn_carry holds).1 inside⟩
  · rw [length_append, length_singleton] at isIndex
    obtain rfl : index = trees.length := by omega
    obtain ⟨address, node⟩ := place
    obtain ⟨path, rfl⟩ := List.getLast?_eq_some_iff.1 last
    have isIn := (@isIn_carry _ _ (ofAdded shaped addedShaped) ⟨path, node⟩ trivial).1 inside
    exact .inr ⟨⟨path, node⟩, isIn, rfl⟩

end Places

end Transfer

end Namesake
