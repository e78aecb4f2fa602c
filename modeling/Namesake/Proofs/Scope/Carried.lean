import Namesake.Proofs.Scope.Declarations

/-!
A map of nodes that keeps their kinds and goes along with their children takes the walk of a
node to the walk of its image.
-/

namespace Namesake.Occurrence

open List

/-- Whether a map keeps the kinds of nodes and takes their children, step by step, to the children of
their images. -/
structure Carries (holds : Occurrence → Prop) (carry : Occurrence → Occurrence) : Prop where
  kind : ∀ place, (carry place).node.kind = place.node.kind
  below : ∀ {place child}, holds place → child ∈ place.children → holds child
  children : ∀ {place}, holds place → (carry place).children = place.children.map carry
  step : ∀ {place child}, holds place → child ∈ place.children →
    (carry child).address.head? = child.address.head?

namespace Carries

variable {holds : Occurrence → Prop} {carry : Occurrence → Occurrence} {place : Occurrence}
  (carries : Carries holds carry)

include carries

theorem walk (place : Occurrence) (held : holds place) :
    (carry place).walk = place.walk.map carry := by
  induction place using Occurrence.induct with
  | step place ih =>
    rw [walk_eq, walk_eq place, carries.children held, flatMap_map, map_cons, map_flatMap]
    refine congrArg (List.cons _) (flatMap_congr fun child member => ?_)
    exact ih child member (carries.below held member)

theorem inField (held : holds place) (field : Nat) :
    (carry place).inField field = (place.inField field).map carry := by
  rw [inField_eq_filter, inField_eq_filter, carries.children held, filter_map]
  refine congrArg _ (filter_congr fun child member => ?_)
  rw [Function.comp_apply, carries.step held member]

variable {change : Declaration → Declaration}
  (declared : ∀ {place}, holds place → (carry place).declaration? = place.declaration?.map change)

include declared

theorem declarationsIn (held : holds place) (field : Nat) :
    (carry place).declarationsIn field = (place.declarationsIn field).map change := by
  unfold Occurrence.declarationsIn
  rw [carries.inField held, filterMap_map, map_filterMap]
  refine filterMap_congr fun child member => ?_
  exact declared (carries.below held (mem_children_of_mem_inField member))

theorem hoisted (place : Occurrence) (held : holds place) :
    (carry place).hoisted = place.hoisted.map change := by
  induction place using Occurrence.induct with
  | step place ih =>
    have outer : (carry place).outerDeclarations = place.outerDeclarations.map change := by
      unfold outerDeclarations
      rw [carries.kind, carries.declarationsIn declared held]
      split <;> rfl
    rw [Scopes.hoisted_eq, Scopes.hoisted_eq place, carries.kind, map_append, outer]
    congr 1
    split
    · rfl
    · rw [carries.children held, flatMap_map, map_flatMap]
      refine flatMap_congr fun child member => ?_
      exact ih child member (carries.below held member)

theorem declarations (held : holds place)
    (arguments : place.node.kind.isFunction = true →
      change (argumentsName, place.address) = (argumentsName, (carry place).address)) :
    (carry place).declarations = place.declarations.map change := by
  have own : (carry place).ownDeclarations = place.ownDeclarations.map change := by
    unfold ownDeclarations
    rw [carries.kind]
    split <;> rename_i kindEq <;>
      simp [carries.declarationsIn declared held, arguments, kindEq, Kind.isFunction]
  unfold Occurrence.declarations
  rw [carries.kind, map_append, own]
  congr 1
  split
  · rfl
  · rw [carries.children held, flatMap_map, map_flatMap]
    refine flatMap_congr fun child member => ?_
    exact carries.hoisted declared child (carries.below held member)

end Carries

end Namesake.Occurrence
