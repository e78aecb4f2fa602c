import Namesake.Proofs.Tree.Transfer
import Mathlib.Data.List.Find

/-!
A scope looks at nothing outside of its program, so its counterpart declares what it declares.
-/

namespace Namesake

variable {address : Address}

/-- A name of a node that is moved.  A text stays what it is. -/
def Name.move (moved : Address → Address) : Name → Name
  | .text spelling => .text spelling
  | .other value holder => .other value (moved holder)

namespace Name

variable {moved : Address → Address}

theorem ofField_moved (moved : Address → Address) (address : Address) (value : Field) :
    ofField (moved address) value = (ofField address value).move moved := by
  unfold ofField
  split <;> rfl

theorem move_eq_text {name : Name} {spelling : Text} :
    name.move moved = .text spelling ↔ name = .text spelling := by
  cases name <;> simp [move]

end Name

def Declaration.move (moved : Address → Address) (declaration : Declaration) : Declaration :=
  (declaration.1.move moved, moved declaration.2)

theorem Node.mem_above_of_mem_around {root : Node} {outer : Occurrence}
    (member : outer ∈ root.around address) : outer ∈ root.above address := by
  unfold Node.around at member
  dsimp only at member
  split at member
  · cases member
  · split at member
    · exact List.mem_reverse.1 ((List.dropWhile_suffix _).subset (List.mem_reverse.1 member))
    · cases member

theorem Codebase.mem_around_of_mem_scopesAround {codebase : Codebase} {scope : Occurrence}
    (member : scope ∈ codebase.scopesAround address) :
    scope ∈ codebase.root.around address := by
  unfold scopesAround at member
  split at member
  · rename_i aroundEq
    rw [aroundEq]
    split at member
    · exact List.mem_cons_of_mem _ member
    · exact member
  · exact member

namespace Transfer

variable {left right : Node} {transfer : Transfer left right}
variable {place : Occurrence}

theorem name?_carry (place : Occurrence) :
    (transfer.carry place).name? = place.name?.map (Name.move transfer.move) := by
  unfold Occurrence.name?
  rw [Option.map_map]
  refine Option.map_congr fun value _ => ?_
  exact Name.ofField_moved transfer.move place.address value

theorem declaration?_carry (place : Occurrence) :
    (transfer.carry place).declaration? =
      place.declaration?.map (Declaration.move transfer.move) := by
  unfold Occurrence.declaration?
  rw [name?_carry, Option.map_map, Option.map_map]
  rfl

theorem declarations_carry (holds : transfer.Holds place.address) :
    (transfer.carry place).declarations = place.declarations.map (Declaration.move transfer.move) :=
  carries.declarations (fun _ => declaration?_carry _) holds fun _ => rfl

theorem exists_mem_declarations_carry (holds : transfer.Holds place.address) {spelling : Text} :
    (∃ address, (.text spelling, address) ∈ (transfer.carry place).declarations) ↔
      ∃ address, (.text spelling, address) ∈ place.declarations := by
  rw [declarations_carry holds]
  constructor
  · rintro ⟨_, member⟩
    obtain ⟨declaration, member, same⟩ := List.mem_map.1 member
    have named := Name.move_eq_text.1 (congrArg Prod.fst same)
    exact ⟨declaration.2, by rwa [← named]⟩
  · rintro ⟨address, member⟩
    exact ⟨_, List.mem_map_of_mem member⟩

theorem declares_carry (inside : place.IsIn left) (holds : transfer.Holds place.address)
    (spelling : Text) :
    right.codebase.Declares (transfer.carry place) (.text spelling) ↔
      left.codebase.Declares place (.text spelling) := by
  rw [Codebase.declares_iff inside, Codebase.declares_iff ((isIn_carry holds).2 inside),
    exists_mem_declarations_carry holds]
  rfl

theorem scopesAround_move {node : Node} (holds : transfer.Holds address)
    (found : left.at? address = some node) :
    right.codebase.scopesAround (transfer.move address) =
      (left.codebase.scopesAround address).map transfer.carry := by
  have around : right.codebase.root.around (transfer.move address) =
      (left.codebase.root.around address).map transfer.carry :=
    (around_move holds found).1
  unfold Codebase.scopesAround
  rw [around]
  induction holds using induct with
  | top address holds leftAbove rightAbove =>
    have none : left.codebase.root.around address = [] :=
      (around_of_allCollections holds found leftAbove rightAbove).1
    rw [none]
    rfl
  | child step parent holds _ =>
    rw [transfer.move_cons holds]
    cases left.codebase.root.around (step :: parent) with
    | nil => rfl
    | cons first rest => exact (apply_ite (List.map transfer.carry) _ rest (first :: rest)).symm

theorem declaringScope?_move {node : Node} (holds : transfer.Holds address)
    (found : left.at? address = some node) (spelling : Text) :
    right.codebase.declaringScope? (transfer.move address) (.text spelling) =
        (left.codebase.declaringScope? address (.text spelling)).map transfer.carry ∧
      ∀ scope ∈ left.codebase.declaringScope? address (.text spelling),
        transfer.Holds scope.address := by
  have hold (scope : Occurrence) (member : scope ∈ left.codebase.scopesAround address) :
      scope.IsIn left ∧ transfer.Holds scope.address := by
    have around := Codebase.mem_around_of_mem_scopesAround member
    exact ⟨(Occurrence.of_mem_above (Node.mem_above_of_mem_around around)).1,
      (around_move holds found).2 scope around⟩
  refine ⟨?_, fun scope declared => (hold scope (List.mem_of_find?_eq_some declared)).2⟩
  rw [Codebase.declaringScope?, Codebase.declaringScope?, scopesAround_move holds found,
    List.find?_map]
  refine congrArg (Option.map _) (List.find?_congr fun scope member => ?_)
  have declares := declares_carry (hold scope member).1 (hold scope member).2 spelling
  rw [Bool.eq_iff_iff]
  simpa only [Codebase.Declares, Function.comp_apply, Bool.and_eq_true] using declares

end Transfer

end Namesake
