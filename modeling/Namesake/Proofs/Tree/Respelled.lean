import Namesake.Proofs.Scope.Carried

/-!
`Node.respell` gives the identifiers at some addresses another spelling and leaves all else as
it is.
-/

namespace Namesake

instance : LawfulBEq Address := inferInstance

namespace Node

variable (tokens : List Address) (spelling : Text)

mutual

/-- A node with another spelling of the identifiers at some addresses. -/
def respell (address : Address) : Node → Node
  | .mk kind fields location =>
    if kind = .identifier ∧ address ∈ tokens then .mk kind [.data (.text spelling)] location
    else .mk kind (respellFields address 0 fields) location

def respellFields (address : Address) (index : Nat) : List Field → List Field
  | [] => []
  | field :: rest => respellField address index field :: respellFields address (index + 1) rest

def respellField (address : Address) (index : Nat) : Field → Field
  | .data value => .data value
  | .node child => .node (respell (⟨index, none⟩ :: address) child)
  | .list items => .list (respellItems address index 0 items)

def respellItems (address : Address) (index place : Nat) : List Field → List Field
  | [] => []
  | .node child :: rest =>
    .node (respell (⟨index, some place⟩ :: address) child) ::
      respellItems address index (place + 1) rest
  | .data value :: rest => .data value :: respellItems address index (place + 1) rest
  | .list items :: rest => .list items :: respellItems address index (place + 1) rest

end

variable {tokens} {spelling}
variable {node : Node}

@[simp]
theorem kind_respell (node : Node) (address : Address) :
    (node.respell tokens spelling address).kind = node.kind := by
  obtain ⟨kind, fields, location⟩ := node
  unfold respell
  split <;> rfl

theorem fields_respell {address : Address} (kept : ¬ (node.kind = .identifier ∧ address ∈ tokens)) :
    (node.respell tokens spelling address).fields =
      respellFields tokens spelling address 0 node.fields := by
  obtain ⟨kind, fields, location⟩ := node
  unfold respell
  rw [if_neg (by exact kept)]
  rfl

mutual

theorem fits_respell {file : String} {category : Category} (address : Address) :
    ∀ node : Node, node.Fits file category → (node.respell tokens spelling address).Fits file category
  | .mk kind fields location => by
    rintro ⟨allowed, located, slots, member, fit⟩
    unfold respell
    split
    · rename_i chosen
      obtain ⟨rfl, _⟩ := chosen
      exact ⟨allowed, located, [.text], by decide, ⟨spelling, rfl⟩, rfl⟩
    · exact ⟨allowed, located, slots, member, allFit_respellFields address 0 fields slots fit⟩

theorem allFit_respellFields {file : String} (address : Address) (index : Nat) :
    ∀ (fields : List Field) (slots : List Slot), Field.AllFit file slots fields →
      Field.AllFit file slots (respellFields tokens spelling address index fields)
  | [], _, fit => fit
  | _ :: _, [], fit => fit.elim
  | field :: rest, slot :: slots, fit =>
    ⟨fits_respellField address index field slot fit.1,
      allFit_respellFields address (index + 1) rest slots fit.2⟩

theorem fits_respellField {file : String} (address : Address) (index : Nat) :
    ∀ (field : Field) (slot : Slot), Field.Fits file slot field →
      Field.Fits file slot (respellField tokens spelling address index field)
  | .data _, _, fits => fits
  | .node child, slot, fits => by
    cases slot with
    | one category => exact fits_respell _ child fits
    | optional category => exact fits_respell _ child fits
    | _ => exact fits.elim
  | .list items, slot, fits => by
    cases slot with
    | many category => exact itemsFit_respellItems address index 0 items category false fits
    | several category =>
      refine ⟨?_, itemsFit_respellItems address index 0 items category false fits.2⟩
      intro isEmpty
      cases items with
      | nil => exact fits.1 rfl
      | cons item rest => cases item <;> cases isEmpty
    | sparse category => exact itemsFit_respellItems address index 0 items category true fits
    | _ => exact fits.elim

theorem itemsFit_respellItems {file : String} (address : Address) (index place : Nat) :
    ∀ (items : List Field) (category : Category) (holes : Bool),
      Field.ItemsFit file category holes items →
        Field.ItemsFit file category holes (respellItems tokens spelling address index place items)
  | [], _, _, fit => fit
  | .node child :: rest, category, holes, fit =>
    ⟨fits_respell _ child fit.1,
      itemsFit_respellItems address index (place + 1) rest category holes fit.2⟩
  | .data _ :: rest, category, holes, fit =>
    ⟨fit.1, itemsFit_respellItems address index (place + 1) rest category holes fit.2⟩
  | .list _ :: _, _, _, fit => fit.elim

end

theorem respellItems_nodes (address : Address) (index place : Nat) (trees : List Node) :
    ∃ others : List Node,
      respellItems tokens spelling address index place (trees.map .node) = others.map .node ∧
        ∀ other ∈ others, ∃ tree ∈ trees, ∃ inner, other = tree.respell tokens spelling inner := by
  induction trees generalizing place with
  | nil => exact ⟨[], rfl, by simp⟩
  | cons tree trees ih =>
    obtain ⟨others, othersEq, source⟩ := ih (place + 1)
    refine ⟨tree.respell tokens spelling (⟨index, some place⟩ :: address) :: others, ?_, ?_⟩
    · simp only [List.map_cons, respellItems, othersEq]
    · intro other member
      rcases List.mem_cons.1 member with rfl | member
      · exact ⟨tree, List.mem_cons_self, _, rfl⟩
      · obtain ⟨origin, originMember, inner, rfl⟩ := source other member
        exact ⟨origin, List.mem_cons_of_mem _ originMember, inner, rfl⟩

theorem Shaped.respell {root : Node} (shaped : root.Shaped) (address : Address) :
    (root.respell tokens spelling address).Shaped := by
  induction shaped generalizing address with
  | program fits => exact .program (fits_respell address _ fits)
  | @collection trees _ ih =>
    obtain ⟨others, othersEq, source⟩ := respellItems_nodes address 0 0 trees
    have respellEq : (Node.collection trees).respell tokens spelling address =
        .collection others := by
      rw [Node.collection, Node.respell, if_neg (by simp), respellFields, respellField, othersEq]
      rfl
    rw [respellEq]
    refine .collection fun other member => ?_
    obtain ⟨tree, treeMember, inner, rfl⟩ := source other member
    exact ih tree treeMember inner

theorem Inner.respell (inner : node.Inner) (address : Address) :
    (node.respell tokens spelling address).Inner := by
  obtain ⟨file, category, notProgram, fits⟩ := inner
  exact ⟨file, category, notProgram, fits_respell address node fits⟩

def respellChild (tokens : List Address) (spelling : Text) (address : Address)
    (entry : Step × Node) : Step × Node :=
  (entry.1, entry.2.respell tokens spelling (entry.1 :: address))

theorem steps_respell {address : Address} (kept : ¬ (node.kind = .identifier ∧ address ∈ tokens)) :
    (node.respell tokens spelling address).steps =
      node.steps.map (respellChild tokens spelling address) := by
  have recursion : Recursion (· ++ ·) [] (fun step child => [respellChild tokens spelling address
        (step, child)])
      (fun index fields => ((respellFields tokens spelling address index fields).zipIdx index).flatMap
        fun entry => fieldChildren entry.2 entry.1)
      (fun index field => fieldChildren index (respellField tokens spelling address index field))
      (fun index place items =>
        ((respellItems tokens spelling address index place items).zipIdx place).filterMap
          fun entry => entry.1.node?.map fun child => (⟨index, some entry.2⟩, child)) := by
    constructor <;> intros <;> rfl
  rw [steps, fields_respell kept]
  exact recursion.eq_ofSteps (List.map _) (fun _ _ => List.map_append) (fun _ _ => rfl) node

end Node

namespace Occurrence

def respelled (tokens : List Address) (spelling : Text) (place : Occurrence) : Occurrence :=
  ⟨place.address, place.node.respell tokens spelling place.address⟩

variable {tokens : List Address} {spelling : Text}
variable {place : Occurrence}

@[simp]
theorem address_respelled (place : Occurrence) :
    (place.respelled tokens spelling).address = place.address :=
  rfl

@[simp]
theorem kind_respelled (place : Occurrence) :
    (place.respelled tokens spelling).node.kind = place.node.kind :=
  Node.kind_respell _ _

theorem name?_respelled_of_mem (isIdentifier : place.node.kind = .identifier)
    (chosen : place.address ∈ tokens) :
    (place.respelled tokens spelling).name? = some (.text spelling) := by
  obtain ⟨address, kind, fields, location⟩ := place
  unfold respelled Node.respell
  rw [if_pos ⟨isIdentifier, chosen⟩]
  obtain rfl : kind = .identifier := isIdentifier
  rfl

/-- The addresses of a group of tokens belong to the tokens of the group only. -/
theorem mem_map_address_iff {root : Node} {group : List Occurrence} {belongs : Occurrence → Prop}
    (members : ∀ token, token ∈ group ↔ belongs token)
    (insideAll : ∀ token, belongs token → token.IsIn root) (token : Occurrence)
    (inside : token.IsIn root) : token.address ∈ group.map address ↔ belongs token := by
  rw [← members]
  constructor
  · intro chosen
    obtain ⟨other, member, same⟩ := List.mem_map.1 chosen
    rwa [(insideAll other ((members other).1 member)).eq_of_address inside same] at member
  · exact List.mem_map_of_mem

section Shaped

variable {root : Node} (shaped : root.Shaped)

include shaped

theorem name?_respelled_of_not_mem (inside : place.IsIn root) (kept : place.address ∉ tokens) :
    (place.respelled tokens spelling).name? = place.name? := by
  by_cases isIdentifier : place.node.kind = .identifier
  · obtain ⟨file, category, _, fits⟩ :=
      shaped.inner inside (by simp [isIdentifier]) (by simp [isIdentifier])
    obtain ⟨own, location, nodeEq⟩ := fits.identifier isIdentifier
    unfold respelled
    rw [nodeEq, Node.respell, if_neg (by simp [kept]), name?, name?, nodeEq]
    rfl
  · have without (other : Occurrence) (notIdentifier : other.node.kind ≠ .identifier) :
        other.name? = none := by
      cases named : other.name? with
      | none => rfl
      | some name => exact absurd (kind_of_name? named) notIdentifier
    rw [without place isIdentifier, without _ (by simpa using isIdentifier)]

theorem children_respelled (inside : place.IsIn root) :
    (place.respelled tokens spelling).children =
      place.children.map (respelled tokens spelling) := by
  by_cases kept : place.node.kind = .identifier ∧ place.address ∈ tokens
  · have inner := shaped.inner inside (by simp [kept.1]) (by simp [kept.1])
    have respelledInner : (place.respelled tokens spelling).node.Inner := inner.respell _
    rw [children_of_identifier inner kept.1,
      children_of_identifier respelledInner (by simp [kept.1])]
    rfl
  · rw [children, respelled, Node.steps_respell kept]
    simp only [children, List.map_map]
    rfl

theorem carries_respelled : Carries (·.IsIn root) (respelled tokens spelling) :=
  ⟨kind_respelled, fun inside member => inside.child member,
    fun inside => children_respelled shaped inside, fun _ _ => rfl⟩

theorem mem_walk_respell :
    place ∈ (root.respell tokens spelling []).walk ↔
      ∃ origin ∈ root.walk, origin.respelled tokens spelling = place := by
  have walkEq : ((⟨[], root⟩ : Occurrence).respelled tokens spelling).walk = _ :=
    (carries_respelled shaped).walk ⟨[], root⟩ rfl
  change place ∈ ((⟨[], root⟩ : Occurrence).respelled tokens spelling).walk ↔ _
  rw [walkEq, List.mem_map]
  rfl

theorem IsIn.respelled (inside : place.IsIn root) :
    (place.respelled tokens spelling).IsIn (root.respell tokens spelling []) := by
  rw [← Node.mem_walk, mem_walk_respell shaped]
  exact ⟨place, Node.mem_walk.2 inside, rfl⟩

theorem above_respell (inside : place.IsIn root) :
    (root.respell tokens spelling []).above place.address =
      (root.above place.address).map (Occurrence.respelled tokens spelling) := by
  obtain ⟨address, node⟩ := place
  induction address generalizing node with
  | nil => rfl
  | cons step rest ih =>
    obtain ⟨parent, parentFound, _⟩ := Node.exists_at?_of_cons inside
    have parentIn : (⟨rest, parent⟩ : Occurrence).IsIn root := parentFound
    have respelledFound : (root.respell tokens spelling []).at? rest =
        some (parent.respell tokens spelling rest) := parentIn.respelled shaped
    rw [Node.above_cons parentFound, Node.above_cons respelledFound, List.map_cons,
      ih parent parentIn]
    rfl

end Shaped

end Occurrence

end Namesake
