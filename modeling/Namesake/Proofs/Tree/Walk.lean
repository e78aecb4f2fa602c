import Mathlib.Data.List.Nodup
import Mathlib.Data.List.Sigma
import Namesake.Node.Gather

/-!
The recursions over a tree go through fields and items one by one.  Here they are brought into
one form, in which a node is followed by what comes of its children.
-/

namespace Namesake

open Option List

variable {node : Node} {place : Occurrence} {step : Step}

namespace Node

variable {child : Node}

theorem mem_itemChildren {field : Nat} {items : List Field} :
    (step, child) ∈ itemChildren field items ↔
      ∃ index, step = ⟨field, some index⟩ ∧ items[index]?.bind Field.node? = some child := by
  simp only [itemChildren, mem_filterMap, Prod.exists, mem_zipIdx_iff_getElem?,
    map_eq_some_iff, Prod.mk.injEq]
  constructor
  · rintro ⟨item, index, found, _, nodeEq, rfl, rfl⟩
    exact ⟨index, rfl, by rw [found]; exact nodeEq⟩
  · rintro ⟨index, rfl, found⟩
    obtain ⟨item, itemFound, nodeEq⟩ := bind_eq_some_iff.1 found
    exact ⟨item, index, itemFound, child, nodeEq, rfl, rfl⟩

theorem mem_steps :
    (step, child) ∈ node.steps ↔ node.child? step = some child := by
  obtain ⟨field, item⟩ := step
  simp only [steps, mem_flatMap, Prod.exists, mem_zipIdx_iff_getElem?, child?]
  constructor
  · rintro ⟨content, index, found, member⟩
    cases content with
    | data value => simp [fieldChildren] at member
    | node inner =>
      simp only [fieldChildren, mem_singleton, Prod.mk.injEq, Step.mk.injEq] at member
      obtain ⟨⟨rfl, rfl⟩, rfl⟩ := member
      rw [found]
    | list items =>
      obtain ⟨place, stepEq, childFound⟩ := mem_itemChildren.1 member
      cases stepEq
      rw [found]
      exact childFound
  · intro found
    split at found
    · rename_i fieldEq
      cases found
      exact ⟨.node child, field, fieldEq, by simp [fieldChildren]⟩
    · rename_i items index fieldEq
      exact ⟨.list items, field, fieldEq, mem_itemChildren.2 ⟨index, rfl, found⟩⟩
    · cases found

theorem pairwise_zipIdx {α : Type} (list : List α) :
    list.zipIdx.Pairwise fun left right => left.2 ≠ right.2 :=
  pairwise_map.1 (nodup_zipIdx_map_snd list)

theorem field_of_mem_fieldChildren {field : Nat} {content : Field} {entry : Step × Node}
    (member : entry ∈ fieldChildren field content) : entry.1.field = field := by
  cases content with
  | data value => simp [fieldChildren] at member
  | node child =>
    rw [mem_singleton.1 member]
  | list items =>
    obtain ⟨index, stepEq, _⟩ := mem_itemChildren.1 member
    rw [stepEq]

theorem pairwise_steps (node : Node) :
    node.steps.Pairwise fun left right => left.1 ≠ right.1 := by
  refine pairwise_flatMap.2 ⟨?_, ?_⟩
  · rintro ⟨content, field⟩ _
    cases content with
    | data value => exact .nil
    | node child => exact pairwise_singleton _ _
    | list items =>
      refine pairwise_filterMap.2 ((pairwise_zipIdx items).imp ?_)
      intro left right different first firstEq second secondEq same
      obtain ⟨_, _, rfl⟩ := map_eq_some_iff.1 firstEq
      obtain ⟨_, _, rfl⟩ := map_eq_some_iff.1 secondEq
      exact different (by simpa using same)
  · refine (pairwise_zipIdx node.fields).imp ?_
    intro left right different first firstMember second secondMember same
    refine different ?_
    rw [← field_of_mem_fieldChildren firstMember, ← field_of_mem_fieldChildren secondMember, same]

theorem sizeOf_child? (found : node.child? step = some child) :
    sizeOf child < sizeOf node := by
  obtain ⟨kind, fields, location⟩ := node
  have field_lt {field : Field} (member : field ∈ fields) :
      sizeOf field < sizeOf (Node.mk kind fields location) := by
    have inside := sizeOf_lt_of_mem member
    simp only [Node.mk.sizeOf_spec]
    omega
  unfold child? at found
  split at found
  · rename_i fieldEq _
    cases found
    have inside := field_lt (mem_of_getElem? fieldEq)
    simp only [Field.node.sizeOf_spec] at inside
    omega
  · rename_i items index fieldEq _
    obtain ⟨item, itemFound, nodeEq⟩ := bind_eq_some_iff.1 found
    have inside := field_lt (mem_of_getElem? fieldEq)
    have itemInside := sizeOf_lt_of_mem (mem_of_getElem? itemFound)
    cases item with
    | data value => cases nodeEq
    | list items => cases nodeEq
    | node other =>
      cases nodeEq
      simp only [Field.node.sizeOf_spec, Field.list.sizeOf_spec] at inside itemInside
      omega
  · cases found

end Node

namespace Occurrence

theorem mem_children {child : Occurrence} :
    child ∈ place.children ↔ ∃ step, child.address = step :: place.address ∧
        place.node.child? step = some child.node := by
  simp only [children, List.mem_map, Prod.exists, Node.mem_steps]
  constructor
  · rintro ⟨step, node, found, rfl⟩
    exact ⟨step, rfl, found⟩
  · rintro ⟨step, addressEq, found⟩
    exact ⟨step, child.node, found, by rw [← addressEq]⟩

theorem pairwise_children (place : Occurrence) :
    place.children.Pairwise fun left right => left.address ≠ right.address := by
  refine pairwise_map.2 (place.node.pairwise_steps.imp ?_)
  intro left right different same
  exact different (List.cons.inj same).1

theorem induct {motive : Occurrence → Prop}
    (step : ∀ place, (∀ child ∈ place.children, motive child) → motive place)
    (place : Occurrence) : motive place :=
  step place fun child _member => induct step child
termination_by sizeOf place.node
decreasing_by
  obtain ⟨_, _, found⟩ := mem_children.1 _member
  exact Node.sizeOf_child? found

end Occurrence

namespace Node

/-- A recursion that goes through the fields of a node and through the items of a list, and joins what
it makes of each. -/
structure Recursion {Result : Type} (join : Result → Result → Result) (nothing : Result)
    (ofStep : Step → Node → Result) (ofFields : Nat → List Field → Result)
    (ofField : Nat → Field → Result) (ofItems : Nat → Nat → List Field → Result) : Prop where
  nil : ∀ index, ofFields index [] = nothing
  cons : ∀ index field rest,
    ofFields index (field :: rest) = join (ofField index field) (ofFields (index + 1) rest)
  data : ∀ index value, ofField index (.data value) = nothing
  node : ∀ index child, ofField index (.node child) = ofStep ⟨index, none⟩ child
  list : ∀ index items, ofField index (.list items) = ofItems index 0 items
  nilItem : ∀ index place, ofItems index place [] = nothing
  nodeItem : ∀ index place child rest, ofItems index place (.node child :: rest) =
    join (ofStep ⟨index, some place⟩ child) (ofItems index (place + 1) rest)
  dataItem : ∀ index place value rest,
    ofItems index place (.data value :: rest) = ofItems index (place + 1) rest
  listItem : ∀ index place items rest,
    ofItems index place (.list items :: rest) = ofItems index (place + 1) rest

/-- What a recursion comes to is what it makes of the children. -/
theorem Recursion.eq_ofSteps {Result : Type} {join : Result → Result → Result} {ofStep ofFields}
    {ofField ofItems} (ofSteps : List (Step × Node) → Result)
    (recursion : Recursion join (ofSteps []) ofStep ofFields ofField ofItems)
    (append : ∀ left right, ofSteps (left ++ right) = join (ofSteps left) (ofSteps right))
    (single : ∀ step child, ofSteps [(step, child)] = ofStep step child) (node : Node) :
    ofFields 0 node.fields = ofSteps node.steps := by
  have items (index place : Nat) (items : List Field) : ofItems index place items =
      ofSteps ((items.zipIdx place).filterMap fun entry =>
        entry.1.node?.map fun child => (⟨index, some entry.2⟩, child)) := by
    induction items generalizing place with
    | nil => exact recursion.nilItem index place
    | cons item rest ih =>
      cases item with
      | node child =>
        rw [recursion.nodeItem, ih, ← single, ← append]
        rfl
      | data value => exact (recursion.dataItem index place value rest).trans (ih (place + 1))
      | list items => exact (recursion.listItem index place items rest).trans (ih (place + 1))
  have field (index : Nat) (field : Field) :
      ofField index field = ofSteps (fieldChildren index field) := by
    cases field with
    | data value => exact recursion.data index value
    | node child => exact (recursion.node index child).trans (single _ child).symm
    | list content => exact (recursion.list index content).trans (items index 0 content)
  have all (index : Nat) (fields : List Field) : ofFields index fields =
      ofSteps ((fields.zipIdx index).flatMap fun entry => fieldChildren entry.2 entry.1) := by
    induction fields generalizing index with
    | nil => exact recursion.nil index
    | cons head rest ih =>
      rw [recursion.cons, field, ih, ← append]
      rfl
  exact all 0 node.fields

end Node

namespace Occurrence

def walk (place : Occurrence) : List Occurrence :=
  place.node.walkFrom place.address

theorem walk_eq (place : Occurrence) : place.walk = place :: place.children.flatMap walk := by
  obtain ⟨address, kind, fields, location⟩ := place
  have recursion : Node.Recursion (· ++ ·) [] (fun step child => child.walkFrom (step :: address))
      (Node.walkFields address) (Node.walkField address) (Node.walkItems address) := by
    constructor <;> intros <;> rfl
  rw [children, flatMap_map]
  exact congrArg (List.cons _) (recursion.eq_ofSteps (flatMap _) (fun _ _ => flatMap_append)
    (fun _ _ => append_nil _) (.mk kind fields location))

theorem gather_eq {Memory Found : Type} (look : Memory → Occurrence → Look Memory Found)
    (memory : Memory) (place : Occurrence) :
    place.gather look memory = (look memory place).found ++ match (look memory place).below with
        | none => []
        | some memory => place.children.flatMap (gather look memory) := by
  obtain ⟨address, kind, fields, location⟩ := place
  cases goesOn : (look memory ⟨address, .mk kind fields location⟩).below with
  | none => simp only [gather, Node.gather, goesOn, append_nil]
  | some inner =>
    have recursion : Node.Recursion (· ++ ·) []
        (fun step child => child.gather look inner (step :: address))
        (Node.gatherFields look inner address) (Node.gatherField look inner address)
        (Node.gatherItems look inner address) := by
      constructor <;> intros <;> rfl
    simp only [gather, Node.gather, goesOn, children, flatMap_map]
    exact congrArg _ (recursion.eq_ofSteps (flatMap _) (fun _ _ => flatMap_append)
      (fun _ _ => append_nil _) (.mk kind fields location))

end Occurrence

namespace Node

variable {root : Node}

theorem at?_cons (root : Node) (step : Step) (address : Address) :
    root.at? (step :: address) = (root.at? address).bind (·.child? step) :=
  rfl

theorem exists_at?_of_cons {child : Node} {address : Address}
    (found : root.at? (step :: address) = some child) :
    ∃ parent, root.at? address = some parent ∧ parent.child? step = some child :=
  bind_eq_some_iff.1 found

theorem exists_at?_of_suffix {outer inner : Address} (suffix : outer <:+ inner)
    (found : root.at? inner = some node) : ∃ above, root.at? outer = some above := by
  obtain ⟨path, rfl⟩ := suffix
  induction path generalizing node with
  | nil => exact ⟨node, found⟩
  | cons step path ih =>
    obtain ⟨parent, parentFound, _⟩ := exists_at?_of_cons found
    exact ih parentFound

theorem above_cons {parent : Node} {address : Address} (found : root.at? address = some parent) :
    root.above (step :: address) = ⟨address, parent⟩ :: root.above address := by
  simp [above, occurrence?, found]

end Node

namespace Occurrence

variable {root : Node}

def IsIn (place : Occurrence) (root : Node) : Prop :=
  root.at? place.address = some place.node

theorem IsIn.child {root : Node} {child : Occurrence} (inside : place.IsIn root)
    (member : child ∈ place.children) : child.IsIn root := by
  obtain ⟨step, addressEq, found⟩ := mem_children.1 member
  rw [IsIn, addressEq, Node.at?_cons, inside]
  exact found

theorem IsIn.eq_of_address {left right : Occurrence} (leftIn : left.IsIn root)
    (rightIn : right.IsIn root) (same : left.address = right.address) : left = right := by
  obtain ⟨address, node⟩ := left
  obtain ⟨_, other⟩ := right
  obtain rfl : address = _ := same
  rw [IsIn, leftIn] at rightIn
  cases rightIn
  rfl

section Fields

variable {root node : Node} {address : Address}
variable (inside : (⟨address, node⟩ : Occurrence).IsIn root) (index : Nat)

include inside

theorem isIn_field {child : Node} (found : node.fields[index]? = some (.node child)) :
    (⟨⟨index, none⟩ :: address, child⟩ : Occurrence).IsIn root := by
  have parentFound : root.at? address = some node := inside
  rw [IsIn, Node.at?_cons, parentFound]
  simp [Node.child?, found]

theorem isIn_item {items : List Field} (found : node.fields[index]? = some (.list items))
    {place : Nat} {child : Node} (itemFound : items[place]? = some (.node child)) :
    (⟨⟨index, some place⟩ :: address, child⟩ : Occurrence).IsIn root := by
  have parentFound : root.at? address = some node := inside
  rw [IsIn, Node.at?_cons, parentFound]
  simp [Node.child?, found, itemFound, Field.node?]

end Fields

theorem of_mem_above {address : Address} {outer : Occurrence} (member : outer ∈ root.above address) :
    outer.IsIn root ∧ ∃ step path, address = path ++ step :: outer.address := by
  induction address with
  | nil => cases member
  | cons step rest ih =>
    rw [Node.above, mem_append] at member
    rcases member with member | member
    · obtain ⟨node, found, rfl⟩ := map_eq_some_iff.1 (mem_toList.1 member)
      exact ⟨found, step, [], rfl⟩
    · obtain ⟨inside, other, path, rfl⟩ := ih member
      exact ⟨inside, other, step :: path, rfl⟩

theorem exists_find?_above {root : Node} (inside : place.IsIn root) {wanted : Occurrence → Bool}
    (isWanted : wanted place = true) {path : Address} (notEmpty : path ≠ [])
    (found : root.at? (path ++ place.address) = some node) :
    ∃ inner, (root.above (path ++ place.address)).find? wanted = some inner ∧
      place.address <:+ inner.address := by
  induction path generalizing node with
  | nil => exact absurd rfl notEmpty
  | cons step path ih =>
    rw [cons_append] at found ⊢
    obtain ⟨parent, parentFound, _⟩ := Node.exists_at?_of_cons found
    rw [Node.above_cons parentFound]
    by_cases top : path = []
    · subst top
      obtain rfl : place.node = parent := Option.some.inj (inside.symm.trans parentFound)
      exact ⟨place, List.find?_cons_of_pos isWanted, suffix_refl _⟩
    · cases inner : wanted ⟨path ++ place.address, parent⟩ with
      | true => exact ⟨_, List.find?_cons_of_pos inner, suffix_append _ _⟩
      | false =>
        obtain ⟨other, otherFound, below⟩ := ih top parentFound
        exact ⟨other, by rw [List.find?_cons_of_neg (by simp [inner]), otherFound], below⟩

theorem mem_walk_iff (place : Occurrence) (inside : place.IsIn root) {inner : Occurrence} :
    inner ∈ place.walk ↔ inner.IsIn root ∧ place.address <:+ inner.address := by
  induction place using induct with
  | step place ih =>
    rw [walk_eq, mem_cons, mem_flatMap]
    constructor
    · rintro (rfl | ⟨child, member, below⟩)
      · exact ⟨inside, suffix_refl _⟩
      · obtain ⟨innerIn, suffix⟩ := (ih child member (inside.child member)).1 below
        obtain ⟨step, addressEq, _⟩ := mem_children.1 member
        rw [addressEq] at suffix
        exact ⟨innerIn, (suffix_cons _ _).trans suffix⟩
    · rintro ⟨innerIn, path, addressEq⟩
      rcases eq_nil_or_concat path with rfl | ⟨path, step, rfl⟩
      · exact .inl (innerIn.eq_of_address inside addressEq.symm)
      · have suffix : step :: place.address <:+ inner.address := ⟨path, by simpa using addressEq⟩
        obtain ⟨node, found⟩ := Node.exists_at?_of_suffix suffix innerIn
        obtain ⟨parent, parentFound, childFound⟩ := Node.exists_at?_of_cons found
        rw [inside] at parentFound
        cases parentFound
        have member : (⟨step :: place.address, node⟩ : Occurrence) ∈ place.children :=
          mem_children.2 ⟨step, rfl, childFound⟩
        exact .inr ⟨_, member, (ih _ member found).2 ⟨innerIn, suffix⟩⟩

theorem suffix_of_mem_walk (place : Occurrence) :
    ∀ inner ∈ place.walk, place.address <:+ inner.address := by
  induction place using induct with
  | step place ih =>
    rw [walk_eq]
    intro inner member
    rcases mem_cons.1 member with rfl | member
    · exact suffix_refl _
    · obtain ⟨child, childMember, below⟩ := mem_flatMap.1 member
      obtain ⟨step, addressEq, _⟩ := mem_children.1 childMember
      have suffix := ih child childMember inner below
      rw [addressEq] at suffix
      exact (suffix_cons _ _).trans suffix

theorem pairwise_walk (place : Occurrence) :
    place.walk.Pairwise fun left right => left.address ≠ right.address := by
  induction place using induct with
  | step place ih =>
    rw [walk_eq, pairwise_cons]
    constructor
    · intro inner member same
      obtain ⟨child, childMember, below⟩ := mem_flatMap.1 member
      obtain ⟨step, addressEq, _⟩ := mem_children.1 childMember
      have suffix := suffix_of_mem_walk child inner below
      rw [← same, addressEq] at suffix
      exact absurd suffix.length_le (Nat.not_succ_le_self _)
    · refine pairwise_flatMap.2 ⟨ih, ?_⟩
      refine place.pairwise_children.imp_of_mem ?_
      intro left right leftMember rightMember different first firstBelow second secondBelow same
      refine different ?_
      obtain ⟨_, leftEq, _⟩ := mem_children.1 leftMember
      obtain ⟨_, rightEq, _⟩ := mem_children.1 rightMember
      have leftSuffix := suffix_of_mem_walk left first firstBelow
      have rightSuffix := suffix_of_mem_walk right second secondBelow
      rw [same] at leftSuffix
      refine (suffix_of_suffix_length_le leftSuffix rightSuffix ?_).eq_of_length ?_
      all_goals simp [leftEq, rightEq]

end Occurrence

namespace Node

variable {root : Node}

theorem mem_walk : place ∈ root.walk ↔ place.IsIn root := by
  have top : (⟨[], root⟩ : Occurrence).IsIn root := rfl
  refine (Occurrence.mem_walk_iff ⟨[], root⟩ top).trans ?_
  simp

theorem nodup_walk (root : Node) : (root.walk.map Occurrence.address).Nodup :=
  pairwise_map.2 (Occurrence.pairwise_walk ⟨[], root⟩)

theorem exists_walk_eq_append (inside : place.IsIn root) :
    ∃ before after, root.walk = before ++ place.walk ++ after := by
  obtain ⟨address, node⟩ := place
  induction address generalizing node with
  | nil =>
    cases inside
    exact ⟨[], [], by simp [walk, Occurrence.walk]⟩
  | cons step address ih =>
    obtain ⟨parent, parentFound, childFound⟩ := exists_at?_of_cons inside
    obtain ⟨before, after, walkEq⟩ := ih parent parentFound
    have member : (⟨step :: address, node⟩ : Occurrence) ∈ Occurrence.children ⟨address, parent⟩ :=
      Occurrence.mem_children.2 ⟨step, rfl, childFound⟩
    obtain ⟨left, right, childrenEq⟩ := append_of_mem member
    refine ⟨before ++ ⟨address, parent⟩ :: left.flatMap Occurrence.walk,
      right.flatMap Occurrence.walk ++ after, ?_⟩
    rw [walkEq, Occurrence.walk_eq ⟨address, parent⟩, childrenEq]
    simp

theorem filter_walk_of_suffix (inside : place.IsIn root) {chosen : Occurrence → Bool}
    (below : ∀ inner : Occurrence, inner.IsIn root → chosen inner = true → place.address <:+
      inner.address) :
    root.walk.filter chosen = place.walk.filter chosen := by
  obtain ⟨before, after, walkEq⟩ := exists_walk_eq_append inside
  have nodup := root.nodup_walk
  rw [walkEq, map_append, map_append, nodup_append, nodup_append] at nodup
  have in_place {inner : Occurrence} (member : inner ∈ root.walk) (isChosen : chosen inner = true) :
      inner.address ∈ place.walk.map Occurrence.address :=
    mem_map_of_mem ((Occurrence.mem_walk_iff place inside).2
        ⟨mem_walk.1 member, below inner (mem_walk.1 member) isChosen⟩)
  have noneBefore : before.filter chosen = [] := by
    refine filter_eq_nil_iff.2 fun inner member isChosen => ?_
    have found := in_place (by simp [walkEq, member]) isChosen
    exact nodup.1.2.2 _ (mem_map_of_mem member) _ found rfl
  have noneAfter : after.filter chosen = [] := by
    refine filter_eq_nil_iff.2 fun inner member isChosen => ?_
    have found := in_place (by simp [walkEq, member]) isChosen
    exact nodup.2.2 _ (mem_append_right _ found) _ (mem_map_of_mem member) rfl
  rw [walkEq, filter_append, filter_append, noneBefore, noneAfter]
  simp

end Node

end Namesake
