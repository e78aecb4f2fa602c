import Mathlib.Algebra.BigOperators.Group.Finset.Basic
import Namesake.Proofs.TypeGraph.Forest

/-!
What matters about a graph is which nodes have the same root, what each root holds, and which
pairs wait.  Nothing after this module looks at the array behind a graph.
-/

namespace Namesake.TypeGraph

open List

variable {graph other : TypeGraph} {id kept absorbed left right : TypeId}
  {change : TypeNode → TypeNode}

/-- A graph with the same classes, which hold the same. -/
structure SameClasses (graph other : TypeGraph) : Prop where
  forest : other.Forest
  size : other.size = graph.size
  pending : other.pending = graph.pending
  root : ∀ id, other.root id = graph.root id
  properties : ∀ id, (other.node id).properties = (graph.node id).properties
  isNamespace : ∀ id, (other.node id).isNamespace = (graph.node id).isNamespace

theorem SameClasses.trans {first second third : TypeGraph} (left : first.SameClasses second)
    (right : second.SameClasses third) : first.SameClasses third where
  forest := right.forest
  size := right.size.trans left.size
  pending := right.pending.trans left.pending
  root := fun id => (right.root id).trans (left.root id)
  properties := fun id => (right.properties id).trans (left.properties id)
  isNamespace := fun id => (right.isNamespace id).trans (left.isNamespace id)

theorem Shortened.sameClasses (shortened : graph.Shortened other) (forest : graph.Forest) :
    graph.SameClasses other where
  forest := shortened.forest forest
  size := shortened.size
  pending := shortened.pending
  root := shortened.root forest
  properties := shortened.properties
  isNamespace := shortened.isNamespace

theorem read_update {β : Type} (graph : TypeGraph) (read : TypeNode → β) (id : TypeId)
    (keeps : ∀ node, read (change node) = read node) (other : TypeId) :
    read ((graph.update id change).node other) = read (graph.node other) := by
  by_cases same : other = id
  · subst same
    rcases Nat.lt_or_ge other graph.size with inside | outside
    · rw [node_update_self graph other change inside, keeps]
    · rw [node_of_size_le graph outside, node_of_size_le _ (by rw [size_update]; exact outside)]
  · rw [node_update_of_ne graph change same]

theorem forest_update (forest : graph.Forest) (isRoot : (graph.node id).parent = id)
    (keeps : ∀ node, (change node).parent = node.parent) : (graph.update id change).Forest where
  inRange := by
    intro other inside
    rw [size_update] at inside ⊢
    rw [read_update graph TypeNode.parent id keeps]
    exact forest.inRange other inside
  path := by
    intro other
    obtain ⟨steps, root, path⟩ := forest.path other
    exact ⟨steps, root, path.congr (read_update graph TypeNode.parent id keeps)⟩
  cleared := by
    intro other notRoot
    have unequal : other ≠ id := by
      intro same
      rw [read_update graph TypeNode.parent id keeps, same] at notRoot
      exact notRoot isRoot
    rw [node_update_of_ne graph change unequal] at notRoot ⊢
    exact forest.cleared other notRoot

theorem root_update (forest : graph.Forest) (isRoot : (graph.node id).parent = id)
    (keeps : ∀ node, (change node).parent = node.parent) (other : TypeId) :
    (graph.update id change).root other = graph.root other :=
  forest.root_congr (forest_update forest isRoot keeps) (read_update graph TypeNode.parent id keeps) other

theorem sameClasses_raise (forest : graph.Forest) (isRoot : (graph.node id).parent = id) :
    graph.SameClasses (graph.update id fun node => { node with rank := node.rank + 1 }) := by
  have keeps (node : TypeNode) : ({ node with rank := node.rank + 1 } : TypeNode).parent =
      node.parent := rfl
  exact ⟨forest_update forest isRoot keeps, size_update .., pending_update ..,
    root_update forest isRoot keeps, read_update graph TypeNode.properties id fun _ => rfl,
    read_update graph TypeNode.isNamespace id fun _ => rfl⟩

/-- A graph after a class was asked for a property that it did not have. -/
structure Extended (graph other : TypeGraph) (owner : TypeId) (name : Text) : Prop where
  forest : other.Forest
  size : other.size = graph.size + 1
  pending : other.pending = graph.pending
  root : ∀ id, other.root id = graph.root id
  owned : (other.node owner).properties = (graph.node owner).properties ++ [(name, graph.size)]
  properties : ∀ id, id ≠ owner → (other.node id).properties = (graph.node id).properties
  isNamespace : ∀ id, (other.node id).isNamespace = (graph.node id).isNamespace

theorem property_of_lookup (forest : graph.Forest) {target : TypeId} {name : Text}
    (found : (graph.node (graph.root id)).properties.lookup name = some target) :
    (graph.property id name).1 = graph.root target ∧
      graph.Shortened (graph.property id name).2 := by
  have first := shortened_representative forest id
  have forest' := first.forest forest
  have found' : ((graph.representative id).2.node (graph.representative id).1).properties.lookup
      name = some target := by
    rw [first.properties]
    exact found
  have unfolded : graph.property id name = (graph.representative id).2.representative target := by
    simp only [property, found']
  rw [unfolded]
  exact ⟨first.root forest target, first.trans (shortened_representative forest' target)⟩

theorem property_of_missing (forest : graph.Forest) {name : Text} (inside : id < graph.size)
    (missing : (graph.node (graph.root id)).properties.lookup name = none) :
    (graph.property id name).1 = graph.size ∧
      graph.Extended (graph.property id name).2 (graph.root id) name := by
  have first := shortened_representative forest id
  have forest₁ := first.forest forest
  have missing' : ((graph.representative id).2.node (graph.representative id).1).properties.lookup
      name = none := by
    rw [first.properties]
    exact missing
  generalize firstAt : (graph.representative id).2 = middle at first forest₁ missing'
  let change : TypeNode → TypeNode := fun node =>
    { node with properties := node.properties ++ [(name, middle.size)] }
  have keeps : ∀ node, (change node).parent = node.parent := fun _ => rfl
  have unfolded : graph.property id name =
      (middle.newNode.2.update (graph.root id) change).representative middle.size := by
    have pair : graph.representative id = (graph.root id, middle) := by
      rw [← firstAt]
      rfl
    rw [pair] at missing'
    simp only [property, pair, missing']
    rfl
  have forest₂ := forest_newNode forest₁
  have rootIn : graph.root id < graph.size := forest.root_lt inside
  have isRoot : (middle.newNode.2.node (graph.root id)).parent = graph.root id := by
    rw [node_newNode]
    exact (first.parent_iff _).mpr (forest.parent_root id)
  have forest₃ := forest_update forest₂ isRoot keeps
  have roots : ∀ other, (middle.newNode.2.update (graph.root id) change).root other =
      graph.root other := by
    intro other
    rw [root_update forest₂ isRoot keeps, root_newNode forest₁, first.root forest]
  have newIsRoot : graph.root middle.size = middle.size :=
    forest.root_of_size_le (Nat.le_of_eq first.size.symm)
  have last := shortened_representative forest₃ middle.size
  have node (other : TypeId) (unequal : other ≠ graph.root id) :
      (middle.newNode.2.update (graph.root id) change).node other = middle.node other := by
    rw [node_update_of_ne _ change unequal, node_newNode]
  have ownNode : (middle.newNode.2.update (graph.root id) change).node (graph.root id) =
      change (middle.node (graph.root id)) := by
    have within : graph.root id < middle.newNode.2.size := by
      rw [size_newNode, first.size]
      exact Nat.lt_succ_of_lt rootIn
    rw [node_update_self _ _ change within, node_newNode]
  rw [unfolded]
  refine ⟨?_, last.forest forest₃, ?_, ?_, ?_, ?_, ?_, ?_⟩
  · rw [representative_fst, roots, newIsRoot, first.size]
  · rw [last.size, size_update, size_newNode, first.size]
  · rw [last.pending, pending_update, pending_newNode, first.pending]
  · intro other
    rw [last.root forest₃, roots]
  · rw [last.properties, ownNode, ← first.properties, ← first.size]
  · intro other unequal
    rw [last.properties, node other unequal, first.properties]
  · intro other
    rw [last.isNamespace]
    by_cases same : other = graph.root id
    · subst same
      rw [ownNode]
      exact first.isNamespace _
    · rw [node other same, first.isNamespace]

/-- A graph after a class was marked as a namespace. -/
structure Marked (graph other : TypeGraph) (marked : TypeId) : Prop where
  forest : other.Forest
  size : other.size = graph.size
  pending : other.pending = graph.pending
  root : ∀ id, other.root id = graph.root id
  properties : ∀ id, (other.node id).properties = (graph.node id).properties
  isNamespace : ∀ id, (other.node id).isNamespace = (decide (id = marked) || (graph.node id).isNamespace)

theorem marked_markNamespace (forest : graph.Forest) (inside : id < graph.size) :
    graph.Marked (graph.markNamespace id) (graph.root id) := by
  have first := shortened_representative forest id
  have forest₁ := first.forest forest
  let change : TypeNode → TypeNode := fun node => { node with isNamespace := true }
  have keeps : ∀ node, (change node).parent = node.parent := fun _ => rfl
  have unfolded : graph.markNamespace id =
      (graph.representative id).2.update (graph.root id) change := rfl
  have isRoot : ((graph.representative id).2.node (graph.root id)).parent = graph.root id :=
    (first.parent_iff _).mpr (forest.parent_root id)
  have rootIn : graph.root id < (graph.representative id).2.size := by
    rw [first.size]
    exact forest.root_lt inside
  have ownNode := node_update_self _ (graph.root id) change rootIn
  rw [unfolded]
  refine ⟨forest_update forest₁ isRoot keeps, ?_, ?_, ?_, ?_, ?_⟩
  · rw [size_update, first.size]
  · rw [pending_update, first.pending]
  · intro other
    rw [root_update forest₁ isRoot keeps, first.root forest]
  · intro other
    by_cases same : other = graph.root id
    · subst same
      rw [ownNode]
      exact first.properties _
    · rw [node_update_of_ne _ change same, first.properties]
  · intro other
    by_cases same : other = graph.root id
    · subst same
      rw [ownNode]
      simp [change]
    · rw [node_update_of_ne _ change same, first.isNamespace]
      simp [same]

/-- A graph after one class took in another. -/
structure Absorbed (graph other : TypeGraph) (kept absorbed : TypeId) : Prop where
  forest : other.Forest
  size : other.size = graph.size
  root : ∀ id, other.root id = if graph.root id = absorbed then kept else graph.root id
  merged : ((other.node kept).properties, other.pending) =
    mergeProperties graph.pending (graph.node kept).properties (graph.node absorbed).properties
  cleared : other.node absorbed = { parent := kept }
  properties : ∀ id, id ≠ kept → id ≠ absorbed →
    (other.node id).properties = (graph.node id).properties
  joined : (other.node kept).isNamespace =
    ((graph.node kept).isNamespace || (graph.node absorbed).isNamespace)
  isNamespace : ∀ id, id ≠ kept → id ≠ absorbed →
    (other.node id).isNamespace = (graph.node id).isNamespace

theorem path_of_linked (different : kept ≠ absorbed) (keptIsRoot : (graph.node kept).parent = kept)
    (absorbedIsRoot : (graph.node absorbed).parent = absorbed)
    (linked : (other.node absorbed).parent = kept)
    (same : ∀ id, id ≠ absorbed → (other.node id).parent = (graph.node id).parent) {steps : Nat}
    {root : TypeId} (path : graph.Path steps id root) :
    other.Path (if root = absorbed then steps + 1 else steps) id
      (if root = absorbed then kept else root) := by
  have atKept : other.Path 0 kept kept := .here ((same kept different).trans keptIsRoot)
  induction path with
  | @here id isRoot =>
    by_cases last : id = absorbed
    · subst last
      rw [if_pos rfl, if_pos rfl]
      exact .step (by rw [linked]; exact different) (by rw [linked]; exact atKept)
    · rw [if_neg last, if_neg last]
      exact .here ((same id last).trans isRoot)
  | @step steps id root notRoot rest ih =>
    have unequal : id ≠ absorbed := by
      intro here
      rw [here] at notRoot
      exact notRoot absorbedIsRoot
    rw [← same id unequal] at notRoot ih
    have longer := Path.step notRoot ih
    by_cases target : root = absorbed
    · rw [if_pos target, if_pos target] at longer ⊢
      exact longer
    · rw [if_neg target, if_neg target] at longer ⊢
      exact longer

theorem absorbed_absorb (forest : graph.Forest) (different : kept ≠ absorbed)
    (keptIsRoot : (graph.node kept).parent = kept)
    (absorbedIsRoot : (graph.node absorbed).parent = absorbed) (keptIn : kept < graph.size)
    (absorbedIn : absorbed < graph.size) :
    graph.Absorbed (graph.absorb kept absorbed) kept absorbed := by
  generalize mergedAt : mergeProperties graph.pending (graph.node kept).properties
    (graph.node absorbed).properties = merged
  let change : TypeNode → TypeNode := fun node => { node with
    properties := merged.1, isNamespace := node.isNamespace || (graph.node absorbed).isNamespace }
  have unfolded : graph.absorb kept absorbed =
      { (graph.update kept change).update absorbed fun _ => { parent := kept } with
        pending := merged.2 } := by
    simp only [absorb, mergedAt]
    rfl
  have absorbedNode : (graph.absorb kept absorbed).node absorbed = { parent := kept } := by
    rw [unfolded, node_setPending, node_update_self _ _ _ (by rw [size_update]; exact absorbedIn)]
  have keptNode : (graph.absorb kept absorbed).node kept = change (graph.node kept) := by
    rw [unfolded, node_setPending, node_update_of_ne _ _ different, node_update_self _ _ _ keptIn]
  have otherNode (id : TypeId) (notKept : id ≠ kept) (notAbsorbed : id ≠ absorbed) :
      (graph.absorb kept absorbed).node id = graph.node id := by
    rw [unfolded, node_setPending, node_update_of_ne _ _ notAbsorbed, node_update_of_ne _ _ notKept]
  have sameParent (id : TypeId) (notAbsorbed : id ≠ absorbed) :
      ((graph.absorb kept absorbed).node id).parent = (graph.node id).parent := by
    by_cases isKept : id = kept
    · rw [isKept, keptNode]
    · rw [otherNode id isKept notAbsorbed]
  have linked : ((graph.absorb kept absorbed).node absorbed).parent = kept := by
    rw [absorbedNode]
  have path {steps : Nat} {id root : TypeId} (old : graph.Path steps id root) :=
    path_of_linked different keptIsRoot absorbedIsRoot linked sameParent old
  have sizeEq : (graph.absorb kept absorbed).size = graph.size := by
    rw [unfolded, size_setPending, size_update, size_update]
  have forest' : (graph.absorb kept absorbed).Forest := by
    refine ⟨?_, ?_, ?_⟩
    · intro id inside
      rw [sizeEq] at inside ⊢
      by_cases isAbsorbed : id = absorbed
      · rw [isAbsorbed, absorbedNode]
        exact keptIn
      · rw [sameParent id isAbsorbed]
        exact forest.inRange id inside
    · intro id
      obtain ⟨steps, root, old⟩ := forest.path id
      exact ⟨_, _, path old⟩
    · intro id notRoot
      by_cases isAbsorbed : id = absorbed
      · rw [isAbsorbed, absorbedNode]
      · have notKept : id ≠ kept := by
          intro isKept
          rw [sameParent id isAbsorbed, isKept] at notRoot
          exact notRoot keptIsRoot
        rw [otherNode id notKept isAbsorbed] at notRoot ⊢
        exact forest.cleared id notRoot
  refine ⟨forest', sizeEq, ?_, ?_, absorbedNode, ?_, ?_, ?_⟩
  · intro id
    obtain ⟨steps, old⟩ := forest.path_root id
    exact forest'.root_eq (path old)
  · rw [mergedAt, keptNode, unfolded]
  · intro id notKept notAbsorbed
    rw [otherNode id notKept notAbsorbed]
  · rw [keptNode]
  · intro id notKept notAbsorbed
    rw [otherNode id notKept notAbsorbed]

theorem Absorbed.of_sameClasses {middle : TypeGraph} (same : graph.SameClasses middle)
    (step : middle.Absorbed other kept absorbed) :
    graph.Absorbed other kept absorbed where
  forest := step.forest
  size := step.size.trans same.size
  root := by
    intro id
    rw [step.root, same.root]
  merged := by
    rw [step.merged, same.pending, same.properties, same.properties]
  cleared := step.cleared
  properties := by
    intro id notKept notAbsorbed
    rw [step.properties id notKept notAbsorbed, same.properties]
  joined := by
    rw [step.joined, same.isNamespace, same.isNamespace]
  isNamespace := by
    intro id notKept notAbsorbed
    rw [step.isNamespace id notKept notAbsorbed, same.isNamespace]

theorem sameClasses_both (forest : graph.Forest) (left right : TypeId) :
    graph.SameClasses ((graph.representative left).2.representative right).2 := by
  have first := shortened_representative forest left
  have second := shortened_representative (first.forest forest) right
  exact (first.trans second).sameClasses forest

theorem unify_of_same (forest : graph.Forest) (same : graph.root left = graph.root right) :
    graph.SameClasses (graph.unify left right) := by
  have first := shortened_representative forest left
  have sameRoot : (graph.representative left).1 =
      ((graph.representative left).2.representative right).1 := by
    rw [representative_fst, representative_fst, first.root forest, same]
  have unfolded : graph.unify left right =
      ((graph.representative left).2.representative right).2 := by
    simp only [unify, if_pos sameRoot]
  rw [unfolded]
  exact sameClasses_both forest left right

theorem unify_of_different (forest : graph.Forest) (leftIn : left < graph.size)
    (rightIn : right < graph.size) (different : graph.root left ≠ graph.root right) :
    graph.Absorbed (graph.unify left right) (graph.root left) (graph.root right) ∨
      graph.Absorbed (graph.unify left right) (graph.root right) (graph.root left) := by
  have first := shortened_representative forest left
  have both := sameClasses_both forest left right
  have rightRoot : ((graph.representative left).2.representative right).1 = graph.root right := by
    rw [representative_fst, first.root forest]
  generalize bothAt : ((graph.representative left).2.representative right).2 = middle at both
  have pair : (graph.representative left).2.representative right = (graph.root right, middle) := by
    rw [← bothAt, ← rightRoot]
  have leftIsRoot : (middle.node (graph.root left)).parent = graph.root left := by
    rw [← both.root left]
    exact both.forest.parent_root left
  have rightIsRoot : (middle.node (graph.root right)).parent = graph.root right := by
    rw [← both.root right]
    exact both.forest.parent_root right
  have leftRootIn : graph.root left < middle.size := by
    rw [both.size]
    exact forest.root_lt leftIn
  have rightRootIn : graph.root right < middle.size := by
    rw [both.size]
    exact forest.root_lt rightIn
  simp only [unify, pair, representative_fst, if_neg different]
  split
  · right
    exact .of_sameClasses both
      (absorbed_absorb both.forest different.symm rightIsRoot leftIsRoot rightRootIn leftRootIn)
  · left
    split
    · have raised := both.trans (sameClasses_raise both.forest leftIsRoot)
      refine .of_sameClasses raised (absorbed_absorb raised.forest different ?_ ?_ ?_ ?_)
      · rw [node_update_self _ _ _ leftRootIn]
        exact leftIsRoot
      · rw [node_update_of_ne _ _ different.symm]
        exact rightIsRoot
      · rw [size_update]
        exact leftRootIn
      · rw [size_update]
        exact rightRootIn
    · exact .of_sameClasses both
        (absorbed_absorb both.forest different leftIsRoot rightIsRoot leftRootIn rightRootIn)

theorem mem_waiting {pending : List (TypeId × TypeId)} {pair : TypeId × TypeId} :
    pair ∈ waiting pending left right ↔ pair ∈ pending ∨ (pair = (left, right) ∧ left ≠ right) := by
  unfold waiting
  by_cases same : left = right
  · simp [same]
  · simp only [if_neg same, mem_cons]
    constructor
    · rintro (rfl | old)
      · exact .inr ⟨rfl, same⟩
      · exact .inl old
    · rintro (old | ⟨rfl, _⟩)
      · exact .inr old
      · exact .inl rfl

/-- What joining properties keeps, adds and lets wait. -/
structure Joined (pending : List (TypeId × TypeId)) (properties added : List (Text × TypeId))
    (joined : List (Text × TypeId) × List (TypeId × TypeId)) : Prop where
  waits : ∀ pair ∈ pending, pair ∈ joined.2
  kept : ∀ name target, properties.lookup name = some target → joined.1.lookup name = some target
  covered : ∀ name target, (name, target) ∈ added → ∃ target', joined.1.lookup name = some target' ∧
      (target' = target ∨ (target', target) ∈ joined.2)
  origin : ∀ entry ∈ joined.1, entry ∈ properties ∨ entry ∈ added
  cause : ∀ pair ∈ joined.2, pair ∈ pending ∨
    ∃ name, ((name, pair.1) ∈ properties ∨ (name, pair.1) ∈ added) ∧ (name, pair.2) ∈ added
  length : joined.1.length + joined.2.length ≤ properties.length + pending.length + added.length

theorem mem_of_lookup {Key Value : Type} [BEq Key] [LawfulBEq Key] {entries : List (Key × Value)}
    {key : Key} {value : Value} (found : entries.lookup key = some value) :
    (key, value) ∈ entries := by
  obtain ⟨before, after, rfl, _⟩ := lookup_eq_some_iff.mp found
  simp

theorem joined_mergeProperties (pending : List (TypeId × TypeId))
    (properties added : List (Text × TypeId)) :
    Joined pending properties added (mergeProperties pending properties added) := by
  induction added generalizing pending properties with
  | nil =>
    refine ⟨?_, ?_, ?_, ?_, ?_, ?_⟩
    · exact fun _ member => member
    · exact fun _ _ found => found
    · exact fun _ _ member => by cases member
    · exact fun _ member => .inl member
    · exact fun _ member => .inl member
    · simp [mergeProperties]
  | cons entry rest ih =>
    obtain ⟨name, target⟩ := entry
    simp only [mergeProperties]
    split
    · rename_i existing found
      have later := ih (waiting pending existing target) properties
      refine ⟨?_, later.kept, ?_, ?_, ?_, ?_⟩
      · intro pair member
        exact later.waits pair (mem_waiting.mpr (.inl member))
      · intro other other' member
        rcases mem_cons.mp member with first | behind
        · cases first
          refine ⟨existing, later.kept name existing found, ?_⟩
          by_cases same : existing = target
          · exact .inl same
          · exact .inr (later.waits _ (mem_waiting.mpr (.inr ⟨rfl, same⟩)))
        · exact later.covered other other' behind
      · intro entry member
        rcases later.origin entry member with old | behind
        · exact .inl old
        · exact .inr (mem_cons_of_mem _ behind)
      · intro pair member
        rcases later.cause pair member with waiting | ⟨shared, first, second⟩
        · rcases mem_waiting.mp waiting with old | ⟨rfl, _⟩
          · exact .inl old
          · exact .inr ⟨name, .inl (mem_of_lookup found), mem_cons_self⟩
        · exact .inr ⟨shared, first.imp_right (mem_cons_of_mem _), mem_cons_of_mem _ second⟩
      · have bound := later.length
        have oneMore : (waiting pending existing target).length ≤ pending.length + 1 := by
          unfold waiting
          split <;> simp
        simp only [length_cons]
        omega
    · rename_i missing
      have later := ih pending (properties ++ [(name, target)])
      refine ⟨later.waits, ?_, ?_, ?_, ?_, ?_⟩
      · intro other other' found
        exact later.kept other other' (by rw [lookup_append, found, Option.some_or])
      · intro other other' member
        rcases mem_cons.mp member with first | behind
        · cases first
          refine ⟨target, later.kept name target ?_, .inl rfl⟩
          rw [lookup_append, missing, Option.none_or]
          simp
        · exact later.covered other other' behind
      · intro entry member
        rcases later.origin entry member with old | behind
        · rcases mem_append.mp old with older | new
          · exact .inl older
          · rw [mem_singleton] at new
            exact .inr (by rw [new]; exact mem_cons_self)
        · exact .inr (mem_cons_of_mem _ behind)
      · intro pair member
        rcases later.cause pair member with old | ⟨shared, first, second⟩
        · exact .inl old
        · refine .inr ⟨shared, ?_, mem_cons_of_mem _ second⟩
          rcases first with known | behind
          · rcases mem_append.mp known with older | new
            · exact .inl older
            · rw [mem_singleton] at new
              exact .inr (by rw [new]; exact mem_cons_self)
          · exact .inr (mem_cons_of_mem _ behind)
      · have bound := later.length
        simp only [length_append, length_cons, length_nil] at bound ⊢
        omega

theorem foldl_properties (nodes : List TypeNode) :
    nodes.foldl (fun count node => count + node.properties.length) 0 =
      ∑ id ∈ Finset.range nodes.length,
        (nodes[id]?.getD { parent := id } : TypeNode).properties.length := by
  induction nodes using List.reverseRecOn with
  | nil => rfl
  | append_singleton nodes last ih =>
    rw [foldl_append, ih, length_append, length_singleton, Finset.sum_range_succ]
    have old : ∑ id ∈ Finset.range nodes.length,
        ((nodes ++ [last])[id]?.getD { parent := id } : TypeNode).properties.length =
        ∑ id ∈ Finset.range nodes.length,
          (nodes[id]?.getD { parent := id } : TypeNode).properties.length := by
      refine Finset.sum_congr rfl fun id member => ?_
      rw [List.getElem?_append_left (Finset.mem_range.mp member)]
    rw [old]
    simp

theorem propertyCount_eq_sum (graph : TypeGraph) :
    graph.propertyCount = ∑ id ∈ Finset.range graph.size, (graph.node id).properties.length := by
  have listed := foldl_properties graph.nodes.toList
  rw [Array.foldl_toList, Array.length_toList] at listed
  simp only [Array.getElem?_toList] at listed
  exact listed

/-- The number of waiting pairs and properties: each pair that starts to wait costs a property. -/
def workload (graph : TypeGraph) : Nat :=
  graph.pending.length + graph.propertyCount

theorem workload_of_sameClasses (same : graph.SameClasses other) :
    other.workload = graph.workload := by
  simp only [workload, propertyCount_eq_sum, same.pending, same.size, same.properties]

theorem workload_of_absorbed (different : kept ≠ absorbed) (keptIn : kept < graph.size)
    (absorbedIn : absorbed < graph.size) (step : graph.Absorbed other kept absorbed) :
    other.workload ≤ graph.workload := by
  have joined := joined_mergeProperties graph.pending (graph.node kept).properties
    (graph.node absorbed).properties
  rw [← step.merged] at joined
  have keptMember : kept ∈ Finset.range graph.size := Finset.mem_range.mpr keptIn
  have absorbedMember : absorbed ∈ (Finset.range graph.size).erase kept :=
    Finset.mem_erase.mpr ⟨different.symm, Finset.mem_range.mpr absorbedIn⟩
  have split (count : Nat → Nat) : ∑ id ∈ Finset.range graph.size, count id =
      count kept + (count absorbed +
        ∑ id ∈ ((Finset.range graph.size).erase kept).erase absorbed, count id) := by
    rw [Finset.add_sum_erase _ _ absorbedMember, Finset.add_sum_erase _ _ keptMember]
  have others : ∑ id ∈ ((Finset.range graph.size).erase kept).erase absorbed,
      (other.node id).properties.length =
      ∑ id ∈ ((Finset.range graph.size).erase kept).erase absorbed,
        (graph.node id).properties.length := by
    refine Finset.sum_congr rfl fun id member => ?_
    obtain ⟨notAbsorbed, rest⟩ := Finset.mem_erase.mp member
    rw [step.properties id (Finset.mem_erase.mp rest).1 notAbsorbed]
  have nothing : (other.node absorbed).properties.length = 0 := by
    rw [step.cleared]
    rfl
  have bound := joined.length
  simp only [workload, propertyCount_eq_sum, step.size, split, others, nothing] at bound ⊢
  omega

theorem workload_unify (forest : graph.Forest) (leftIn : left < graph.size)
    (rightIn : right < graph.size) :
    (graph.unify left right).workload ≤ graph.workload := by
  by_cases same : graph.root left = graph.root right
  · exact Nat.le_of_eq (workload_of_sameClasses (unify_of_same forest same))
  · have leftRootIn := forest.root_lt leftIn
    have rightRootIn := forest.root_lt rightIn
    rcases unify_of_different forest leftIn rightIn same with step | step
    · exact workload_of_absorbed same leftRootIn rightRootIn step
    · exact workload_of_absorbed (Ne.symm same) rightRootIn leftRootIn step

end Namesake.TypeGraph
