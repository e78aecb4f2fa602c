import Mathlib.Data.Fintype.Card
import Namesake.TypeGraph

/-!
In a `Forest` every node has a path to a root that is shorter than the graph is large, so the
bounded walks of `root` and `representative` always arrive.
-/

namespace Namesake.TypeGraph

variable {id : TypeId} {graph : TypeGraph}

@[simp] theorem size_update (graph : TypeGraph) (id : TypeId) (change : TypeNode → TypeNode) :
    (graph.update id change).size = graph.size := by
  simp [update, size]

@[simp] theorem pending_update (graph : TypeGraph) (id : TypeId)
    (change : TypeNode → TypeNode) : (graph.update id change).pending = graph.pending :=
  rfl

theorem node_update_self (graph : TypeGraph) (id : TypeId) (change : TypeNode → TypeNode)
    (inRange : id < graph.size) : (graph.update id change).node id = change (graph.node id) := by
  have present : id < graph.nodes.size := inRange
  simp [node, update, Array.getElem_modify_self, present]

theorem node_update_of_ne (graph : TypeGraph) {other : TypeId} (change : TypeNode → TypeNode)
    (different : other ≠ id) :
    (graph.update id change).node other = graph.node other := by
  simp [node, update, Array.getElem?_modify, different.symm]

theorem node_of_size_le (graph : TypeGraph) (outside : graph.size ≤ id) :
    graph.node id = { parent := id } := by
  have missing : graph.nodes.size ≤ id := outside
  simp [node, missing]

@[simp] theorem size_newNode (graph : TypeGraph) : graph.newNode.2.size = graph.size + 1 := by
  simp [newNode, size]

@[simp] theorem pending_newNode (graph : TypeGraph) : graph.newNode.2.pending = graph.pending :=
  rfl

@[simp] theorem node_newNode (graph : TypeGraph) (id : TypeId) :
    graph.newNode.2.node id = graph.node id := by
  by_cases last : id = graph.size
  · subst last
    rw [node_of_size_le graph (Nat.le_refl _)]
    simp [node, newNode, size]
  · have unequal : id ≠ graph.nodes.size := last
    simp [node, newNode, Array.getElem?_push, unequal]

@[simp] theorem size_setPending (graph : TypeGraph) (pending : List (TypeId × TypeId)) :
    ({ graph with pending } : TypeGraph).size = graph.size :=
  rfl

@[simp] theorem node_setPending (graph : TypeGraph) (pending : List (TypeId × TypeId))
    (id : TypeId) : ({ graph with pending } : TypeGraph).node id = graph.node id :=
  rfl

/-- A path of parents with the number of its steps, from a node to the root of its tree. -/
inductive Path (graph : TypeGraph) : Nat → TypeId → TypeId → Prop where
  | here {id : TypeId} : (graph.node id).parent = id → Path graph 0 id id
  | step {steps : Nat} {id root : TypeId} : (graph.node id).parent ≠ id →
      Path graph steps (graph.node id).parent root → Path graph (steps + 1) id root

namespace Path

variable {graph other : TypeGraph} {steps steps' : Nat} {id root root' : TypeId}

theorem parent_root (path : graph.Path steps id root) : (graph.node root).parent = root := by
  induction path with
  | here isRoot => exact isRoot
  | step _ _ ih => exact ih

theorem unique (path : graph.Path steps id root) (path' : graph.Path steps' id root') :
    steps = steps' ∧ root = root' := by
  induction path generalizing steps' with
  | here isRoot =>
    cases path' with
    | here _ => exact ⟨rfl, rfl⟩
    | step notRoot _ => exact absurd isRoot notRoot
  | step notRoot _ ih =>
    cases path' with
    | here isRoot => exact absurd isRoot notRoot
    | step _ rest =>
      obtain ⟨sameSteps, sameRoot⟩ := ih rest
      exact ⟨by rw [sameSteps], sameRoot⟩

theorem congr (same : ∀ id, (other.node id).parent = (graph.node id).parent)
    (path : graph.Path steps id root) : other.Path steps id root := by
  induction path with
  | here isRoot => exact .here ((same _).trans isRoot)
  | @step steps id root notRoot _ ih =>
    rw [← same id] at notRoot ih
    exact .step notRoot ih

theorem rootWithin_eq (path : graph.Path steps id root) {bound : Nat} (enough : steps ≤ bound) :
    graph.rootWithin bound id = root := by
  induction path generalizing bound with
  | here isRoot =>
    cases bound with
    | zero => rfl
    | succ bound => simp [rootWithin, isRoot]
  | step notRoot _ ih =>
    cases bound with
    | zero => omega
    | succ bound =>
      simp only [rootWithin, if_neg notRoot]
      exact ih (by omega)

theorem exists_of_le (inRange : ∀ id, id < graph.size → (graph.node id).parent < graph.size)
    (path : graph.Path steps id root) (inside : id < graph.size) {length : Nat}
    (shorter : length ≤ steps) : ∃ visited, visited < graph.size ∧ graph.Path length visited root := by
  induction path with
  | here isRoot =>
    obtain rfl : length = 0 := by omega
    exact ⟨_, inside, .here isRoot⟩
  | @step steps id root notRoot rest ih =>
    rcases Nat.lt_or_ge steps length with longest | within
    · obtain rfl : length = steps + 1 := by omega
      exact ⟨id, inside, .step notRoot rest⟩
    · exact ih (inRange id inside) within

theorem lt_size (inRange : ∀ id, id < graph.size → (graph.node id).parent < graph.size)
    (path : graph.Path steps id root) (inside : id < graph.size) : steps < graph.size := by
  choose visited within visits using fun length : Fin (steps + 1) =>
    path.exists_of_le inRange inside (Nat.lt_succ_iff.mp length.isLt)
  let place : Fin (steps + 1) → Fin graph.size := fun length => ⟨visited length, within length⟩
  have injective : Function.Injective place := by
    intro left right same
    have sameNode : visited left = visited right := congrArg Fin.val same
    have rightVisit := visits right
    rw [← sameNode] at rightVisit
    exact Fin.ext ((visits left).unique rightVisit).1
  have bounded := Fintype.card_le_of_injective place injective
  simp only [Fintype.card_fin] at bounded
  omega

end Path

/-- A graph in which every node leads to a representative and only representatives hold anything. -/
structure Forest (graph : TypeGraph) : Prop where
  inRange : ∀ id, id < graph.size → (graph.node id).parent < graph.size
  path : ∀ id, ∃ steps root, graph.Path steps id root
  cleared : ∀ id, (graph.node id).parent ≠ id → graph.node id = { parent := (graph.node id).parent }

theorem forest_empty : empty.Forest where
  inRange := by
    intro id inside
    simp [empty, size] at inside
  path := by
    intro id
    exact ⟨0, id, .here (by rw [node_of_size_le empty (Nat.zero_le id)])⟩
  cleared := by
    intro id notRoot
    rw [node_of_size_le empty (Nat.zero_le id)] at notRoot
    exact absurd rfl notRoot

namespace Forest

variable {graph : TypeGraph} (forest : graph.Forest)
variable {id : TypeId}
include forest

theorem root_eq {steps : Nat} {root : TypeId} (path : graph.Path steps id root) :
    graph.root id = root := by
  rcases Nat.lt_or_ge id graph.size with inside | outside
  · exact path.rootWithin_eq (Nat.le_of_lt (path.lt_size forest.inRange inside))
  · have isRoot : (graph.node id).parent = id := by rw [node_of_size_le graph outside]
    obtain ⟨rfl, rfl⟩ := path.unique (.here isRoot)
    exact path.rootWithin_eq (Nat.zero_le _)

theorem path_root (id : TypeId) : ∃ steps, graph.Path steps id (graph.root id) := by
  obtain ⟨steps, root, path⟩ := forest.path id
  rw [forest.root_eq path]
  exact ⟨steps, path⟩

theorem parent_root (id : TypeId) : (graph.node (graph.root id)).parent = graph.root id := by
  obtain ⟨steps, path⟩ := forest.path_root id
  exact path.parent_root

theorem root_of_parent (isRoot : (graph.node id).parent = id) :
    graph.root id = id :=
  forest.root_eq (.here isRoot)

theorem root_root (id : TypeId) : graph.root (graph.root id) = graph.root id :=
  forest.root_of_parent (forest.parent_root id)

theorem root_lt (inside : id < graph.size) : graph.root id < graph.size := by
  obtain ⟨steps, path⟩ := forest.path_root id
  obtain ⟨visited, within, visit⟩ := path.exists_of_le forest.inRange inside (Nat.zero_le steps)
  obtain rfl : visited = graph.root id := by
    cases visit with
    | here _ => rfl
  exact within

theorem root_of_size_le (outside : graph.size ≤ id) : graph.root id = id :=
  forest.root_of_parent (by rw [node_of_size_le graph outside])

end Forest

theorem Forest.root_congr {other : TypeGraph} (forest : graph.Forest) (forest' : other.Forest)
    (same : ∀ id, (other.node id).parent = (graph.node id).parent) (id : TypeId) :
    other.root id = graph.root id := by
  obtain ⟨steps, path⟩ := forest.path_root id
  exact forest'.root_eq (path.congr same)

theorem forest_newNode (forest : graph.Forest) : graph.newNode.2.Forest where
  inRange := by
    intro id inside
    simp only [size_newNode, node_newNode] at inside ⊢
    rcases Nat.lt_or_ge id graph.size with old | new
    · exact Nat.lt_succ_of_lt (forest.inRange id old)
    · rw [node_of_size_le graph new]
      exact inside
  path := by
    intro id
    obtain ⟨steps, root, path⟩ := forest.path id
    exact ⟨steps, root, path.congr fun id => by rw [node_newNode]⟩
  cleared := by
    intro id notRoot
    simp only [node_newNode] at notRoot ⊢
    exact forest.cleared id notRoot

theorem root_newNode (forest : graph.Forest) (id : TypeId) :
    graph.newNode.2.root id = graph.root id :=
  forest.root_congr (forest_newNode forest) (fun id => by rw [node_newNode]) id

theorem forest_setPending (forest : graph.Forest) (pending : List (TypeId × TypeId))
    : ({ graph with pending } : TypeGraph).Forest where
  inRange := forest.inRange
  path := by
    intro id
    obtain ⟨steps, root, path⟩ := forest.path id
    have same (id : TypeId) : (({ graph with pending } : TypeGraph).node id).parent =
        (graph.node id).parent := rfl
    exact ⟨steps, root, path.congr same⟩
  cleared := forest.cleared

theorem root_setPending (forest : graph.Forest) (pending : List (TypeId × TypeId)) (id : TypeId) :
    ({ graph with pending } : TypeGraph).root id = graph.root id :=
  forest.root_congr (forest_setPending forest pending) (fun _ => rfl) id

/-- A graph after some paths were shortened: nothing but parents of nodes that are no roots differs,
and every node still leads to the same root. -/
structure Shortened (graph other : TypeGraph) : Prop where
  size : other.size = graph.size
  pending : other.pending = graph.pending
  node : ∀ id, other.node id = { graph.node id with parent := (other.node id).parent }
  parent_iff : ∀ id, (other.node id).parent = id ↔ (graph.node id).parent = id
  inRange : (∀ id, id < graph.size → (graph.node id).parent < graph.size) →
    ∀ id, id < graph.size → (other.node id).parent < graph.size
  path : ∀ {steps id root}, graph.Path steps id root →
    ∃ steps', steps' ≤ steps ∧ other.Path steps' id root

namespace Shortened

theorem refl (graph : TypeGraph) : graph.Shortened graph where
  size := rfl
  pending := rfl
  node := fun _ => rfl
  parent_iff := fun _ => Iff.rfl
  inRange := fun inRange => inRange
  path := fun path => ⟨_, Nat.le_refl _, path⟩

theorem trans {first second third : TypeGraph} (left : first.Shortened second)
    (right : second.Shortened third) : first.Shortened third where
  size := right.size.trans left.size
  pending := right.pending.trans left.pending
  node := by
    intro id
    rw [right.node id, left.node id]
  parent_iff := fun id => (right.parent_iff id).trans (left.parent_iff id)
  inRange := by
    intro inRange id inside
    have second := right.inRange (by rw [left.size]; exact left.inRange inRange)
    rw [left.size] at second
    exact second id inside
  path := by
    intro steps id root path
    obtain ⟨middle, atMost, shorter⟩ := left.path path
    obtain ⟨least, atMost', shortest⟩ := right.path shorter
    exact ⟨least, Nat.le_trans atMost' atMost, shortest⟩

theorem shortcut {graph : TypeGraph} {steps : Nat} {id root : TypeId}
    (notRoot : (graph.node id).parent ≠ id) (path : graph.Path steps id root) :
    graph.Shortened (graph.update id fun node => { node with parent := root }) := by
  have inside : id < graph.size := by
    by_contra outside
    rw [node_of_size_le graph (Nat.le_of_not_lt outside)] at notRoot
    exact notRoot rfl
  have different : root ≠ id := by
    intro same
    have isRoot := path.parent_root
    rw [same] at isRoot
    exact notRoot isRoot
  have changed := node_update_self graph id (fun node => { node with parent := root }) inside
  have kept {other : TypeId} (unequal : other ≠ id) := node_update_of_ne graph
    (fun node => { node with parent := root }) unequal
  refine ⟨size_update .., pending_update .., ?_, ?_, ?_, ?_⟩
  · intro other
    by_cases same : other = id
    · subst same
      rw [changed]
    · rw [kept same]
  · intro other
    by_cases same : other = id
    · subst same
      rw [changed]
      exact ⟨fun isRoot => absurd isRoot different, fun isRoot => absurd isRoot notRoot⟩
    · rw [kept same]
  · intro inRange other within
    by_cases same : other = id
    · subst same
      rw [changed]
      obtain ⟨visited, visitedIn, visit⟩ := path.exists_of_le inRange within (Nat.zero_le steps)
      cases visit with
      | here _ => exact visitedIn
    · rw [kept same]
      exact inRange other within
  · intro length start goal walk
    induction walk with
    | @here start isRoot =>
      have unequal : start ≠ id := by
        intro same
        rw [same] at isRoot
        exact notRoot isRoot
      exact ⟨0, Nat.le_refl 0, .here (by rw [kept unequal]; exact isRoot)⟩
    | @step length start goal notEnd rest ih =>
      by_cases same : start = id
      · subst same
        obtain ⟨_, rfl⟩ := path.unique (.step notEnd rest)
        have arrived : (graph.update start fun node => { node with parent := root }).Path 0
            root root := .here (by rw [kept different]; exact path.parent_root)
        exact ⟨1, by omega, .step (by rw [changed]; exact different) (by rw [changed]; exact arrived)⟩
      · obtain ⟨shorter, atMost, after⟩ := ih
        refine ⟨shorter + 1, by omega, .step ?_ ?_⟩
        · rw [kept same]
          exact notEnd
        · rw [kept same]
          exact after

end Shortened

theorem shortened_compressWithin {steps : Nat} {root : TypeId} (bound : Nat)
    (path : graph.Path steps id root) : graph.Shortened (compressWithin root bound id graph) := by
  induction bound generalizing steps id graph with
  | zero => exact .refl graph
  | succ bound ih =>
    simp only [compressWithin]
    split
    · exact .refl graph
    · rename_i notLast
      cases path with
      | here isRoot => exact absurd isRoot notLast
      | step notRoot rest =>
        have first := Shortened.shortcut notRoot (.step notRoot rest)
        obtain ⟨_, _, rest'⟩ := first.path rest
        exact first.trans (ih rest')

namespace Shortened

variable {graph other : TypeGraph} (shortened : graph.Shortened other)
include shortened

theorem forest (forest : graph.Forest) : other.Forest where
  inRange := by
    rw [shortened.size]
    exact shortened.inRange forest.inRange
  path := by
    intro id
    obtain ⟨steps, root, path⟩ := forest.path id
    obtain ⟨steps', _, path'⟩ := shortened.path path
    exact ⟨steps', root, path'⟩
  cleared := by
    intro id notRoot
    have old := forest.cleared id (fun isRoot => notRoot ((shortened.parent_iff id).mpr isRoot))
    rw [shortened.node id, old]

theorem root (forest : graph.Forest) (id : TypeId) : other.root id = graph.root id := by
  obtain ⟨steps, path⟩ := forest.path_root id
  obtain ⟨_, _, path'⟩ := shortened.path path
  exact (shortened.forest forest).root_eq path'

theorem properties (id : TypeId) : (other.node id).properties = (graph.node id).properties := by
  rw [shortened.node id]

theorem isNamespace (id : TypeId) :
    (other.node id).isNamespace = (graph.node id).isNamespace := by
  rw [shortened.node id]

end Shortened

theorem shortened_representative (forest : graph.Forest) (id : TypeId) :
    graph.Shortened (graph.representative id).2 := by
  obtain ⟨_, path⟩ := forest.path_root id
  exact shortened_compressWithin graph.size path

theorem representative_fst (graph : TypeGraph) (id : TypeId) :
    (graph.representative id).1 = graph.root id :=
  rfl

end Namesake.TypeGraph
