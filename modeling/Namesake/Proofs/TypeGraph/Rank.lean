import Mathlib.Data.Nat.Log
import Namesake.Proofs.TypeGraph.Growth

/-!
No path into a root is longer than the rank of the root, and a class has at least two to the
power of that rank members.
-/

namespace Namesake.TypeGraph

variable {history : History} {graph other : TypeGraph} {id kept absorbed left right : TypeId}
  {change : TypeNode → TypeNode}

def members (graph : TypeGraph) (root : TypeId) : Finset TypeId :=
  {id ∈ Finset.range graph.size | graph.root id = root}

theorem mem_members {root : TypeId} :
    id ∈ graph.members root ↔ id < graph.size ∧ graph.root id = root := by
  rw [members, Finset.mem_filter, Finset.mem_range]

/-- A forest in which the ranks of the roots bound the paths from above and the classes from below. -/
structure Ranked (graph : TypeGraph) : Prop where
  forest : graph.Forest
  depth : ∀ {steps id root}, graph.Path steps id root → steps ≤ (graph.node root).rank
  weight : ∀ id, id < graph.size →
    2 ^ (graph.node (graph.root id)).rank ≤ (graph.members (graph.root id)).card

namespace Ranked

theorem start : empty.Ranked where
  forest := forest_empty
  depth := by
    intro steps id root path
    have isRoot : (empty.node id).parent = id := by rw [node_of_size_le empty (Nat.zero_le id)]
    obtain ⟨rfl, _⟩ := path.unique (.here isRoot)
    exact Nat.zero_le _
  weight := by
    intro id inside
    cases inside

theorem carry (ranked : graph.Ranked) (forest : other.Forest) (grown : graph.size ≤ other.size)
    (roots : ∀ id, other.root id = graph.root id)
    (ranks : ∀ id, (other.node id).rank = (graph.node id).rank)
    (paths : ∀ {steps id root}, graph.Path steps id root →
      ∃ steps', steps' ≤ steps ∧ other.Path steps' id root) : other.Ranked where
  forest := forest
  depth := by
    intro steps id root path
    obtain ⟨length, root', old⟩ := ranked.forest.path id
    obtain ⟨length', atMost, new⟩ := paths old
    obtain ⟨rfl, rfl⟩ := path.unique new
    rw [ranks]
    exact Nat.le_trans atMost (ranked.depth old)
  weight := by
    intro id inside
    rw [ranks, roots]
    rcases Nat.lt_or_ge id graph.size with old | new
    · refine Nat.le_trans (ranked.weight id old) (Finset.card_le_card fun member within => ?_)
      obtain ⟨memberIn, memberRoot⟩ := mem_members.mp within
      exact mem_members.mpr ⟨Nat.lt_of_lt_of_le memberIn grown, (roots member).trans memberRoot⟩
    · -- A node that is new is alone in its class.
      have alone : id ∈ other.members id :=
        mem_members.mpr ⟨inside, (roots id).trans (ranked.forest.root_of_size_le new)⟩
      rw [ranked.forest.root_of_size_le new, node_of_size_le graph new]
      exact Finset.card_pos.mpr ⟨id, alone⟩

theorem newNode (ranked : graph.Ranked) : graph.newNode.2.Ranked :=
  ranked.carry (forest_newNode ranked.forest) (by rw [size_newNode]; exact Nat.le_succ _)
    (root_newNode ranked.forest) (fun id => by rw [node_newNode])
    fun path => ⟨_, Nat.le_refl _, path.congr fun id => by rw [node_newNode]⟩

theorem shortened (ranked : graph.Ranked) (shortened : graph.Shortened other) : other.Ranked :=
  ranked.carry (shortened.forest ranked.forest) (Nat.le_of_eq shortened.size.symm)
    (shortened.root ranked.forest) (fun id => by rw [shortened.node id]) shortened.path

theorem representative (ranked : graph.Ranked) (id : TypeId) : (graph.representative id).2.Ranked :=
  ranked.shortened (shortened_representative ranked.forest id)

theorem setPending (ranked : graph.Ranked) (pending : List (TypeId × TypeId)) :
    ({ graph with pending } : TypeGraph).Ranked := by
  refine ranked.carry (forest_setPending ranked.forest pending) (Nat.le_refl _)
    (root_setPending ranked.forest pending) (fun _ => rfl) fun path => ⟨_, Nat.le_refl _, ?_⟩
  exact Path.congr (fun id => by rw [node_setPending]) path

theorem update (ranked : graph.Ranked) (isRoot : (graph.node id).parent = id)
    (keeps : ∀ node, (change node).parent = node.parent ∧ (change node).rank = node.rank) :
    (graph.update id change).Ranked := by
  have parents := fun node => (keeps node).1
  exact ranked.carry (forest_update ranked.forest isRoot parents)
    (Nat.le_of_eq (size_update ..).symm) (root_update ranked.forest isRoot parents)
    (read_update graph TypeNode.rank id fun node => (keeps node).2)
    fun path => ⟨_, Nat.le_refl _, path.congr (read_update graph TypeNode.parent id parents)⟩

theorem markNamespace (ranked : graph.Ranked) (id : TypeId) : (graph.markNamespace id).Ranked := by
  have first := shortened_representative ranked.forest id
  exact (ranked.representative id).update
    ((first.parent_iff _).mpr (ranked.forest.parent_root id)) fun _ => ⟨rfl, rfl⟩

theorem property (ranked : graph.Ranked) (id : TypeId) (name : Text) :
    (graph.property id name).2.Ranked := by
  have first := shortened_representative ranked.forest id
  have isRoot : ((graph.representative id).2.newNode.2.node (graph.root id)).parent =
      graph.root id := by
    rw [node_newNode]
    exact (first.parent_iff _).mpr (ranked.forest.parent_root id)
  simp only [TypeGraph.property]
  split
  · exact (ranked.representative id).representative _
  · refine Ranked.representative ?_ _
    exact (ranked.representative id).newNode.update isRoot fun _ => ⟨rfl, rfl⟩

theorem read_absorb {β : Type} (read : TypeNode → β)
    (keeps : ∀ node properties isNamespace,
      read { node with properties, isNamespace } = read node) (unequal : id ≠ absorbed) :
    read ((graph.absorb kept absorbed).node id) = read (graph.node id) := by
  simp only [absorb, node_setPending]
  rw [node_update_of_ne _ _ unequal]
  exact read_update graph read kept (fun node => keeps node _ _) id

/-- One class takes in another.  The weight of the class that stays is not asked for, because its
rank may have been raised just before. -/
theorem absorb (forest : graph.Forest)
    (depth : ∀ {steps id root}, graph.Path steps id root → steps ≤ (graph.node root).rank)
    (weight : ∀ id, id < graph.size → graph.root id ≠ kept →
      2 ^ (graph.node (graph.root id)).rank ≤ (graph.members (graph.root id)).card)
    (joint : 2 ^ (graph.node kept).rank ≤ (graph.members kept).card + (graph.members absorbed).card)
    (lower : ∀ {steps id}, graph.Path steps id absorbed → steps < (graph.node kept).rank)
    (different : kept ≠ absorbed) (keptIsRoot : (graph.node kept).parent = kept)
    (absorbedIsRoot : (graph.node absorbed).parent = absorbed) (keptIn : kept < graph.size)
    (absorbedIn : absorbed < graph.size) : (graph.absorb kept absorbed).Ranked := by
  have step := absorbed_absorb forest different keptIsRoot absorbedIsRoot keptIn absorbedIn
  have rank (id : TypeId) (unequal : id ≠ absorbed) :
      ((graph.absorb kept absorbed).node id).rank = (graph.node id).rank :=
    read_absorb TypeNode.rank (fun _ _ _ => rfl) unequal
  have parent (id : TypeId) (unequal : id ≠ absorbed) :
      ((graph.absorb kept absorbed).node id).parent = (graph.node id).parent :=
    read_absorb TypeNode.parent (fun _ _ _ => rfl) unequal
  have linked : ((graph.absorb kept absorbed).node absorbed).parent = kept := by rw [step.cleared]
  refine ⟨step.forest, ?_, ?_⟩
  · intro steps id root path
    obtain ⟨length, old⟩ := forest.path_root id
    have new := path_of_linked different keptIsRoot absorbedIsRoot linked parent old
    obtain ⟨rfl, rfl⟩ := path.unique new
    by_cases moved : graph.root id = absorbed
    · rw [if_pos moved, if_pos moved, rank kept different]
      rw [moved] at old
      exact lower old
    · rw [if_neg moved, if_neg moved, rank _ moved]
      exact depth old
  · intro id inside
    rw [step.size] at inside
    have others (root : TypeId) (notAbsorbed : root ≠ absorbed) :
        graph.members root ⊆ (graph.absorb kept absorbed).members root := by
      intro member within
      obtain ⟨memberIn, rfl⟩ := mem_members.mp within
      exact mem_members.mpr ⟨by rw [step.size]; exact memberIn,
        by rw [step.root, if_neg notAbsorbed]⟩
    have taken : graph.members absorbed ⊆ (graph.absorb kept absorbed).members kept := by
      intro member within
      obtain ⟨memberIn, memberRoot⟩ := mem_members.mp within
      exact mem_members.mpr ⟨by rw [step.size]; exact memberIn,
        by rw [step.root, if_pos memberRoot]⟩
    have apart : Disjoint (graph.members kept) (graph.members absorbed) := by
      refine Finset.disjoint_left.mpr fun member inKept inAbsorbed => different ?_
      exact (mem_members.mp inKept).2.symm.trans (mem_members.mp inAbsorbed).2
    have atKept : 2 ^ ((graph.absorb kept absorbed).node kept).rank ≤
        ((graph.absorb kept absorbed).members kept).card := by
      rw [rank kept different]
      calc 2 ^ (graph.node kept).rank
          ≤ (graph.members kept).card + (graph.members absorbed).card := joint
        _ = (graph.members kept ∪ graph.members absorbed).card :=
            (Finset.card_union_of_disjoint apart).symm
        _ ≤ ((graph.absorb kept absorbed).members kept).card :=
            Finset.card_le_card (Finset.union_subset (others kept different) taken)
    rw [step.root]
    split
    · exact atKept
    · rename_i notAbsorbed
      by_cases isKept : graph.root id = kept
      · rw [isKept]
        exact atKept
      · rw [rank _ notAbsorbed]
        exact Nat.le_trans (weight id inside isKept) (Finset.card_le_card (others _ notAbsorbed))

theorem absorb_lower (ranked : graph.Ranked) (lower : (graph.node absorbed).rank < (graph.node kept).rank)
    (keptIsRoot : (graph.node kept).parent = kept)
    (absorbedIsRoot : (graph.node absorbed).parent = absorbed) (keptIn : kept < graph.size)
    (absorbedIn : absorbed < graph.size) : (graph.absorb kept absorbed).Ranked := by
  have different : kept ≠ absorbed := by
    rintro rfl
    exact Nat.lt_irrefl _ lower
  have heavy := ranked.weight kept keptIn
  rw [ranked.forest.root_of_parent keptIsRoot] at heavy
  exact absorb ranked.forest ranked.depth (fun id inside _ => ranked.weight id inside)
    (Nat.le_add_right_of_le heavy) (fun path => Nat.lt_of_le_of_lt (ranked.depth path) lower)
    different keptIsRoot absorbedIsRoot keptIn absorbedIn

theorem absorb_equal (ranked : graph.Ranked) (equal : (graph.node kept).rank = (graph.node absorbed).rank)
    (different : kept ≠ absorbed) (keptIsRoot : (graph.node kept).parent = kept)
    (absorbedIsRoot : (graph.node absorbed).parent = absorbed) (keptIn : kept < graph.size)
    (absorbedIn : absorbed < graph.size) :
    ((graph.update kept fun node => { node with rank := node.rank + 1 }).absorb kept absorbed).Ranked := by
  have raised := sameClasses_raise ranked.forest keptIsRoot
  have keptHeavy := ranked.weight kept keptIn
  have absorbedHeavy := ranked.weight absorbed absorbedIn
  rw [ranked.forest.root_of_parent keptIsRoot] at keptHeavy
  rw [ranked.forest.root_of_parent absorbedIsRoot, ← equal] at absorbedHeavy
  have keptNode := node_update_self graph kept (fun node => { node with rank := node.rank + 1 }) keptIn
  have others {id : TypeId} (unequal : id ≠ kept) :=
    node_update_of_ne graph (fun node => { node with rank := node.rank + 1 }) unequal
  generalize graph.update kept (fun node => { node with rank := node.rank + 1 }) = middle
    at raised keptNode others
  have parents (id : TypeId) : (middle.node id).parent = (graph.node id).parent := by
    by_cases isKept : id = kept
    · rw [isKept, keptNode]
    · rw [others isKept]
  have members (root : TypeId) : middle.members root = graph.members root := by
    simp only [TypeGraph.members, raised.size, raised.root]
  have old {steps : Nat} {id root : TypeId} (path : middle.Path steps id root) :
      graph.Path steps id root :=
    path.congr fun id => (parents id).symm
  refine absorb raised.forest ?_ ?_ ?_ ?_ different ?_ ?_ ?_ ?_
  · intro steps id root path
    have bound := ranked.depth (old path)
    by_cases isKept : root = kept
    · rw [isKept] at bound ⊢
      rw [keptNode]
      exact Nat.le_succ_of_le bound
    · rw [others isKept]
      exact bound
  · intro id inside notKept
    rw [raised.root] at notKept ⊢
    rw [raised.size] at inside
    rw [others notKept, members]
    exact ranked.weight id inside
  · rw [keptNode, members, members, Nat.pow_succ, Nat.mul_two]
    exact Nat.add_le_add keptHeavy absorbedHeavy
  · intro steps id path
    have bound := ranked.depth (old path)
    rw [keptNode, equal]
    exact Nat.lt_succ_of_le bound
  · rw [parents]
    exact keptIsRoot
  · rw [parents]
    exact absorbedIsRoot
  · rw [raised.size]
    exact keptIn
  · rw [raised.size]
    exact absorbedIn

theorem unify (ranked : graph.Ranked) (leftIn : left < graph.size) (rightIn : right < graph.size) :
    (graph.unify left right).Ranked := by
  have first := shortened_representative ranked.forest left
  have both := sameClasses_both ranked.forest left right
  have rightRoot : ((graph.representative left).2.representative right).1 = graph.root right := by
    rw [representative_fst, first.root ranked.forest]
  have ranked' := (ranked.representative left).representative right
  generalize bothAt : ((graph.representative left).2.representative right).2 = middle at both ranked'
  have pair : (graph.representative left).2.representative right = (graph.root right, middle) := by
    rw [← bothAt, ← rightRoot]
  have isRoot (id : TypeId) : (middle.node (graph.root id)).parent = graph.root id := by
    rw [← both.root id]
    exact both.forest.parent_root id
  have rootIn {id : TypeId} (inside : id < graph.size) : graph.root id < middle.size := by
    rw [both.size]
    exact ranked.forest.root_lt inside
  simp only [TypeGraph.unify, pair, representative_fst]
  split
  · exact ranked'
  · rename_i different
    split
    · rename_i lower
      exact ranked'.absorb_lower lower (isRoot right) (isRoot left) (rootIn rightIn) (rootIn leftIn)
    · rename_i notLower
      split
      · rename_i equal
        exact ranked'.absorb_equal equal different (isRoot left) (isRoot right) (rootIn leftIn)
          (rootIn rightIn)
      · rename_i unequal
        exact ranked'.absorb_lower (by omega) (isRoot left) (isRoot right) (rootIn leftIn)
          (rootIn rightIn)

theorem completeWithin (ranked : graph.Ranked) (steps merged : Nat)
    (tracks : Tracks history [] graph) : (completeWithin steps merged graph).2.Ranked := by
  induction steps generalizing merged graph with
  | zero => exact ranked
  | succ steps ih =>
    simp only [TypeGraph.completeWithin]
    split
    · exact ranked
    · rename_i left right rest pendingEq
      have waits := tracks.pendingIn (left, right) (by simp [pendingEq])
      exact ih ((ranked.setPending rest).unify waits.2 waits.1) (merged + 1)
        (tracks_take tracks pendingEq).1

theorem perform (ranked : graph.Ranked) (tracks : Tracks history [] graph) (operation : Operation)
    (inside : ∀ id ∈ operation.operands, id < graph.size) :
    (graph.perform operation).2.Ranked := by
  cases operation with
  | newNode => exact ranked.newNode
  | representative id => exact ranked.representative id
  | property id name => exact ranked.property id name
  | unify left right =>
    exact ranked.unify (inside left (.head _)) (inside right (.tail _ (.head _)))
  | unifyLater left right => exact ranked.setPending _
  | complete => exact ranked.completeWithin _ 0 tracks
  | markNamespace id => exact ranked.markNamespace id

theorem of_run (run : Run history graph) : graph.Ranked := by
  induction run with
  | start => exact start
  | step operation before inside ih => exact ih.perform (tracks_of_run before) operation inside

theorem rank_le_log (ranked : graph.Ranked) (inside : id < graph.size) :
    (graph.node (graph.root id)).rank ≤ Nat.log 2 graph.size := by
  refine Nat.le_log_of_pow_le Nat.one_lt_two (Nat.le_trans (ranked.weight id inside) ?_)
  have bound := Finset.card_filter_le (Finset.range graph.size) (graph.root · = graph.root id)
  rw [Finset.card_range] at bound
  exact bound

end Ranked

theorem parent_property (forest : graph.Forest) (inside : id < graph.size) (name : Text) :
    ((graph.property id name).2.node (graph.property id name).1).parent =
      (graph.property id name).1 := by
  cases found : (graph.node (graph.root id)).properties.lookup name with
  | none =>
    obtain ⟨answer, extended⟩ := property_of_missing forest inside found
    have isRoot := extended.forest.parent_root graph.size
    rw [extended.root, forest.root_of_size_le (Nat.le_refl _)] at isRoot
    rw [answer]
    exact isRoot
  | some target =>
    obtain ⟨answer, shortened⟩ := property_of_lookup forest found
    rw [answer]
    exact (shortened.parent_iff _).mpr (forest.parent_root target)

/-- After any run the parents of every node lead to its representative, in no more steps than the
rank of the representative, which is at most the logarithm of the number of nodes. -/
theorem balanced_of_run (run : Run history graph) :
    (∀ id, ∃ steps, graph.Path steps id (graph.representative id).1 ∧
      steps ≤ (graph.node (graph.representative id).1).rank ∧ steps ≤ Nat.log 2 graph.size) ∧
    (∀ id, (graph.node id).parent ≠ id → (graph.node id).rank = 0 ∧
      (graph.node id).properties = [] ∧ (graph.node id).isNamespace = false) ∧
    (∀ root, root < graph.size → (graph.node root).parent = root →
      2 ^ (graph.node root).rank ≤ (graph.members root).card) ∧
    (∀ id name, id < graph.size →
      ((graph.property id name).2.node (graph.property id name).1).parent =
        (graph.property id name).1) ∧
    ∀ id, (graph.representative id).2.size = graph.size ∧
      (graph.representative id).2.pending = graph.pending ∧
      ∀ node, (graph.representative id).2.root node = graph.root node ∧
        (graph.representative id).2.node node =
          { graph.node node with parent := ((graph.representative id).2.node node).parent } := by
  have ranked := Ranked.of_run run
  refine ⟨?_, ?_, ?_, fun id name inside => parent_property ranked.forest inside name, ?_⟩
  · intro id
    obtain ⟨steps, path⟩ := ranked.forest.path_root id
    refine ⟨steps, path, ranked.depth path, ?_⟩
    rcases Nat.lt_or_ge id graph.size with inside | outside
    · exact Nat.le_trans (ranked.depth path) (ranked.rank_le_log inside)
    · have isRoot : (graph.node id).parent = id := by rw [node_of_size_le graph outside]
      obtain ⟨rfl, _⟩ := path.unique (.here isRoot)
      exact Nat.zero_le _
  · intro id notRoot
    rw [ranked.forest.cleared id notRoot]
    exact ⟨rfl, rfl, rfl⟩
  · intro root inside isRoot
    have heavy := ranked.weight root inside
    rw [ranked.forest.root_of_parent isRoot] at heavy
    exact heavy
  · intro id
    have shortened := shortened_representative ranked.forest id
    exact ⟨shortened.size, shortened.pending,
      fun node => ⟨shortened.root ranked.forest node, shortened.node node⟩⟩

theorem balanced_of_run_pairs :
    ∃ history graph, Run history graph ∧ graph.size = 4 ∧ (graph.node 0).rank = 2 ∧
      2 ^ 2 ≤ (graph.members 0).card ∧
      ∃ steps, graph.Path steps 3 (graph.representative 3).1 ∧ steps ≤ 2 := by
  have run := Run.start
    |>.step .newNode (by decide)
    |>.step .newNode (by decide)
    |>.step .newNode (by decide)
    |>.step .newNode (by decide)
    |>.step (.unify 0 1) (by decide)
    |>.step (.unify 2 3) (by decide)
    |>.step (.unify 1 3) (by decide)
  obtain ⟨paths, _, weight, _⟩ := balanced_of_run run
  obtain ⟨steps, path, _, short⟩ := paths 3
  exact ⟨_, _, run, by decide, by decide, weight 0 (by decide) (by decide), steps, path,
    Nat.le_trans short (by decide)⟩

end Namesake.TypeGraph
