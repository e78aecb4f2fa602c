import Namesake.Inference
import Namesake.Proofs.TypeGraph.Closure
import Namesake.Proofs.TypeGraph.Growth

/-!
Waiting changes neither classes nor namespaces, so which receivers are to be unified with their
objects is decided before any of them is.
-/

namespace Namesake.TypeGraph

open List

variable {graph later : TypeGraph} {history recorded : History} {pairs : List (TypeId × TypeId)}
  {left right : TypeId}

def isNamespaceAt (graph : TypeGraph) (id : TypeId) : Bool :=
  (graph.node (graph.root id)).isNamespace

def settled (graph : TypeGraph) (methods : List (TypeId × TypeId)) : List (TypeId × TypeId) :=
  methods.filter fun pair => !graph.isNamespaceAt pair.1 && !graph.isNamespaceAt pair.2

/-- The least equivalence of types that holds within the classes of a graph and for some pairs, and
under which equal types have equal properties. -/
inductive Congruent (graph : TypeGraph) (pairs : List (TypeId × TypeId)) :
    TypeId → TypeId → Prop where
  | sameClass {left right : TypeId} : graph.root left = graph.root right →
      Congruent graph pairs left right
  | paired {left right : TypeId} : (left, right) ∈ pairs → Congruent graph pairs left right
  | symm {left right : TypeId} : Congruent graph pairs left right → Congruent graph pairs right left
  | trans {left middle right : TypeId} : Congruent graph pairs left middle →
      Congruent graph pairs middle right → Congruent graph pairs left right
  | property {left right target target' : TypeId} {name : Text} : Congruent graph pairs left right →
      (graph.node (graph.root left)).properties.lookup name = some target →
      (graph.node (graph.root right)).properties.lookup name = some target' →
      Congruent graph pairs target target'

theorem Congruent.mono {more : List (TypeId × TypeId)} (subset : pairs ⊆ more)
    (congruent : graph.Congruent pairs left right) : graph.Congruent more left right := by
  induction congruent with
  | sameClass same => exact .sameClass same
  | paired member => exact .paired (subset member)
  | symm _ ih => exact ih.symm
  | trans _ _ first second => exact first.trans second
  | property _ found found' ih => exact .property ih found found'

/-- A graph in which some pairs wait that did not wait before, and nothing else has changed. -/
structure Queued (graph : TypeGraph) (history : History) (pairs : List (TypeId × TypeId))
    (later : TypeGraph) (recorded : History) : Prop where
  run : Run recorded later
  earlier : history <:+ recorded
  size : later.size = graph.size
  root : ∀ id, later.root id = graph.root id
  isNamespace : ∀ id, later.isNamespaceAt id = graph.isNamespaceAt id
  waits : ∀ pair ∈ pairs, Related recorded pair.1 pair.2
  unified : ∀ left right, (.unify left right, none) ∈ recorded → (.unify left right, none) ∈ history
  deferred : ∀ left right, (.unifyLater left right, none) ∈ recorded →
    (.unifyLater left right, none) ∈ history ∨ graph.Congruent pairs left right
  answered : ∀ id name answer, (.property id name, some answer) ∈ recorded →
    (.property id name, some answer) ∈ history
  marked : ∀ id, (.markNamespace id, none) ∈ recorded → (.markNamespace id, none) ∈ history

namespace Queued

theorem refl (run : Run history graph) : graph.Queued history [] graph history where
  run := run
  earlier := suffix_refl _
  size := rfl
  root _ := rfl
  isNamespace _ := rfl
  waits := by simp
  unified _ _ member := member
  deferred _ _ member := .inl member
  answered _ _ _ member := member
  marked _ member := member

theorem representative (queued : graph.Queued history pairs later recorded) {id : TypeId}
    (inside : id < later.size) :
    ∃ recorded', graph.Queued history pairs (later.representative id).2 recorded' := by
  have forest := (tracks_of_run queued.run).forest
  have same := (shortened_representative forest id).sameClasses forest
  refine ⟨(.representative id, some (later.representative id).1) :: recorded, ?_⟩
  exact {
    run := queued.run.step (.representative id) (by simpa [Operation.operands] using inside)
    earlier := queued.earlier.trans (suffix_cons _ _)
    size := same.size.trans queued.size
    root := fun id => (same.root id).trans (queued.root id)
    isNamespace := fun id => by
      rw [← queued.isNamespace id, isNamespaceAt, isNamespaceAt, same.root, same.isNamespace]
    waits := fun pair member => (queued.waits pair member).mono _
    unified := fun left right member => queued.unified left right (by simpa using member)
    deferred := fun left right member => queued.deferred left right (by simpa using member)
    answered := fun id name answer member => queued.answered id name answer (by simpa using member)
    marked := fun id member => queued.marked id (by simpa using member) }

theorem unifyLater (queued : graph.Queued history pairs later recorded)
    (leftIn : left < later.size) (rightIn : right < later.size) :
    ∃ recorded', graph.Queued history (pairs ++ [(left, right)])
      (later.unifyLater (later.root left) (later.root right)) recorded' := by
  have tracks := tracks_of_run queued.run
  have operands : ∀ id ∈ (Operation.unifyLater (later.root left) (later.root right)).operands,
      id < later.size := by
    simp only [Operation.operands, forall_mem_cons]
    exact ⟨tracks.forest.root_lt leftIn, tracks.forest.root_lt rightIn, by simp⟩
  have unchanged := root_setPending tracks.forest
    (waiting later.pending (later.root left) (later.root right))
  refine ⟨(.unifyLater (later.root left) (later.root right), none) :: recorded, ?_⟩
  exact {
    run := queued.run.step _ operands
    earlier := queued.earlier.trans (suffix_cons _ _)
    size := queued.size
    root := fun id => (unchanged id).trans (queued.root id)
    isNamespace := fun id => by
      rw [← queued.isNamespace id, isNamespaceAt, isNamespaceAt]
      exact congrArg (fun root => (later.node root).isNamespace) (unchanged id)
    waits := fun pair member => by
      rcases mem_append.1 member with old | new
      · exact (queued.waits pair old).mono _
      · obtain rfl := mem_singleton.1 new
        have roots := Related.deferred (mem_cons_self :
          (.unifyLater (later.root left) (later.root right), none) ∈
            ((.unifyLater (later.root left) (later.root right), none) :: recorded : History))
        exact ((tracks.rootRelated left).mono _).trans
          (roots.trans ((tracks.rootRelated right).mono _).symm)
    unified := fun left right member => queued.unified left right (by simpa using member)
    deferred := fun first second member => by
      rcases mem_cons.1 member with new | old
      · cases new
        have paired : graph.Congruent (pairs ++ [(left, right)]) left right := .paired (by simp)
        have toRoot (id : TypeId) : graph.Congruent (pairs ++ [(left, right)]) (later.root id) id :=
          .sameClass (by rw [← queued.root, ← queued.root, tracks.forest.root_root])
        exact .inr ((toRoot left).trans (paired.trans (toRoot right).symm))
      · exact (queued.deferred first second old).imp_right (Congruent.mono (subset_append_left _ _))
    answered := fun id name answer member => queued.answered id name answer (by simpa using member)
    marked := fun id member => queued.marked id (by simpa using member) }

theorem queueReceivers (queued : graph.Queued history pairs later recorded)
    {methods : List (TypeId × TypeId)}
    (inside : ∀ pair ∈ methods, pair.1 < graph.size ∧ pair.2 < graph.size) (unified : Nat) :
    (later.queueReceivers methods unified).1 = unified + (graph.settled methods).length ∧
      ∃ recorded', graph.Queued history (pairs ++ graph.settled methods)
        (later.queueReceivers methods unified).2 recorded' := by
  induction methods generalizing later recorded pairs unified with
  | nil =>
    refine ⟨rfl, recorded, ?_⟩
    rw [settled, filter_nil, append_nil]
    exact queued
  | cons pair rest ih =>
    obtain ⟨base, receiver⟩ := pair
    obtain ⟨⟨baseIn, receiverIn⟩, restIn⟩ := forall_mem_cons.1 inside
    obtain ⟨_, first⟩ := queued.representative (Nat.lt_of_lt_of_eq baseIn queued.size.symm)
    obtain ⟨_, second⟩ := first.representative (Nat.lt_of_lt_of_eq receiverIn first.size.symm)
    generalize middleEq :
      ((later.representative base).2.representative receiver).2 = middle at second
    have baseRoot : (later.representative base).1 = middle.root base :=
      (queued.root base).trans (second.root base).symm
    have receiverRoot : ((later.representative base).2.representative receiver).1 =
        middle.root receiver := (first.root receiver).trans (second.root receiver).symm
    -- Both types are looked at in a graph that has the namespaces of the first one.
    have flag (id : TypeId) : (middle.node (middle.root id)).isNamespace =
        graph.isNamespaceAt id := second.isNamespace id
    unfold TypeGraph.queueReceivers
    dsimp only
    rw [middleEq, baseRoot, receiverRoot, flag, flag, settled, filter_cons]
    dsimp only
    rw [← Bool.not_or]
    cases graph.isNamespaceAt base || graph.isNamespaceAt receiver with
    | true => exact ih second restIn unified
    | false =>
      obtain ⟨_, third⟩ := second.unifyLater (Nat.lt_of_lt_of_eq baseIn second.size.symm)
        (Nat.lt_of_lt_of_eq receiverIn second.size.symm)
      obtain ⟨count, recorded', last⟩ := ih third restIn (unified + 1)
      refine ⟨count.trans ?_, recorded', ?_⟩
      · exact Nat.add_right_comm unified 1 (graph.settled rest).length
      · rw [append_assoc] at last
        exact last

/-- Once the waiting pairs are unified, the classes are those of the congruence that they
generate. -/
theorem related_iff (queued : graph.Queued history pairs later recorded)
    (run : Run history graph) (none : graph.pending = []) (left right : TypeId) :
    Related recorded left right ↔ graph.Congruent pairs left right := by
  have tracks := tracks_of_run run
  have classes {left right : TypeId} (related : Related history left right) :
      graph.Congruent pairs left right :=
    .sameClass (tracks.root_eq_of_related none related)
  constructor
  · intro related
    induction related with
    | refl id => exact .sameClass rfl
    | symm _ ih => exact ih.symm
    | trans _ _ first second => exact first.trans second
    | unified member => exact classes (.unified (queued.unified _ _ member))
    | deferred member =>
      exact (queued.deferred _ _ member).elim (fun old => classes (.deferred old)) id
    | property _ member member' ih =>
      -- No property was asked for since, so the completed graph has both answers.
      obtain ⟨target, found, linked⟩ := tracks.answered _ _ _ (queued.answered _ _ _ member)
      obtain ⟨target', found', linked'⟩ := tracks.answered _ _ _ (queued.answered _ _ _ member')
      have first : graph.Congruent pairs _ target := .sameClass (linked.root_eq none)
      have second : graph.Congruent pairs _ target' := .sameClass (linked'.root_eq none)
      exact first.trans ((Congruent.property ih found found').trans second.symm)
  · intro congruent
    have earlier {left right : TypeId} (related : Related history left right) :
        Related recorded left right := related.of_suffix queued.earlier
    induction congruent with
    | sameClass same => exact earlier ((tracks.root_eq_iff_related none _ _).1 same)
    | paired member => exact queued.waits _ member
    | symm _ ih => exact ih.symm
    | trans _ _ first second => exact first.trans second
    | property _ found found' ih =>
      obtain ⟨asked, answer, member, owner, same⟩ :=
        tracks.propertyRelated _ _ _ (mem_of_lookup found)
      obtain ⟨asked', answer', member', owner', same'⟩ :=
        tracks.propertyRelated _ _ _ (mem_of_lookup found')
      have toRoot (id : TypeId) := tracks.rootRelated id
      have owners := (earlier (owner.trans (toRoot _).symm)).trans
        (ih.trans (earlier ((toRoot _).trans owner'.symm)))
      have answers := Related.property owners (queued.earlier.subset member)
        (queued.earlier.subset member')
      exact (earlier same).symm.trans (answers.trans (earlier same'))

end Queued

end Namesake.TypeGraph
