import Mathlib.Algebra.Ring.Parity
import Namesake.Proofs.TypeGraph.Tracking

/-!
The types of the waiting pairs form a queue.  The loop that drains it pops two types and unifies
them, which may push others.  Each pair that it pushes costs a class that is absorbed a property, so
the loop ends.
-/

namespace Namesake.TypeGraph

open List

variable {history : History} {graph final final' : TypeGraph} {steps steps' : Nat}

/-- The types that wait, in the order in which they are popped. -/
def queue (graph : TypeGraph) : List TypeId :=
  graph.pending.flatMap fun pair => [pair.2, pair.1]

/-- The runs of the loop that pops two types and unifies them as long as the queue is not empty, with
the number of rounds.  No run goes on from a queue with a single type. -/
inductive Drains : TypeGraph → Nat → TypeGraph → Prop where
  | done {graph : TypeGraph} : graph.queue = [] → Drains graph 0 graph
  | round {graph popped final : TypeGraph} {first second : TypeId} {steps : Nat} :
      graph.queue = first :: second :: popped.queue → popped.nodes = graph.nodes →
      Drains (popped.unify first second) steps final → Drains graph (steps + 1) final

theorem pending_eq_of_queue_eq {first second : List (TypeId × TypeId)}
    (same : (first.flatMap fun pair => [pair.2, pair.1]) =
      second.flatMap fun pair => [pair.2, pair.1]) : first = second := by
  induction first generalizing second with
  | nil =>
    cases second with
    | nil => rfl
    | cons => cases same
  | cons pair rest ih =>
    cases second with
    | nil => cases same
    | cons other others =>
      simp only [flatMap_cons, cons_append, nil_append, List.cons.injEq] at same
      rw [Prod.ext same.2.1 same.1, ih same.2.2]

theorem Drains.unique (drains : Drains graph steps final) (drains' : Drains graph steps' final') :
    steps = steps' ∧ final = final' := by
  induction drains generalizing steps' with
  | done none =>
    cases drains' with
    | done => exact ⟨rfl, rfl⟩
    | round pops => cases none.symm.trans pops
  | @round graph popped _ _ _ _ pops nodes _ ih =>
    cases drains' with
    | done none => cases none.symm.trans pops
    | @round _ popped' _ _ _ _ pops' nodes' drains' =>
      obtain ⟨rfl, rfl, queueEq⟩ : _ ∧ _ ∧ _ := by simpa using pops.symm.trans pops'
      obtain rfl : popped = popped' := by
        obtain ⟨_, _⟩ := popped
        obtain ⟨_, _⟩ := popped'
        exact congrArg₂ _ (nodes.trans nodes'.symm) (pending_eq_of_queue_eq queueEq)
      obtain ⟨rfl, rfl⟩ := ih drains'
      exact ⟨rfl, rfl⟩

end Namesake.TypeGraph
