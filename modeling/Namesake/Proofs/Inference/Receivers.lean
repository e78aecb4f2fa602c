import Namesake.Proofs.Inference.Program
import Namesake.Proofs.TypeGraph.Queue

/-!
The pairs that count are those of which neither type is a namespace in the completed graph, and
what they come to is the congruence that they generate on its classes.
-/

namespace Namesake

open TypeGraph (Run)

/-- Whether inference ends with the congruence that some pairs generate on the classes of a graph,
counts the pairs, and leaves a class a namespace exactly if it holds one of the graph. -/
structure Inference.Settles (inference : Inference) (completed : TypeGraph)
    (pairs : List (TypeId × TypeId)) : Prop where
  receivers : inference.receivers = pairs.length
  classes : ∀ left right, inference.typing.graph.root left = inference.typing.graph.root right ↔
    completed.Congruent pairs left right
  namespaces : ∀ id, inference.typing.graph.isNamespaceAt id = true ↔
    ∃ member, completed.isNamespaceAt member = true ∧ completed.Congruent pairs member id

theorem Inference.Settles.of_perm {inference : Inference} {completed : TypeGraph}
    {pairs others : List (TypeId × TypeId)} (settles : inference.Settles completed pairs)
    (permuted : pairs.Perm others) : inference.Settles completed others := by
  have congruent_iff (left right : TypeId) :
      completed.Congruent pairs left right ↔ completed.Congruent others left right :=
    ⟨.mono permuted.subset, .mono permuted.symm.subset⟩
  refine ⟨settles.receivers.trans permuted.length_eq, fun left right => ?_, fun id => ?_⟩
  · exact (settles.classes left right).trans (congruent_iff left right)
  · simp only [settles.namespaces id, congruent_iff]

namespace Typing

variable {typing : Typing}

theorem settles_resolveReceivers {history : TypeGraph.History} (run : Run history typing.graph)
    (inside : ∀ pair ∈ typing.methods, pair.1 < typing.graph.size ∧ pair.2 < typing.graph.size) :
    typing.resolveReceivers.Settles typing.graph.complete.2
      (typing.graph.complete.2.settled typing.methods) := by
  have tracks := TypeGraph.tracks_of_run run
  have completedRun : Run ((.complete, none) :: history) typing.graph.complete.2 :=
    run.step .complete nofun
  have none := (TypeGraph.tracks_complete tracks).2
  have size : typing.graph.complete.2.size = typing.graph.size :=
    TypeGraph.size_completeWithin _ 0 tracks
  have flagged := TypeGraph.flagged_of_run completedRun
  rw [← size] at inside
  obtain ⟨count, recorded, queued⟩ := (TypeGraph.Queued.refl completedRun).queueReceivers inside 0
  have related := queued.related_iff completedRun none
  generalize completedEq : typing.graph.complete.2 = completed at *
  generalize queueEq : completed.queueReceivers typing.methods 0 = queue at *
  have graphEq : typing.resolveReceivers.typing.graph = queue.2.complete.2 := by
    rw [← queueEq, ← completedEq]
    rfl
  have receiversEq : typing.resolveReceivers.receivers = queue.1 := by
    rw [← queueEq, ← completedEq]
    rfl
  have lastRun : Run ((.complete, Option.none) :: recorded) queue.2.complete.2 :=
    queued.run.step .complete nofun
  obtain ⟨lastTracks, lastNone⟩ := TypeGraph.tracks_complete (TypeGraph.tracks_of_run queued.run)
  have classes (left right : TypeId) :
      queue.2.complete.2.root left = queue.2.complete.2.root right ↔
        completed.Congruent (completed.settled typing.methods) left right :=
    (lastTracks.root_eq_iff_related lastNone left right).trans (related left right)
  refine ⟨?_, ?_, ?_⟩
  · rw [receiversEq, count, Nat.zero_add]
  · rw [graphEq]
    exact classes
  · intro id
    rw [graphEq, TypeGraph.isNamespaceAt, TypeGraph.flagged_of_run lastRun id]
    constructor
    · rintro ⟨member, marked, same⟩
      have before := queued.marked member (by simpa using marked)
      exact ⟨member, (flagged member).2 ⟨member, before, rfl⟩, (classes member id).1 same⟩
    · rintro ⟨member, isNamespace, congruent⟩
      obtain ⟨other, marked, same⟩ := (flagged member).1 isNamespace
      refine ⟨other, List.mem_cons_of_mem _ (queued.earlier.subset marked), ?_⟩
      exact (classes other id).2 ((TypeGraph.Congruent.sameClass same).trans congruent)

end Typing

/-- Settling the receivers does not depend on the order of the methods.  Whatever tree was visited,
in any order the result is the congruence that the pairs generate on the completed graph of which
neither type is a namespace there, and it counts these pairs. -/
theorem resolveReceivers_permuted {root : Node} (shaped : root.Shaped) {typing : Typing}
    (visited : (Infer.visitRoot root.scopes [] root).run Typing.start = .ok ((), typing))
    {methods : List (TypeId × TypeId)} (permuted : methods.Perm typing.methods) :
    let completed := typing.graph.complete.2
    let ordered := typing.resolveReceivers
    let other := ({ typing with methods } : Typing).resolveReceivers
    other.receivers = ordered.receivers ∧
      (∀ left right, other.typing.graph.root left = other.typing.graph.root right ↔
        ordered.typing.graph.root left = ordered.typing.graph.root right) ∧
      (∀ id, other.typing.graph.isNamespaceAt id = ordered.typing.graph.isNamespaceAt id) ∧
      ordered.Settles completed (completed.settled typing.methods) ∧
      other.Settles completed (completed.settled typing.methods) := by
  intro completed ordered other
  obtain ⟨world, visitEq, good, _⟩ := exists_visited shaped
  obtain rfl : typing = world.typing :=
    congrArg Prod.snd (Except.ok.inj (visited.symm.trans visitEq))
  have inside : ∀ pair ∈ world.typing.methods,
      pair.1 < world.typing.graph.size ∧ pair.2 < world.typing.graph.size := by
    intro pair member
    obtain ⟨base, receiver, _, ofBase, ofReceiver⟩ := good.methods pair member
    exact ⟨good.lt_size ofBase, good.lt_size ofReceiver⟩
  have first : ordered.Settles completed (completed.settled world.typing.methods) :=
    Typing.settles_resolveReceivers good.run inside
  have ofMethods : other.Settles completed (completed.settled methods) :=
    Typing.settles_resolveReceivers good.run fun pair member => inside pair (permuted.subset member)
  have second : other.Settles completed (completed.settled world.typing.methods) :=
    ofMethods.of_perm (permuted.filter _)
  refine ⟨second.receivers.trans first.receivers.symm, fun left right => ?_, fun id => ?_,
    first, second⟩
  · exact (second.classes left right).trans (first.classes left right).symm
  · exact Bool.eq_iff_iff.2 ((second.namespaces id).trans (first.namespaces id).symm)

/-- Two methods, of which the second is called on a namespace: in both orders the receiver of the
first is unified with its object, and the receiver of the second is not. -/
theorem resolveReceivers_permuted_namespace :
    ∃ root typing, ((⟨"", "a.b();new c.d"⟩ : SourceFile).parse false).result = .ok root ∧
      (Infer.visitRoot root.scopes [] root).run Typing.start = .ok ((), typing) ∧
      typing.methods.length = 2 ∧ typing.resolveReceivers.receivers = 1 ∧
      ({ typing with methods := typing.methods.reverse } :
        Typing).resolveReceivers.receivers = 1 := by
  have found : ((⟨"", "a.b();new c.d"⟩ : SourceFile).parse false).result.toOption.any (fun root =>
      (((Infer.visitRoot root.scopes [] root).run Typing.start).toOption.any fun visited =>
        visited.2.methods.length = 2 ∧
          (visited.2.graph.complete.2.settled visited.2.methods).length = 1) = true) = true := by
    decide +kernel
  obtain ⟨root, parseEq, parsed, found⟩ := Node.exists_isParsed found
  obtain ⟨world, visitEq, _⟩ := exists_visited parsed.shaped
  have visited : (Infer.visitRoot root.scopes [] root).run Typing.start =
      .ok ((), world.typing) := visitEq
  rw [visited] at found
  obtain ⟨two, one⟩ := of_decide_eq_true found
  obtain ⟨same, _, _, settles, _⟩ := resolveReceivers_permuted parsed.shaped visited
    (List.reverse_perm world.typing.methods)
  have count := settles.receivers.trans one
  exact ⟨root, world.typing, parseEq, visited, two, count, same.trans count⟩

end Namesake
