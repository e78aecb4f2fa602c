import Namesake.Proofs.TypeGraph.Tracking

/-!
No operation takes a node away and none adds more than one, and the operands and answers of all
operations of a run are nodes of the graph that the run leads to.
-/

namespace Namesake.TypeGraph

variable {history : History} {graph : TypeGraph} {left right : TypeId}

theorem size_unify (forest : graph.Forest) (leftIn : left < graph.size)
    (rightIn : right < graph.size) :
    (graph.unify left right).size = graph.size := by
  by_cases same : graph.root left = graph.root right
  · exact (unify_of_same forest same).size
  · rcases unify_of_different forest leftIn rightIn same with step | step
    · exact step.size
    · exact step.size

theorem size_completeWithin (steps merged : Nat) (tracks : Tracks history [] graph) :
    (completeWithin steps merged graph).2.size = graph.size := by
  induction steps generalizing merged graph with
  | zero => rfl
  | succ steps ih =>
    simp only [completeWithin]
    split
    · rfl
    · rename_i left right rest pendingEq
      have waits := tracks.pendingIn (left, right) (by simp [pendingEq])
      rw [ih (merged + 1) (tracks_take tracks pendingEq).1]
      exact size_unify (forest_setPending tracks.forest rest) waits.2 waits.1

theorem property_spec (tracks : Tracks history [] graph) {id : TypeId} (inside : id < graph.size)
    (name : Text) :
    (graph.property id name).1 < (graph.property id name).2.size ∧
      graph.size ≤ (graph.property id name).2.size ∧
      (graph.property id name).2.size ≤ graph.size + 1 := by
  cases found : (graph.node (graph.root id)).properties.lookup name with
  | none =>
    obtain ⟨answer, extended⟩ := property_of_missing tracks.forest inside found
    rw [answer, extended.size]
    exact ⟨Nat.lt_succ_self _, Nat.le_succ _, Nat.le_refl _⟩
  | some target =>
    obtain ⟨answer, shortened⟩ := property_of_lookup tracks.forest found
    rw [answer, shortened.size]
    have targetIn := tracks.propertyIn _ (name, target) (mem_of_lookup found)
    exact ⟨tracks.forest.root_lt targetIn, Nat.le_refl _, Nat.le_succ _⟩

theorem perform_spec (tracks : Tracks history [] graph) (operation : Operation)
    (inside : ∀ id ∈ operation.operands, id < graph.size) :
    graph.size ≤ (graph.perform operation).2.size ∧
      (graph.perform operation).2.size ≤ graph.size + 1 ∧
      ∀ answer ∈ (graph.perform operation).1, answer < (graph.perform operation).2.size := by
  have stays {other : TypeGraph} (same : other.size = graph.size) :
      graph.size ≤ other.size ∧ other.size ≤ graph.size + 1 := by omega
  cases operation with
  | newNode => simp [perform, newNode, size]
  | representative id =>
    have same := (shortened_representative tracks.forest id).size
    refine ⟨(stays same).1, (stays same).2, fun answer isAnswer => ?_⟩
    cases isAnswer
    exact Nat.lt_of_lt_of_eq (tracks.forest.root_lt (inside id List.mem_cons_self)) same.symm
  | property id name =>
    obtain ⟨answerIn, grown, atMost⟩ := property_spec tracks (inside id List.mem_cons_self) name
    refine ⟨grown, atMost, fun answer isAnswer => ?_⟩
    cases isAnswer
    exact answerIn
  | unify left right =>
    have same :=
      size_unify tracks.forest (inside left (.head _)) (inside right (.tail _ (.head _)))
    exact ⟨(stays same).1, (stays same).2, fun answer isAnswer => by cases isAnswer⟩
  | unifyLater left right =>
    have same : (graph.unifyLater left right).size = graph.size := rfl
    exact ⟨(stays same).1, (stays same).2, fun answer isAnswer => by cases isAnswer⟩
  | complete =>
    have same : graph.complete.2.size = graph.size := size_completeWithin _ 0 tracks
    exact ⟨(stays same).1, (stays same).2, fun answer isAnswer => by cases isAnswer⟩
  | markNamespace id =>
    have same := (marked_markNamespace tracks.forest (inside id List.mem_cons_self)).size
    exact ⟨(stays same).1, (stays same).2, fun answer isAnswer => by cases isAnswer⟩

theorem Run.inside (run : Run history graph) {step : Operation × Option TypeId}
    (member : step ∈ history) :
    (∀ id ∈ step.1.operands, id < graph.size) ∧ ∀ answer ∈ step.2, answer < graph.size := by
  induction run with
  | start => cases member
  | @step history graph operation before operandsIn ih =>
    obtain ⟨grown, _, answerIn⟩ := perform_spec (tracks_of_run before) operation operandsIn
    rcases List.mem_cons.mp member with rfl | old
    · exact ⟨fun id isOperand => Nat.lt_of_lt_of_le (operandsIn id isOperand) grown, answerIn⟩
    · obtain ⟨first, second⟩ := ih old
      exact ⟨fun id isOperand => Nat.lt_of_lt_of_le (first id isOperand) grown,
        fun answer isAnswer => Nat.lt_of_lt_of_le (second answer isAnswer) grown⟩

theorem Related.lt_iff (run : Run history graph) (related : Related history left right) :
    left < graph.size ↔ right < graph.size := by
  induction related with
  | refl id => rfl
  | symm _ ih => exact ih.symm
  | trans _ _ first second => exact first.trans second
  | unified member | deferred member =>
    have operands := (run.inside member).1
    simp only [Operation.operands, List.mem_cons, List.not_mem_nil, or_false, forall_eq_or_imp,
      forall_eq] at operands
    simp [operands]
  | property _ member member' _ =>
    have first := (run.inside member).2 _ rfl
    have second := (run.inside member').2 _ rfl
    simp [first, second]

theorem Related.of_suffix {later : History} (suffix : history <:+ later)
    (related : Related history left right) : Related later left right := by
  obtain ⟨steps, rfl⟩ := suffix
  induction steps with
  | nil => exact related
  | cons step steps ih => exact ih.mono step

end Namesake.TypeGraph
