import Mathlib.Logic.Relation
import Namesake.Proofs.TypeGraph.Classes

/-!
A graph is ahead of the relation that its operations generate nowhere, and behind it only by the
pairs that still wait; `Tracks` says so, and every operation keeps it.
-/

namespace Namesake.TypeGraph

open List

variable {history : History} {left right : TypeId} {graph : TypeGraph}

inductive Operation where
  | newNode
  | representative (id : TypeId)
  | property (id : TypeId) (name : Text)
  | unify (left right : TypeId)
  | unifyLater (left right : TypeId)
  | complete
  | markNamespace (id : TypeId)
deriving DecidableEq

def Operation.operands : Operation → List TypeId
  | newNode => []
  | representative id => [id]
  | property id _ => [id]
  | unify left right => [left, right]
  | unifyLater left right => [left, right]
  | complete => []
  | markNamespace id => [id]

def perform (graph : TypeGraph) : Operation → Option TypeId × TypeGraph
  | .newNode => (some graph.newNode.1, graph.newNode.2)
  | .representative id => (some (graph.representative id).1, (graph.representative id).2)
  | .property id name => (some (graph.property id name).1, (graph.property id name).2)
  | .unify left right => (none, graph.unify left right)
  | .unifyLater left right => (none, graph.unifyLater left right)
  | .complete => (none, graph.complete.2)
  | .markNamespace id => (none, graph.markNamespace id)

abbrev History := List (Operation × Option TypeId)

/-- The graphs that operations on existing nodes lead to, each with its history. -/
inductive Run : History → TypeGraph → Prop where
  | start : Run [] empty
  | step {history : History} {graph : TypeGraph} (operation : Operation) :
      Run history graph → (∀ id ∈ operation.operands, id < graph.size) →
      Run ((operation, (graph.perform operation).1) :: history) (graph.perform operation).2

/-- The least equivalence that holds for all pairs that were to be unified, at once or later, and
under which related nodes have related properties. -/
inductive Related (history : History) : TypeId → TypeId → Prop where
  | refl (id : TypeId) : Related history id id
  | symm {left right : TypeId} : Related history left right → Related history right left
  | trans {left middle right : TypeId} : Related history left middle →
      Related history middle right → Related history left right
  | unified {left right : TypeId} : (.unify left right, none) ∈ history → Related history left right
  | deferred {left right : TypeId} : (.unifyLater left right, none) ∈ history →
      Related history left right
  | property {left right answer answer' : TypeId} {name : Text} : Related history left right →
      (.property left name, some answer) ∈ history →
      (.property right name, some answer') ∈ history → Related history answer answer'

theorem Related.mono (step : Operation × Option TypeId) (related : Related history left right) :
    Related (step :: history) left right := by
  induction related with
  | refl id => exact .refl id
  | symm _ ih => exact ih.symm
  | trans _ _ first second => exact first.trans second
  | unified member => exact .unified (mem_cons_of_mem _ member)
  | deferred member => exact .deferred (mem_cons_of_mem _ member)
  | property _ member member' ih =>
    exact .property ih (mem_cons_of_mem _ member) (mem_cons_of_mem _ member')

/-- The equivalence of nodes that a graph comes to if the waiting pairs and some others are unified,
properties apart. -/
def Linked (graph : TypeGraph) (owed : List (TypeId × TypeId)) : TypeId → TypeId → Prop :=
  Relation.EqvGen fun left right =>
    graph.root left = graph.root right ∨ (left, right) ∈ graph.pending ∨ (left, right) ∈ owed

namespace Linked

variable {graph other : TypeGraph} {owed owed' : List (TypeId × TypeId)} {left right : TypeId}

theorem of_root (same : graph.root left = graph.root right) : graph.Linked owed left right :=
  .rel _ _ (.inl same)

theorem of_pending (member : (left, right) ∈ graph.pending) : graph.Linked owed left right :=
  .rel _ _ (.inr (.inl member))

theorem of_owed (member : (left, right) ∈ owed) : graph.Linked owed left right :=
  .rel _ _ (.inr (.inr member))

theorem symm (linked : graph.Linked owed left right) : graph.Linked owed right left :=
  Relation.EqvGen.symm _ _ linked

theorem trans {middle : TypeId} (first : graph.Linked owed left middle)
    (second : graph.Linked owed middle right) : graph.Linked owed left right :=
  Relation.EqvGen.trans _ _ _ first second

theorem mono (roots : ∀ left right, graph.root left = graph.root right →
      other.root left = other.root right)
    (pairs : ∀ left right, (left, right) ∈ graph.pending ∨ (left, right) ∈ owed →
      other.Linked owed' left right)
    (linked : graph.Linked owed left right) : other.Linked owed' left right := by
  induction linked with
  | rel left right reason =>
    rcases reason with same | pair
    · exact .of_root (roots left right same)
    · exact pairs left right pair
  | refl id => exact .refl id
  | symm _ _ _ ih => exact ih.symm
  | trans _ _ _ _ _ first second => exact first.trans second

theorem root_eq (none : graph.pending = []) (linked : graph.Linked [] left right) :
    graph.root left = graph.root right := by
  induction linked with
  | rel left right reason =>
    rcases reason with same | pair
    · exact same
    · simp [none] at pair
  | refl id => rfl
  | symm _ _ _ ih => exact ih.symm
  | trans _ _ _ _ _ first second => exact first.trans second

end Linked

/-- A graph keeps track of a history: its classes, waiting pairs and properties are related, and what
was asked for is there as soon as the waiting and the owed pairs are unified. -/
structure Tracks (history : History) (owed : List (TypeId × TypeId)) (graph : TypeGraph) :
    Prop where
  forest : graph.Forest
  pendingIn : ∀ pair ∈ graph.pending, pair.1 < graph.size ∧ pair.2 < graph.size
  propertyIn : ∀ id, ∀ entry ∈ (graph.node id).properties, entry.2 < graph.size
  rootRelated : ∀ id, Related history id (graph.root id)
  pendingRelated : ∀ pair ∈ graph.pending, Related history pair.1 pair.2
  propertyRelated : ∀ id name target, (name, target) ∈ (graph.node id).properties →
    ∃ asked answer, (.property asked name, some answer) ∈ history ∧
      Related history asked id ∧ Related history answer target
  unified : ∀ left right, (.unify left right, none) ∈ history → graph.Linked owed left right
  deferred : ∀ left right, (.unifyLater left right, none) ∈ history →
    graph.Linked owed left right
  answered : ∀ id name answer, (.property id name, some answer) ∈ history →
    ∃ target, (graph.node (graph.root id)).properties.lookup name = some target ∧
      graph.Linked owed answer target

namespace Tracks

variable {history : History} {owed owed' : List (TypeId × TypeId)} {graph other : TypeGraph}

theorem start : Tracks [] [] empty where
  forest := forest_empty
  pendingIn := by
    intro pair member
    cases member
  propertyIn := by
    intro id entry member
    rw [node_of_size_le empty (Nat.zero_le id)] at member
    cases member
  rootRelated := by
    intro id
    rw [forest_empty.root_of_size_le (Nat.zero_le id)]
    exact .refl id
  pendingRelated := by
    intro pair member
    cases member
  propertyRelated := by
    intro id name target member
    rw [node_of_size_le empty (Nat.zero_le id)] at member
    cases member
  unified := by
    intro left right member
    cases member
  deferred := by
    intro left right member
    cases member
  answered := by
    intro id name answer member
    cases member

theorem record (tracks : Tracks history owed graph) (step : Operation × Option TypeId)
    (unified : ∀ left right, step = (.unify left right, none) → graph.Linked owed left right)
    (deferred : ∀ left right, step = (.unifyLater left right, none) → graph.Linked owed left right)
    (answered : ∀ id name answer, step = (.property id name, some answer) →
      ∃ target, (graph.node (graph.root id)).properties.lookup name = some target ∧
        graph.Linked owed answer target) :
    Tracks (step :: history) owed graph where
  forest := tracks.forest
  pendingIn := tracks.pendingIn
  propertyIn := tracks.propertyIn
  rootRelated := fun id => (tracks.rootRelated id).mono step
  pendingRelated := fun pair member => (tracks.pendingRelated pair member).mono step
  propertyRelated := by
    intro id name target member
    obtain ⟨asked, answer, before, sameOwner, sameTarget⟩ :=
      tracks.propertyRelated id name target member
    exact ⟨asked, answer, mem_cons_of_mem _ before, sameOwner.mono step, sameTarget.mono step⟩
  unified := by
    intro left right member
    rcases mem_cons.mp member with now | before
    · exact unified left right now.symm
    · exact tracks.unified left right before
  deferred := by
    intro left right member
    rcases mem_cons.mp member with now | before
    · exact deferred left right now.symm
    · exact tracks.deferred left right before
  answered := by
    intro id name answer member
    rcases mem_cons.mp member with now | before
    · exact answered id name answer now.symm
    · exact tracks.answered id name answer before

theorem carry (tracks : Tracks history owed graph) (forest : other.Forest)
    (grown : graph.size ≤ other.size) (pending : other.pending = graph.pending)
    (roots : ∀ id, other.root id = graph.root id)
    (properties : ∀ id, (other.node id).properties = (graph.node id).properties)
    (paid : ∀ left right, (left, right) ∈ owed →
      graph.root left = graph.root right ∨ (left, right) ∈ owed') :
    Tracks history owed' other := by
  have kept {left right : TypeId} (linked : graph.Linked owed left right) :
      other.Linked owed' left right := by
    refine linked.mono ?_ ?_
    · intro left right same
      rw [roots, roots, same]
    · rintro left right (waits | owes)
      · exact .of_pending (by rw [pending]; exact waits)
      · rcases paid left right owes with same | still
        · exact .of_root (by rw [roots, roots, same])
        · exact .of_owed still
  refine
    { forest := forest
      pendingIn := ?_
      propertyIn := ?_
      rootRelated := ?_
      pendingRelated := ?_
      propertyRelated := ?_
      unified := fun left right member => kept (tracks.unified left right member)
      deferred := fun left right member => kept (tracks.deferred left right member)
      answered := ?_ }
  · intro pair member
    rw [pending] at member
    obtain ⟨first, second⟩ := tracks.pendingIn pair member
    exact ⟨Nat.lt_of_lt_of_le first grown, Nat.lt_of_lt_of_le second grown⟩
  · intro id entry member
    rw [properties] at member
    exact Nat.lt_of_lt_of_le (tracks.propertyIn id entry member) grown
  · intro id
    rw [roots]
    exact tracks.rootRelated id
  · rw [pending]
    exact tracks.pendingRelated
  · intro id
    rw [properties]
    exact tracks.propertyRelated id
  · intro id name answer member
    obtain ⟨target, found, linked⟩ := tracks.answered id name answer member
    exact ⟨target, by rw [roots, properties]; exact found, kept linked⟩

theorem of_sameClasses (tracks : Tracks history owed graph) (same : graph.SameClasses other)
    (paid : ∀ left right, (left, right) ∈ owed →
      graph.root left = graph.root right ∨ (left, right) ∈ owed') : Tracks history owed' other :=
  tracks.carry same.forest (Nat.le_of_eq same.size.symm) same.pending same.root same.properties paid

theorem of_setPending (tracks : Tracks history owed graph) {pending : List (TypeId × TypeId)}
    (inside : ∀ pair ∈ pending, pair.1 < graph.size ∧ pair.2 < graph.size)
    (related : ∀ pair ∈ pending, Related history pair.1 pair.2)
    (covered : ∀ pair, pair ∈ graph.pending ∨ pair ∈ owed →
      pair ∈ pending ∨ pair ∈ owed' ∨ pair.1 = pair.2) :
    Tracks history owed' { graph with pending } := by
  have roots := root_setPending tracks.forest pending
  have kept {left right : TypeId} (linked : graph.Linked owed left right) :
      ({ graph with pending } : TypeGraph).Linked owed' left right := by
    refine linked.mono ?_ ?_
    · intro left right same
      rw [roots, roots, same]
    · intro left right member
      rcases covered _ member with waits | owes | same
      · exact .of_pending waits
      · exact .of_owed owes
      · exact .of_root (congrArg _ same)
  refine
    { forest := forest_setPending tracks.forest pending
      pendingIn := inside
      propertyIn := tracks.propertyIn
      rootRelated := ?_
      pendingRelated := related
      propertyRelated := tracks.propertyRelated
      unified := fun left right member => kept (tracks.unified left right member)
      deferred := fun left right member => kept (tracks.deferred left right member)
      answered := ?_ }
  · intro id
    rw [roots]
    exact tracks.rootRelated id
  · intro id name answer member
    obtain ⟨target, found, linked⟩ := tracks.answered id name answer member
    exact ⟨target, by rw [roots]; exact found, kept linked⟩

theorem of_shortened (tracks : Tracks history owed graph) (shortened : graph.Shortened other) :
    Tracks history owed other :=
  tracks.of_sameClasses (shortened.sameClasses tracks.forest) fun _ _ => .inr

theorem of_extended (tracks : Tracks history owed graph) {id : TypeId} {name : Text}
    (missing : (graph.node (graph.root id)).properties.lookup name = none)
    (extended : graph.Extended other (graph.root id) name) :
    Tracks ((.property id name, some graph.size) :: history) owed other := by
  have kept {left right : TypeId} (linked : graph.Linked owed left right) :
      other.Linked owed left right := by
    refine linked.mono ?_ ?_
    · intro left right same
      rw [extended.root, extended.root, same]
    · rintro left right (waits | owes)
      · exact .of_pending (by rw [extended.pending]; exact waits)
      · exact .of_owed owes
  have origin (owner : TypeId) : ∀ entry ∈ (other.node owner).properties,
      entry ∈ (graph.node owner).properties ∨
        (owner = graph.root id ∧ entry = (name, graph.size)) := by
    intro entry member
    by_cases own : owner = graph.root id
    · subst own
      rw [extended.owned, mem_append, mem_singleton] at member
      exact member.imp_right fun new => ⟨rfl, new⟩
    · rw [extended.properties owner own] at member
      exact .inl member
  have found {owner : TypeId} {name' : Text} {target : TypeId}
      (old : (graph.node owner).properties.lookup name' = some target) :
      (other.node owner).properties.lookup name' = some target := by
    by_cases own : owner = graph.root id
    · subst own
      rw [extended.owned, lookup_append, old, Option.some_or]
    · rw [extended.properties owner own]
      exact old
  refine
    { forest := extended.forest
      pendingIn := ?_
      propertyIn := ?_
      rootRelated := ?_
      pendingRelated := ?_
      propertyRelated := ?_
      unified := ?_
      deferred := ?_
      answered := ?_ }
  · intro pair member
    rw [extended.pending] at member
    obtain ⟨first, second⟩ := tracks.pendingIn pair member
    rw [extended.size]
    exact ⟨Nat.lt_succ_of_lt first, Nat.lt_succ_of_lt second⟩
  · intro owner entry member
    rw [extended.size]
    rcases origin owner entry member with old | ⟨_, rfl⟩
    · exact Nat.lt_succ_of_lt (tracks.propertyIn owner entry old)
    · exact Nat.lt_succ_self _
  · intro id
    rw [extended.root]
    exact (tracks.rootRelated id).mono _
  · intro pair member
    rw [extended.pending] at member
    exact (tracks.pendingRelated pair member).mono _
  · intro owner name' target member
    rcases origin owner _ member with old | ⟨rfl, new⟩
    · obtain ⟨asked, answer, before, sameOwner, sameTarget⟩ :=
        tracks.propertyRelated owner name' target old
      exact ⟨asked, answer, mem_cons_of_mem _ before, sameOwner.mono _, sameTarget.mono _⟩
    · cases new
      exact ⟨id, graph.size, mem_cons_self, (tracks.rootRelated id).mono _, .refl _⟩
  · intro left right member
    rcases mem_cons.mp member with now | before
    · cases now
    · exact kept (tracks.unified left right before)
  · intro left right member
    rcases mem_cons.mp member with now | before
    · cases now
    · exact kept (tracks.deferred left right before)
  · intro asked name' answer member
    rw [extended.root]
    rcases mem_cons.mp member with now | before
    · cases now
      refine ⟨graph.size, ?_, .refl _⟩
      rw [extended.owned, lookup_append, missing, Option.none_or]
      simp
    · obtain ⟨target, old, linked⟩ := tracks.answered asked name' answer before
      exact ⟨target, found old, kept linked⟩

theorem of_absorbed (tracks : Tracks history owed graph) {kept absorbed : TypeId}
    (related : Related history kept absorbed) (step : graph.Absorbed other kept absorbed)
    (paid : ∀ left right, (left, right) ∈ owed →
      other.root left = other.root right ∨ (left, right) ∈ owed') :
    Tracks history owed' other := by
  have joined := joined_mergeProperties graph.pending (graph.node kept).properties
    (graph.node absorbed).properties
  rw [← step.merged] at joined
  have roots {left right : TypeId} (same : graph.root left = graph.root right) :
      other.root left = other.root right := by
    rw [step.root, step.root, same]
  have stays {left right : TypeId} (linked : graph.Linked owed left right) :
      other.Linked owed' left right := by
    refine linked.mono (fun _ _ => roots) ?_
    rintro left right (waits | owes)
    · exact .of_pending (joined.waits _ waits)
    · rcases paid left right owes with same | still
      · exact .of_root same
      · exact .of_owed still
  -- Every property after the step was one of the same class or of the absorbed class before.
  have origin (owner : TypeId) : ∀ entry ∈ (other.node owner).properties,
      ∃ before, entry ∈ (graph.node before).properties ∧ Related history before owner := by
    intro entry member
    by_cases own : owner = kept
    · subst own
      rcases joined.origin entry member with old | new
      · exact ⟨owner, old, .refl _⟩
      · exact ⟨absorbed, new, related.symm⟩
    · by_cases gone : owner = absorbed
      · rw [gone, step.cleared] at member
        cases member
      · rw [step.properties owner own gone] at member
        exact ⟨owner, member, .refl _⟩
  have pairRelated (name : Text) (left right first second : TypeId)
      (sameOwner : Related history first second)
      (leftIn : (name, left) ∈ (graph.node first).properties)
      (rightIn : (name, right) ∈ (graph.node second).properties) : Related history left right := by
    obtain ⟨asked, answer, before, owner, target⟩ := tracks.propertyRelated _ _ _ leftIn
    obtain ⟨asked', answer', before', owner', target'⟩ := tracks.propertyRelated _ _ _ rightIn
    have sameAsked := (owner.trans sameOwner).trans owner'.symm
    exact (target.symm.trans (.property sameAsked before before')).trans target'
  refine
    { forest := step.forest
      pendingIn := ?_
      propertyIn := ?_
      rootRelated := ?_
      pendingRelated := ?_
      propertyRelated := ?_
      unified := fun left right member => stays (tracks.unified left right member)
      deferred := fun left right member => stays (tracks.deferred left right member)
      answered := ?_ }
  · intro pair member
    rw [step.size]
    rcases joined.cause pair member with old | ⟨name, first, second⟩
    · exact tracks.pendingIn pair old
    · have secondIn := tracks.propertyIn _ _ second
      rcases first with atKept | atAbsorbed
      · exact ⟨tracks.propertyIn _ _ atKept, secondIn⟩
      · exact ⟨tracks.propertyIn _ _ atAbsorbed, secondIn⟩
  · intro owner entry member
    rw [step.size]
    obtain ⟨before, old, _⟩ := origin owner entry member
    exact tracks.propertyIn before entry old
  · intro id
    have old := tracks.rootRelated id
    rw [step.root]
    by_cases moved : graph.root id = absorbed
    · rw [if_pos moved]
      rw [moved] at old
      exact old.trans related.symm
    · rw [if_neg moved]
      exact old
  · intro pair member
    rcases joined.cause pair member with old | ⟨name, first, second⟩
    · exact tracks.pendingRelated pair old
    · rcases first with atKept | atAbsorbed
      · exact pairRelated name _ _ kept absorbed related atKept second
      · exact pairRelated name _ _ absorbed absorbed (.refl _) atAbsorbed second
  · intro owner name target member
    obtain ⟨before, old, sameOwner⟩ := origin owner _ member
    obtain ⟨asked, answer, inHistory, askedOwner, sameTarget⟩ :=
      tracks.propertyRelated before name target old
    exact ⟨asked, answer, inHistory, askedOwner.trans sameOwner, sameTarget⟩
  · intro id name answer member
    obtain ⟨target, found, linked⟩ := tracks.answered id name answer member
    rw [step.root]
    by_cases moved : graph.root id = absorbed
    · rw [if_pos moved]
      rw [moved] at found
      obtain ⟨target', found', same | waits⟩ := joined.covered name target (mem_of_lookup found)
      · exact ⟨target', found', by rw [same]; exact stays linked⟩
      · exact ⟨target', found', (stays linked).trans (Linked.of_pending waits).symm⟩
    · rw [if_neg moved]
      by_cases own : graph.root id = kept
      · rw [own] at found ⊢
        exact ⟨target, joined.kept name target found, stays linked⟩
      · exact ⟨target, by rw [step.properties _ own moved]; exact found, stays linked⟩

theorem of_unify (tracks : Tracks history owed graph) {left right : TypeId}
    (leftIn : left < graph.size) (rightIn : right < graph.size)
    (related : Related history left right)
    (paid : ∀ pair ∈ owed, pair = (left, right) ∨ pair = (right, left) ∨ pair ∈ owed') :
    Tracks history owed' (graph.unify left right) := by
  have rootsRelated : Related history (graph.root left) (graph.root right) :=
    ((tracks.rootRelated left).symm.trans related).trans (tracks.rootRelated right)
  have owes {other : TypeGraph} (same : other.root left = other.root right) :
      ∀ first second, (first, second) ∈ owed →
        other.root first = other.root second ∨ (first, second) ∈ owed' := by
    intro first second member
    rcases paid _ member with straight | turned | still
    · cases straight
      exact .inl same
    · cases turned
      exact .inl same.symm
    · exact .inr still
  by_cases same : graph.root left = graph.root right
  · exact tracks.of_sameClasses (unify_of_same tracks.forest same) (owes same)
  · rcases unify_of_different tracks.forest leftIn rightIn same with step | step
    · refine tracks.of_absorbed rootsRelated step (owes ?_)
      rw [step.root, step.root, if_neg same, if_pos rfl]
    · refine tracks.of_absorbed rootsRelated.symm step (owes ?_)
      rw [step.root, step.root, if_pos rfl, if_neg (Ne.symm same)]

end Tracks

theorem tracks_take {rest : List (TypeId × TypeId)} (tracks : Tracks history [] graph)
    (pendingEq : graph.pending = (left, right) :: rest) :
    Tracks history [] (({ graph with pending := rest } : TypeGraph).unify right left) ∧
      (({ graph with pending := rest } : TypeGraph).unify right left).workload < graph.workload := by
  have member : (left, right) ∈ graph.pending := by
    rw [pendingEq]
    exact mem_cons_self
  have behind : ∀ pair ∈ rest, pair ∈ graph.pending := by
    intro pair inRest
    rw [pendingEq]
    exact mem_cons_of_mem _ inRest
  have leftIn : left < graph.size := (tracks.pendingIn _ member).1
  have rightIn : right < graph.size := (tracks.pendingIn _ member).2
  have owing : Tracks history [(left, right)] { graph with pending := rest } := by
    refine tracks.of_setPending (fun pair inRest => tracks.pendingIn pair (behind pair inRest))
      (fun pair inRest => tracks.pendingRelated pair (behind pair inRest)) ?_
    rintro pair (waits | owes)
    · rw [pendingEq] at waits
      rcases mem_cons.mp waits with taken | still
      · exact .inr (.inl (mem_singleton.mpr taken))
      · exact .inl still
    · cases owes
  constructor
  · refine owing.of_unify rightIn leftIn (tracks.pendingRelated _ member).symm ?_
    intro pair owes
    exact .inr (.inl (mem_singleton.mp owes))
  · have smaller := workload_unify owing.forest rightIn leftIn
    have one : ({ graph with pending := rest } : TypeGraph).workload + 1 = graph.workload := by
      simp only [workload, pendingEq, length_cons]
      have same : ({ graph with pending := rest } : TypeGraph).propertyCount =
          graph.propertyCount := rfl
      omega
    omega

theorem tracks_completeWithin (steps merged : Nat) (tracks : Tracks history [] graph)
    (enough : graph.workload ≤ steps) :
    Tracks history [] (completeWithin steps merged graph).2 ∧
      (completeWithin steps merged graph).2.pending = [] := by
  induction steps generalizing merged graph with
  | zero =>
    have none : graph.pending = [] := by
      unfold workload at enough
      exact length_eq_zero_iff.mp (by omega)
    exact ⟨tracks, none⟩
  | succ steps ih =>
    simp only [completeWithin]
    split
    · rename_i none
      exact ⟨tracks, none⟩
    · rename_i left right rest pendingEq
      obtain ⟨tracks', less⟩ := tracks_take tracks pendingEq
      exact ih (merged + 1) tracks' (by omega)

theorem tracks_complete (tracks : Tracks history [] graph) :
    Tracks history [] graph.complete.2 ∧ graph.complete.2.pending = [] :=
  tracks_completeWithin _ 0 tracks (Nat.le_refl _)

theorem Tracks.request (tracks : Tracks history [] graph) {step : Operation × Option TypeId}
    (asks : step = (.unify left right, none) ∨ step = (.unifyLater left right, none)) :
    Tracks (step :: history) [(left, right)] graph := by
  have more : Tracks history [(left, right)] graph :=
    tracks.of_setPending tracks.pendingIn tracks.pendingRelated
      fun pair member => member.imp_right fun none => by cases none
  refine more.record _ ?_ ?_ ?_
  · rintro left' right' rfl
    rcases asks with same | same <;> cases same
    exact .of_owed mem_cons_self
  · rintro left' right' rfl
    rcases asks with same | same <;> cases same
    exact .of_owed mem_cons_self
  · rintro id name answer rfl
    rcases asks with same | same <;> cases same

theorem tracks_of_run (run : Run history graph) :
    Tracks history [] graph := by
  induction run with
  | start => exact .start
  | @step history graph operation _ inside tracks =>
    cases operation with
    | newNode =>
      have same := tracks.carry (forest_newNode tracks.forest)
        (by rw [size_newNode]; exact Nat.le_succ _) rfl (root_newNode tracks.forest)
        (fun id => by rw [node_newNode]) fun _ _ => .inr
      exact same.record _ (by simp) (by simp) (by simp)
    | representative id =>
      have same := tracks.of_shortened (shortened_representative tracks.forest id)
      exact same.record _ (by simp) (by simp) (by simp)
    | property id name =>
      have idIn : id < graph.size := inside id mem_cons_self
      simp only [perform]
      cases foundAt : (graph.node (graph.root id)).properties.lookup name with
      | none =>
        obtain ⟨answer, extended⟩ := property_of_missing tracks.forest idIn foundAt
        rw [answer]
        exact tracks.of_extended foundAt extended
      | some target =>
        obtain ⟨answer, shortened⟩ := property_of_lookup tracks.forest foundAt
        rw [answer]
        have same := shortened.sameClasses tracks.forest
        refine (tracks.of_shortened shortened).record _ (by simp) (by simp) ?_
        intro id' name' answer' step
        cases step
        refine ⟨target, by rw [same.root, same.properties]; exact foundAt, .of_root ?_⟩
        rw [same.root, same.root, tracks.forest.root_root]
    | unify left right =>
      have leftIn : left < graph.size := inside left (.head _)
      have rightIn : right < graph.size := inside right (.tail _ (.head _))
      refine (tracks.request (.inl rfl)).of_unify leftIn rightIn (.unified mem_cons_self) ?_
      intro pair owes
      exact .inl (mem_singleton.mp owes)
    | unifyLater left right =>
      have leftIn : left < graph.size := inside left (.head _)
      have rightIn : right < graph.size := inside right (.tail _ (.head _))
      have owing : Tracks ((.unifyLater left right, none) :: history) [(left, right)] graph :=
        tracks.request (.inr rfl)
      refine owing.of_setPending ?_ ?_ ?_
      · intro pair member
        rcases mem_waiting.mp member with old | ⟨rfl, _⟩
        · exact tracks.pendingIn pair old
        · exact ⟨leftIn, rightIn⟩
      · intro pair member
        rcases mem_waiting.mp member with old | ⟨rfl, _⟩
        · exact owing.pendingRelated pair old
        · exact .deferred mem_cons_self
      · rintro pair (old | owes)
        · exact .inl (mem_waiting.mpr (.inl old))
        · rw [mem_singleton] at owes
          by_cases same : left = right
          · exact .inr (.inr (by rw [owes]; exact same))
          · exact .inl (mem_waiting.mpr (.inr ⟨owes, same⟩))
    | complete =>
      exact (tracks_complete tracks).1.record _ (by simp) (by simp) (by simp)
    | markNamespace id =>
      have idIn : id < graph.size := inside id mem_cons_self
      have marked := marked_markNamespace tracks.forest idIn
      have same := tracks.carry marked.forest (Nat.le_of_eq marked.size.symm) marked.pending
        marked.root marked.properties fun _ _ => .inr
      exact same.record _ (by simp) (by simp) (by simp)

end Namesake.TypeGraph
