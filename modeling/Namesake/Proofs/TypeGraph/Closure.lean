import Namesake.Proofs.TypeGraph.Tracking

/-!
Once no pair waits, the classes of a graph are the classes of the least equivalence that holds
for all pairs that were to be unified and respects properties.
-/

namespace Namesake.TypeGraph

variable {history : History} {graph : TypeGraph}

/-- The classes that are namespaces are those with a member that was marked. -/
def Flagged (history : History) (graph : TypeGraph) : Prop :=
  ∀ id, (graph.node (graph.root id)).isNamespace = true ↔
    ∃ member, (.markNamespace member, none) ∈ history ∧ graph.root member = graph.root id

namespace Flagged

variable {history : History} {graph other : TypeGraph}

theorem start : Flagged [] empty := by
  intro id
  rw [node_of_size_le empty (Nat.zero_le _)]
  simp

theorem record (flagged : Flagged history graph) {step : Operation × Option TypeId}
    (other : ∀ id, step ≠ (.markNamespace id, none)) : Flagged (step :: history) graph := by
  intro id
  rw [flagged id]
  constructor
  · rintro ⟨member, before, same⟩
    exact ⟨member, List.mem_cons_of_mem _ before, same⟩
  · rintro ⟨member, inHistory, same⟩
    rcases List.mem_cons.mp inHistory with now | before
    · exact absurd now.symm (other member)
    · exact ⟨member, before, same⟩

theorem carry (flagged : Flagged history graph) (roots : ∀ id, other.root id = graph.root id)
    (flags : ∀ id, (other.node id).isNamespace = (graph.node id).isNamespace) :
    Flagged history other := by
  intro id
  simp only [roots, flags]
  exact flagged id

theorem of_sameClasses (flagged : Flagged history graph) (same : graph.SameClasses other) :
    Flagged history other :=
  flagged.carry same.root same.isNamespace

theorem of_marked (flagged : Flagged history graph) {id : TypeId}
    (marked : graph.Marked other (graph.root id)) :
    Flagged ((.markNamespace id, none) :: history) other := by
  intro owner
  rw [marked.root, marked.isNamespace, Bool.or_eq_true, decide_eq_true_eq, flagged owner]
  constructor
  · rintro (own | ⟨member, before, same⟩)
    · exact ⟨id, List.mem_cons_self, by rw [marked.root, own]⟩
    · exact ⟨member, List.mem_cons_of_mem _ before, by rw [marked.root, same]⟩
  · rintro ⟨member, inHistory, same⟩
    rw [marked.root] at same
    rcases List.mem_cons.mp inHistory with now | before
    · cases now
      exact .inl same.symm
    · exact .inr ⟨member, before, same⟩

theorem of_absorbed (flagged : Flagged history graph) {kept absorbed : TypeId}
    (keptIsRoot : graph.root kept = kept) (absorbedIsRoot : graph.root absorbed = absorbed)
    (step : graph.Absorbed other kept absorbed) : Flagged history other := by
  have atKept := flagged kept
  have atAbsorbed := flagged absorbed
  rw [keptIsRoot] at atKept
  rw [absorbedIsRoot] at atAbsorbed
  have members (target : TypeId) : other.root target = kept ↔
      graph.root target = kept ∨ graph.root target = absorbed := by
    rw [step.root]
    split
    · rename_i moved
      simp [moved]
    · rename_i stays
      simp [stays]
  intro id
  by_cases inKept : other.root id = kept
  · rw [inKept, step.joined, Bool.or_eq_true, atKept, atAbsorbed]
    simp only [members]
    constructor
    · rintro (⟨member, before, same⟩ | ⟨member, before, same⟩)
      · exact ⟨member, before, .inl same⟩
      · exact ⟨member, before, .inr same⟩
    · rintro ⟨member, before, same | same⟩
      · exact .inl ⟨member, before, same⟩
      · exact .inr ⟨member, before, same⟩
  · have outside : graph.root id ≠ kept ∧ graph.root id ≠ absorbed := by
      rw [members] at inKept
      exact not_or.mp inKept
    have sameRoot : other.root id = graph.root id := by
      rw [step.root, if_neg outside.2]
    have sameMembers (member : TypeId) :
        other.root member = graph.root id ↔ graph.root member = graph.root id := by
      rw [step.root]
      split
      · rename_i moved
        rw [moved]
        exact ⟨fun same => absurd same.symm outside.1, fun same => absurd same.symm outside.2⟩
      · exact Iff.rfl
    rw [sameRoot, step.isNamespace _ outside.1 outside.2, flagged id]
    simp only [sameMembers]

theorem of_unify (flagged : Flagged history graph) (forest : graph.Forest) {left right : TypeId}
    (leftIn : left < graph.size) (rightIn : right < graph.size) :
    Flagged history (graph.unify left right) := by
  by_cases same : graph.root left = graph.root right
  · exact flagged.of_sameClasses (unify_of_same forest same)
  · have leftIsRoot := forest.root_root left
    have rightIsRoot := forest.root_root right
    rcases unify_of_different forest leftIn rightIn same with step | step
    · exact flagged.of_absorbed leftIsRoot rightIsRoot step
    · exact flagged.of_absorbed rightIsRoot leftIsRoot step

theorem of_setPending (flagged : Flagged history graph) (forest : graph.Forest)
    (pending : List (TypeId × TypeId)) : Flagged history { graph with pending } :=
  flagged.carry (root_setPending forest pending) fun _ => rfl

end Flagged

theorem flagged_completeWithin (steps merged : Nat) (tracks : Tracks history [] graph)
    (flagged : Flagged history graph) :
    Flagged history (completeWithin steps merged graph).2 := by
  induction steps generalizing merged graph with
  | zero => exact flagged
  | succ steps ih =>
    simp only [completeWithin]
    split
    · exact flagged
    · rename_i left right rest pendingEq
      have member : (left, right) ∈ graph.pending := by
        rw [pendingEq]
        exact List.mem_cons_self
      obtain ⟨leftIn, rightIn⟩ := tracks.pendingIn _ member
      exact ih (merged + 1) (tracks_take tracks pendingEq).1
        ((flagged.of_setPending tracks.forest rest).of_unify
          (forest_setPending tracks.forest rest) rightIn leftIn)

theorem flagged_of_run (run : Run history graph) :
    Flagged history graph := by
  induction run with
  | start => exact .start
  | @step history graph operation run inside flagged =>
    have tracks := tracks_of_run run
    cases operation with
    | newNode =>
      exact (flagged.carry (root_newNode tracks.forest) fun id => by
        rw [node_newNode]).record (by simp)
    | representative id =>
      have shortened := shortened_representative tracks.forest id
      exact (flagged.of_sameClasses (shortened.sameClasses tracks.forest)).record (by simp)
    | property id name =>
      have idIn : id < graph.size := inside id List.mem_cons_self
      refine Flagged.record ?_ (by simp)
      cases foundAt : (graph.node (graph.root id)).properties.lookup name with
      | none =>
        obtain ⟨_, extended⟩ := property_of_missing tracks.forest idIn foundAt
        exact flagged.carry extended.root extended.isNamespace
      | some target =>
        obtain ⟨_, shortened⟩ := property_of_lookup tracks.forest foundAt
        exact flagged.of_sameClasses (shortened.sameClasses tracks.forest)
    | unify left right =>
      have leftIn : left < graph.size := inside left (.head _)
      have rightIn : right < graph.size := inside right (.tail _ (.head _))
      exact (flagged.of_unify tracks.forest leftIn rightIn).record (by simp)
    | unifyLater left right =>
      exact (flagged.of_setPending tracks.forest _).record (by simp)
    | complete => exact (flagged_completeWithin _ 0 tracks flagged).record (by simp)
    | markNamespace id =>
      have idIn : id < graph.size := inside id List.mem_cons_self
      exact flagged.of_marked (marked_markNamespace tracks.forest idIn)

theorem Tracks.root_eq_of_related (tracks : Tracks history [] graph) (none : graph.pending = [])
    {left right : TypeId} (related : Related history left right)
    : graph.root left = graph.root right := by
  induction related with
  | refl id => rfl
  | symm _ ih => exact ih.symm
  | trans _ _ first second => exact first.trans second
  | unified member => exact (tracks.unified _ _ member).root_eq none
  | deferred member => exact (tracks.deferred _ _ member).root_eq none
  | property _ member member' ih =>
    obtain ⟨target, found, linked⟩ := tracks.answered _ _ _ member
    obtain ⟨target', found', linked'⟩ := tracks.answered _ _ _ member'
    -- Both answers were given for one property of what is one class now.
    rw [ih, found'] at found
    cases found
    exact (linked.root_eq none).trans (linked'.root_eq none).symm

theorem Tracks.root_eq_iff_related (tracks : Tracks history [] graph) (none : graph.pending = [])
    (left right : TypeId) :
    graph.root left = graph.root right ↔ Related history left right := by
  constructor
  · intro same
    have leftRelated := tracks.rootRelated left
    rw [same] at leftRelated
    exact leftRelated.trans (tracks.rootRelated right).symm
  · exact tracks.root_eq_of_related none

/-- After any run that ends by completing the graph, two nodes have the same representative exactly
if they are related, and the representative of a class is a namespace exactly if some member
of the class was marked. -/
theorem representative_eq_iff_related {history : History} {graph : TypeGraph}
    (run : Run ((.complete, none) :: history) graph) :
    (∀ left right, (graph.representative left).1 = (graph.representative right).1 ↔
      Related ((.complete, none) :: history) left right) ∧
    ∀ id, (graph.node (graph.representative id).1).isNamespace = true ↔
      ∃ member, (.markNamespace member, none) ∈ history ∧
        Related ((.complete, none) :: history) member id := by
  have tracks := tracks_of_run run
  have none : graph.pending = [] := by
    cases run with
    | step operation before _ => exact (tracks_complete (tracks_of_run before)).2
  refine ⟨tracks.root_eq_iff_related none, ?_⟩
  intro id
  rw [representative_fst, flagged_of_run run id]
  simp only [tracks.root_eq_iff_related none, List.mem_cons, Prod.mk.injEq, reduceCtorEq,
    false_and, false_or]

/-- A type that is its own property and another type with that property: once the two are unified,
all four nodes are one class, and it is a namespace because its last member was marked. -/
theorem representative_eq_iff_related_cycle :
    ∃ history graph, Run ((.complete, none) :: history) graph ∧ graph.size = 5 ∧
      (graph.representative 0).1 = (graph.representative 3).1 ∧
      (graph.representative 0).1 ≠ (graph.representative 4).1 ∧
      (graph.node (graph.representative 0).1).isNamespace = true := by
  let self : Text := ⟨[115]⟩
  have run := Run.start
    |>.step .newNode (by decide)
    |>.step .newNode (by decide)
    |>.step (.property 0 self) (by decide)
    |>.step (.unifyLater 0 2) (by decide)
    |>.step (.property 1 self) (by decide)
    |>.step .newNode (by decide)
    |>.step (.unify 0 1) (by decide)
    |>.step (.markNamespace 3) (by decide)
    |>.step .complete (by decide)
  have related {history : History} (cycle : (.unifyLater 0 2, none) ∈ history)
      (unified : (.unify 0 1, none) ∈ history) (first : (.property 0 self, some 2) ∈ history)
      (second : (.property 1 self, some 3) ∈ history) : Related history 0 3 :=
    .trans (.deferred cycle) (.property (.unified unified) first second)
  obtain ⟨classes, namespaces⟩ := representative_eq_iff_related run
  refine ⟨_, _, run, by decide, (classes 0 3).mpr ?_, by decide,
    (namespaces 0).mpr ⟨3, by decide, .symm ?_⟩⟩
  · exact related (by decide) (by decide) (by decide) (by decide)
  · exact related (by decide) (by decide) (by decide) (by decide)

end Namesake.TypeGraph
