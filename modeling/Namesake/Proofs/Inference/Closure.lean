import Namesake.Proofs.Inference.Program
import Namesake.Proofs.TypeGraph.Queue

/-!
In a world that does what the constraints demand, two names stand for related types if and only
if the constraints entail that they are equal.
-/

namespace Namesake

open TypeGraph (Operation Run Related)

def World.Meets (world : World) (constraints : Constraint → Prop) : Prop :=
  ∀ constraint, constraints constraint → world.Satisfies constraint

theorem Entails.denotes_iff {constraints : Constraint → Prop} {world : World}
    (good : world.Good constraints) (meets : world.Meets constraints) {left right : TypeName}
    (entails : Entails constraints left right) (id : TypeId) :
    world.Denotes left id ↔ world.Denotes right id := by
  induction entails generalizing id with
  | refl type => rfl
  | symm _ ih => exact (ih id).symm
  | trans _ _ first second => exact (first id).trans (second id)
  | given demanded =>
    obtain ⟨both, ofLeft, ofRight⟩ := meets _ demanded
    constructor
    · exact fun denotes => ofRight.of_related (good.related ofLeft denotes)
    · exact fun denotes => ofLeft.of_related (good.related ofRight denotes)
  | property name _ ih =>
    constructor
    · rintro ⟨base, answer, ofOwner, asked, same⟩
      exact ⟨base, answer, (ih base).1 ofOwner, asked, same⟩
    · rintro ⟨base, answer, ofOwner, asked, same⟩
      exact ⟨base, answer, (ih base).2 ofOwner, asked, same⟩

namespace World

def isNamespace (world : World) (id : TypeId) : Bool :=
  (world.typing.graph.node (world.typing.graph.root id)).isNamespace

variable {constraints more : Constraint → Prop} {world : World}

namespace Good

theorem related_iff (good : world.Good constraints) (meets : world.Meets constraints)
    {left right : TypeName} {first second : TypeId} (ofLeft : world.Denotes left first)
    (ofRight : world.Denotes right second) :
    Related world.history first second ↔ Entails constraints left right := by
  constructor
  · intro related
    have labels := good.explained.entails related
    exact (good.entails_label ofLeft).trans (labels.trans (good.entails_label ofRight).symm)
  · intro entails
    exact good.related ((entails.denotes_iff good meets first).1 ofLeft) ofRight

variable (none : world.typing.graph.pending = [])

include none

theorem root_eq_iff (good : world.Good constraints) (meets : world.Meets constraints)
    {left right : TypeName} {first second : TypeId} (ofLeft : world.Denotes left first)
    (ofRight : world.Denotes right second) :
    world.typing.graph.root first = world.typing.graph.root second ↔
      Entails constraints left right :=
  ((TypeGraph.tracks_of_run good.run).root_eq_iff_related none first second).trans
    (good.related_iff meets ofLeft ofRight)

theorem isNamespace_iff (good : world.Good constraints) (meets : world.Meets constraints)
    {type : TypeName} {id : TypeId} (ofType : world.Denotes type id) :
    world.isNamespace id = true ↔ IsNamespace constraints type := by
  rw [isNamespace, TypeGraph.flagged_of_run good.run id]
  simp only [(TypeGraph.tracks_of_run good.run).root_eq_iff_related none]
  constructor
  · rintro ⟨member, marked, related⟩
    obtain ⟨other, demanded, entails⟩ := good.marked member marked
    have labels := good.explained.entails related
    exact ⟨other, demanded, entails.trans (labels.trans (good.entails_label ofType).symm)⟩
  · rintro ⟨other, demanded, entails⟩
    obtain ⟨member, ofOther, marked⟩ := meets _ demanded
    exact ⟨member, marked, good.related ((entails.denotes_iff good meets member).1 ofOther) ofType⟩

end Good

theorem Denotes.isSome_type? {type : TypeName} {id : TypeId} (denotes : world.Denotes type id) :
    ∀ address ∈ type.nodes, (world.typing.type? address).isSome = true := by
  induction type generalizing id with
  | global => simp [TypeName.nodes]
  | node address =>
    obtain ⟨found, isType, _⟩ := denotes
    simp [TypeName.nodes, isType]
  | bound scope name => simp [TypeName.nodes]
  | property owner name ih =>
    obtain ⟨base, _, ofOwner, _⟩ := denotes
    exact ih ofOwner

theorem Good.isSome_type?_iff (good : world.Good constraints) (meets : world.Meets constraints)
    (address : Address) :
    (world.typing.type? address).isSome = true ↔ Mentions constraints address := by
  constructor
  · intro isSome
    obtain ⟨id, found⟩ := Option.isSome_iff_exists.1 isSome
    exact (good.types address id found).2.1
  · rintro ⟨constraint, demanded, member⟩
    have satisfied := meets constraint demanded
    cases constraint with
    | same left right =>
      obtain ⟨id, ofLeft, ofRight⟩ := satisfied
      exact (List.mem_append.1 member).elim (ofLeft.isSome_type? address)
        (ofRight.isSome_type? address)
    | marked type =>
      obtain ⟨id, ofType, _⟩ := satisfied
      exact ofType.isSome_type? address member
    | method base receiver =>
      obtain ⟨pair, _, ofBase, ofReceiver⟩ := satisfied
      exact (List.mem_append.1 member).elim (ofBase.isSome_type? address)
        (ofReceiver.isSome_type? address)

theorem Good.mono (good : world.Good constraints)
    (implies : ∀ constraint, constraints constraint → more constraint) : world.Good more where
  run := good.run
  explained := ⟨fun left right member => (good.explained.unified left right member).mono implies,
      fun left right member => (good.explained.deferred left right member).mono implies,
      fun id name answer member => (good.explained.answered id name answer member).mono implies⟩
  asked id name answer member := by
    obtain ⟨owner, ⟨constraint, demanded, isType⟩, denotes⟩ := good.asked id name answer member
    exact ⟨owner, ⟨constraint, implies _ demanded, isType⟩, denotes⟩
  marked id member := by
    obtain ⟨type, demanded, entails⟩ := good.marked id member
    exact ⟨type, implies _ demanded, entails.mono implies⟩
  globalIn := good.globalIn
  globalLabel := good.globalLabel
  types address id found := by
    obtain ⟨inside, ⟨constraint, demanded, member⟩, entails⟩ := good.types address id found
    exact ⟨inside, ⟨constraint, implies _ demanded, member⟩, entails.mono implies⟩
  boundOnce := good.boundOnce
  methods pair member := by
    obtain ⟨base, receiver, demanded, denotes⟩ := good.methods pair member
    exact ⟨base, receiver, implies _ demanded, denotes⟩

theorem Good.entails_of_congruent (good : world.Good more) {pairs : List (TypeId × TypeId)}
    (justified : ∀ pair ∈ pairs, Entails more (world.label pair.1) (world.label pair.2))
    {left right : TypeId} (congruent : world.typing.graph.Congruent pairs left right) :
    Entails more (world.label left) (world.label right) := by
  have tracks := TypeGraph.tracks_of_run good.run
  have toRoot (id : TypeId) := good.explained.entails (tracks.rootRelated id)
  have ofProperty {id target : TypeId} {name : Text}
      (found : (world.typing.graph.node (world.typing.graph.root id)).properties.lookup name =
        some target) : Entails more (world.label target) (.property (world.label id) name) := by
    obtain ⟨asked, answer, member, owner, same⟩ :=
      tracks.propertyRelated _ _ _ (TypeGraph.mem_of_lookup found)
    have ownerEq := (good.explained.entails owner).trans (toRoot id).symm
    exact (good.explained.entails same).symm.trans
      ((good.explained.answered asked name answer member).trans (.property name ownerEq))
  induction congruent with
  | sameClass same => exact (toRoot _).trans (same ▸ (toRoot _).symm)
  | paired member => exact justified _ member
  | symm _ ih => exact ih.symm
  | trans _ _ first second => exact first.trans second
  | property _ found found' ih =>
    exact (ofProperty found).trans ((Entails.property _ ih).trans (ofProperty found').symm)

theorem Good.queued (good : world.Good more) {pairs : List (TypeId × TypeId)} {later : TypeGraph}
    {recorded : TypeGraph.History}
    (queued : world.typing.graph.Queued world.history pairs later recorded)
    (justified : ∀ pair ∈ pairs, Entails more (world.label pair.1) (world.label pair.2)) :
    let after : World := ⟨{ world.typing with graph := later }, recorded, world.label⟩
    after.Good more ∧ world.Extends after := by
  have sizeEq : later.size = world.size := queued.size
  have grown : world.Extends ⟨{ world.typing with graph := later }, recorded, world.label⟩ :=
    ⟨Nat.le_of_eq sizeEq.symm, fun _ _ => rfl, queued.earlier, fun _ _ found => found,
      fun _ _ found => found, fun _ member => member⟩
  refine ⟨?_, grown⟩
  exact {
    run := queued.run
    explained := ⟨fun left right member =>
        good.explained.unified left right (queued.unified left right member),
      fun left right member => (queued.deferred left right member).elim
        (good.explained.deferred left right) (good.entails_of_congruent justified),
      fun id name answer member =>
        good.explained.answered id name answer (queued.answered id name answer member)⟩
    asked := fun id name answer member => by
      obtain ⟨owner, requested, denotes⟩ :=
        good.asked id name answer (queued.answered id name answer member)
      exact ⟨owner, requested, grown.denotes denotes⟩
    marked := fun id member => good.marked id (queued.marked id member)
    globalIn := Nat.lt_of_lt_of_eq good.globalIn sizeEq.symm
    globalLabel := good.globalLabel
    types := fun address id found => by
      obtain ⟨inside, rest⟩ := good.types address id found
      exact ⟨Nat.lt_of_lt_of_eq inside sizeEq.symm, rest⟩
    boundOnce := fun scope name left right leftIn rightIn => good.boundOnce scope name left right
      (Nat.lt_of_lt_of_eq leftIn sizeEq) (Nat.lt_of_lt_of_eq rightIn sizeEq)
    methods := grown.methodsOf good rfl }

structure Inferred (root : Node) (world : World) : Prop where
  good : world.Good (WithReceivers root.Demands)
  meets : world.Meets (WithReceivers root.Demands)
  settled : world.typing.graph.pending = []
  scopes : ∀ place : Occurrence, place.IsIn root → place.node.isShadowing = true →
    (root.use? place.address).isSome = true → world.Left place

theorem Good.complete {world : World} (good : world.Good constraints) :
    (world.perform .complete .global).Good constraints ∧
      world.Extends (world.perform .complete .global) ∧
      (world.perform .complete .global).typing.graph.pending = [] := by
  have noOperand : ∀ id ∈ Operation.complete.operands, id < world.size := by
    simp [Operation.operands]
  exact ⟨good.perform noOperand trivial (by simp), extends_perform good.run noOperand _,
    (TypeGraph.tracks_complete (TypeGraph.tracks_of_run good.run)).2⟩

theorem exists_resolveReceivers {world : World} (good : world.Good constraints)
    (meets : world.Meets constraints) :
    ∃ after : World, after.typing = world.typing.resolveReceivers.typing ∧
      after.Good (WithReceivers constraints) ∧ after.Meets (WithReceivers constraints) ∧
      after.typing.graph.pending = [] ∧ world.Extends after := by
  obtain ⟨good₁, grown₁, none₁⟩ := good.complete
  have meets₁ : (world.perform .complete .global).Meets constraints :=
    fun constraint demanded => grown₁.satisfies (meets constraint demanded)
  have more (constraint : Constraint) (demanded : constraints constraint) :
      WithReceivers constraints constraint := .inl demanded
  have inside : ∀ pair ∈ world.typing.methods, pair.1 < (world.perform .complete .global).size ∧
      pair.2 < (world.perform .complete .global).size := by
    intro pair member
    obtain ⟨base, receiver, _, ofBase, ofReceiver⟩ := good₁.methods pair member
    exact ⟨good₁.lt_size ofBase, good₁.lt_size ofReceiver⟩
  have settled_iff (pair : TypeId × TypeId) :
      pair ∈ world.typing.graph.complete.2.settled world.typing.methods ↔
        pair ∈ world.typing.methods ∧ (world.perform .complete .global).isNamespace pair.1 = false ∧
          (world.perform .complete .global).isNamespace pair.2 = false := by
    rw [TypeGraph.settled, List.mem_filter, Bool.and_eq_true, Bool.not_eq_true', Bool.not_eq_true']
    rfl
  have justified : ∀ pair ∈ world.typing.graph.complete.2.settled world.typing.methods,
      Entails (WithReceivers constraints) ((world.perform .complete .global).label pair.1)
        ((world.perform .complete .global).label pair.2) := by
    intro pair settled
    obtain ⟨member, notBase, notReceiver⟩ := (settled_iff pair).1 settled
    obtain ⟨base, receiver, demanded, ofBase, ofReceiver⟩ := good₁.methods pair member
    have notBase' := mt (good₁.isNamespace_iff none₁ meets₁ ofBase).2 (by simp [notBase])
    have notReceiver' :=
      mt (good₁.isNamespace_iff none₁ meets₁ ofReceiver).2 (by simp [notReceiver])
    have same : Entails (WithReceivers constraints) base receiver :=
      .given (.inr ⟨base, receiver, rfl, demanded, notBase', notReceiver'⟩)
    exact ((good₁.mono more).entails_label ofBase).symm.trans
      (same.trans ((good₁.mono more).entails_label ofReceiver))
  obtain ⟨_, _, queued⟩ := (TypeGraph.Queued.refl good₁.run).queueReceivers inside 0
  obtain ⟨good₂, grown₂⟩ := (good₁.mono more).queued queued justified
  obtain ⟨good₃, grown₃, none₃⟩ := good₂.complete
  have grown := grown₁.trans (grown₂.trans grown₃)
  refine ⟨_, rfl, good₃, ?_, none₃, grown⟩
  · rintro constraint (demanded | ⟨base, receiver, rfl, demanded, notBase, notReceiver⟩)
    · exact grown.satisfies (meets constraint demanded)
    · obtain ⟨pair, member, ofBase, ofReceiver⟩ := meets₁ _ demanded
      have isRelated := queued.waits pair ((settled_iff pair).2 ⟨member,
        Bool.eq_false_iff.2 (mt (good₁.isNamespace_iff none₁ meets₁ ofBase).1 notBase),
        Bool.eq_false_iff.2 (mt (good₁.isNamespace_iff none₁ meets₁ ofReceiver).1 notReceiver)⟩)
      have later := grown₂.trans grown₃
      exact ⟨pair.1, later.denotes ofBase,
        (later.denotes ofReceiver).of_related (grown₃.related isRelated).symm⟩

end World

theorem exists_inferred {root : Node} (shaped : root.Shaped) :
    ∃ (inference : Inference) (world : World), root.codebase.infer = .ok inference ∧
      world.typing = inference.typing ∧ world.Inferred root := by
  obtain ⟨visited, visitEq, good, done⟩ := exists_visited shaped
  have meets : visited.Meets root.Demands := by
    rintro constraint ⟨place, inside, member⟩
    exact (done place inside (List.nil_suffix)).demands constraint member
  obtain ⟨world, typingEq, worldGood, worldMeets, none, grown⟩ :=
    World.exists_resolveReceivers good meets
  refine ⟨visited.typing.resolveReceivers, world, ?_, typingEq, worldGood, worldMeets, none, ?_⟩
  · rw [Codebase.infer]
    exact congrArg (· >>= fun entry => pure entry.2.resolveReceivers) visitEq
  · intro place inside isShadowing used
    exact grown.left ((done place inside List.nil_suffix).scope isShadowing used)

end Namesake
