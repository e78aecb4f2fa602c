import Namesake.Proofs.Inference.Constraint
import Namesake.Proofs.TypeGraph.Closure
import Namesake.Proofs.TypeGraph.Growth

/-!
A `World` is a state of inference together with the operations that led to its graph and a name
for each of its types.  In a good world every operation has a reason in the constraints.
-/

namespace Namesake

open TypeGraph (History Operation Run Related)

/-- A state of inference, its history, and a name for each type. -/
structure World where
  typing : Typing
  history : History
  label : TypeId → TypeName

namespace World

variable {operation : Operation} {id : TypeId} {type name : TypeName}
variable {world : World} {constraints : Constraint → Prop}

def size (world : World) : Nat :=
  world.typing.graph.size

def Denotes (world : World) : TypeName → TypeId → Prop
  | .global, id => Related world.history Typing.globalType id
  | .node address, id =>
    ∃ type, world.typing.type? address = some type ∧ Related world.history type id
  | .bound scope name, id =>
    ∃ type, type < world.size ∧ world.label type = .bound scope name ∧
      Related world.history type id
  | .property owner name, id =>
    ∃ base answer, Denotes world owner base ∧
      (.property base name, some answer) ∈ world.history ∧ Related world.history answer id

def Satisfies (world : World) : Constraint → Prop
  | .same left right => ∃ id, world.Denotes left id ∧ world.Denotes right id
  | .marked type => ∃ id, world.Denotes type id ∧ (.markNamespace id, none) ∈ world.history
  | .method base receiver => ∃ pair ∈ world.typing.methods,
      world.Denotes base pair.1 ∧ world.Denotes receiver pair.2

theorem Denotes.of_related {other : TypeId} (denotes : world.Denotes type id)
    (related : Related world.history id other) :
    world.Denotes type other := by
  cases type with
  | global => exact denotes.trans related
  | node address =>
    obtain ⟨found, isType, same⟩ := denotes
    exact ⟨found, isType, same.trans related⟩
  | bound scope name =>
    obtain ⟨found, inside, labelled, same⟩ := denotes
    exact ⟨found, inside, labelled, same.trans related⟩
  | property owner name =>
    obtain ⟨base, answer, ofOwner, asked, same⟩ := denotes
    exact ⟨base, answer, ofOwner, asked, same.trans related⟩

/-- A world that keeps all that an earlier one has. -/
structure Extends (before after : World) : Prop where
  size : before.size ≤ after.size
  label : ∀ id, id < before.size → after.label id = before.label id
  history : before.history <:+ after.history
  types : ∀ address id, before.typing.type? address = some id →
    after.typing.type? address = some id
  envs : ∀ scope env, before.typing.env? scope = some env → after.typing.env? scope = some env
  methods : ∀ pair ∈ before.typing.methods, pair ∈ after.typing.methods

namespace Extends

variable {first second third : World}

theorem refl (world : World) : world.Extends world :=
  ⟨Nat.le_refl _, fun _ _ => rfl, List.suffix_refl _, fun _ _ found => found,
    fun _ _ found => found, fun _ member => member⟩

theorem trans (left : first.Extends second) (right : second.Extends third) :
    first.Extends third where
  size := left.size.trans right.size
  label id inside := by
    rw [right.label id (Nat.lt_of_lt_of_le inside left.size), left.label id inside]
  history := left.history.trans right.history
  types address id found := right.types address id (left.types address id found)
  envs scope env found := right.envs scope env (left.envs scope env found)
  methods pair member := right.methods pair (left.methods pair member)

theorem related (grown : first.Extends second) {left right : TypeId}
    (related : Related first.history left right) : Related second.history left right :=
  related.of_suffix grown.history

theorem denotes (grown : first.Extends second) {type : TypeName} {id : TypeId}
    (denotes : first.Denotes type id) : second.Denotes type id := by
  induction type generalizing id with
  | global => exact grown.related denotes
  | node address =>
    obtain ⟨found, isType, same⟩ := denotes
    exact ⟨found, grown.types address found isType, grown.related same⟩
  | bound scope name =>
    obtain ⟨found, inside, labelled, same⟩ := denotes
    exact ⟨found, Nat.lt_of_lt_of_le inside grown.size, (grown.label found inside).trans labelled,
      grown.related same⟩
  | property owner name ih =>
    obtain ⟨base, answer, ofOwner, asked, same⟩ := denotes
    exact ⟨base, answer, ih ofOwner, grown.history.subset asked, grown.related same⟩

theorem satisfies (grown : first.Extends second) {constraint : Constraint}
    (satisfies : first.Satisfies constraint) : second.Satisfies constraint := by
  cases constraint with
  | same left right =>
    obtain ⟨id, ofLeft, ofRight⟩ := satisfies
    exact ⟨id, grown.denotes ofLeft, grown.denotes ofRight⟩
  | marked type =>
    obtain ⟨id, ofType, marked⟩ := satisfies
    exact ⟨id, grown.denotes ofType, grown.history.subset marked⟩
  | method base receiver =>
    obtain ⟨pair, member, ofBase, ofReceiver⟩ := satisfies
    exact ⟨pair, grown.methods pair member, grown.denotes ofBase, grown.denotes ofReceiver⟩

end Extends

/-- Whether the steps of a history follow from constraints on what types are made for. -/
structure Explained (constraints : Constraint → Prop) (history : History)
    (label : TypeId → TypeName) : Prop where
  unified : ∀ left right, (.unify left right, none) ∈ history →
    Entails constraints (label left) (label right)
  deferred : ∀ left right, (.unifyLater left right, none) ∈ history →
    Entails constraints (label left) (label right)
  answered : ∀ id name answer, (.property id name, some answer) ∈ history →
    Entails constraints (label answer) (.property (label id) name)

theorem Explained.entails {history : History} {label : TypeId → TypeName}
    (explained : Explained constraints history label) {left right : TypeId}
    (related : Related history left right) :
    Entails constraints (label left) (label right) := by
  induction related with
  | refl id => exact .refl _
  | symm _ ih => exact ih.symm
  | trans _ _ first second => exact first.trans second
  | unified member => exact explained.unified _ _ member
  | deferred member => exact explained.deferred _ _ member
  | property _ member member' ih =>
    have first := explained.answered _ _ _ member
    have second := explained.answered _ _ _ member'
    exact first.trans ((Entails.property _ ih).trans second.symm)

/-- A world in which everything has a reason in the constraints, and every name that a scope binds has
one type. -/
structure Good (constraints : Constraint → Prop) (world : World) : Prop where
  run : Run world.history world.typing.graph
  explained : Explained constraints world.history world.label
  asked : ∀ id name answer, (.property id name, some answer) ∈ world.history →
    ∃ owner, Requests constraints (.property owner name) ∧ world.Denotes owner id
  marked : ∀ id, (.markNamespace id, none) ∈ world.history →
    ∃ type, constraints (.marked type) ∧ Entails constraints type (world.label id)
  globalIn : Typing.globalType < world.size
  globalLabel : world.label Typing.globalType = .global
  types : ∀ address id, world.typing.type? address = some id →
    id < world.size ∧ Mentions constraints address ∧
      Entails constraints (.node address) (world.label id)
  boundOnce : ∀ scope name left right, left < world.size → right < world.size →
    world.label left = .bound scope name → world.label right = .bound scope name → left = right
  methods : ∀ pair ∈ world.typing.methods, ∃ base receiver,
    constraints (.method base receiver) ∧ world.Denotes base pair.1 ∧
      world.Denotes receiver pair.2

theorem Extends.askedOf {before after : World} (grown : before.Extends after)
    (good : before.Good constraints) (history : after.history = before.history) :
    ∀ id name answer, (.property id name, some answer) ∈ after.history →
      ∃ owner, Requests constraints (.property owner name) ∧ after.Denotes owner id := by
  intro id name answer member
  rw [history] at member
  obtain ⟨owner, requested, denotes⟩ := good.asked id name answer member
  exact ⟨owner, requested, grown.denotes denotes⟩

theorem Extends.methodsOf {before after : World} (grown : before.Extends after)
    (good : before.Good constraints) (methods : after.typing.methods = before.typing.methods) :
    ∀ pair ∈ after.typing.methods, ∃ base receiver, constraints (.method base receiver) ∧
      after.Denotes base pair.1 ∧ after.Denotes receiver pair.2 := by
  intro pair member
  rw [methods] at member
  obtain ⟨base, receiver, demanded, ofBase, ofReceiver⟩ := good.methods pair member
  exact ⟨base, receiver, demanded, grown.denotes ofBase, grown.denotes ofReceiver⟩

namespace Good

variable {constraints : Constraint → Prop} {world : World}

theorem lt_size (good : world.Good constraints) (denotes : world.Denotes type id) :
    id < world.size := by
  cases type with
  | global => exact (denotes.lt_iff good.run).1 good.globalIn
  | node address =>
    obtain ⟨found, isType, same⟩ := denotes
    exact (same.lt_iff good.run).1 (good.types address found isType).1
  | bound scope name =>
    obtain ⟨found, inside, _, same⟩ := denotes
    exact (same.lt_iff good.run).1 inside
  | property owner name =>
    obtain ⟨base, answer, _, asked, same⟩ := denotes
    exact (same.lt_iff good.run).1 ((good.run.inside asked).2 answer rfl)

theorem entails_label (good : world.Good constraints) (denotes : world.Denotes type id) :
    Entails constraints type (world.label id) := by
  induction type generalizing id with
  | global =>
    have same := good.explained.entails denotes
    rw [good.globalLabel] at same
    exact same
  | node address =>
    obtain ⟨found, isType, same⟩ := denotes
    exact (good.types address found isType).2.2.trans (good.explained.entails same)
  | bound scope name =>
    obtain ⟨found, _, labelled, same⟩ := denotes
    rw [← labelled]
    exact good.explained.entails same
  | property owner name ih =>
    obtain ⟨base, answer, ofOwner, asked, same⟩ := denotes
    have ofAnswer := good.explained.answered base name answer asked
    exact (Entails.property name (ih ofOwner)).trans
      (ofAnswer.symm.trans (good.explained.entails same))

theorem related (good : world.Good constraints) {left right : TypeId}
    (ofLeft : world.Denotes type left) (ofRight : world.Denotes type right) :
    Related world.history left right := by
  induction type generalizing left right with
  | global => exact ofLeft.symm.trans ofRight
  | node address =>
    obtain ⟨found, isType, same⟩ := ofLeft
    obtain ⟨found', isType', same'⟩ := ofRight
    rw [isType] at isType'
    cases isType'
    exact same.symm.trans same'
  | bound scope name =>
    obtain ⟨found, inside, labelled, same⟩ := ofLeft
    obtain ⟨found', inside', labelled', same'⟩ := ofRight
    obtain rfl := good.boundOnce scope name found found' inside inside' labelled labelled'
    exact same.symm.trans same'
  | property owner name ih =>
    obtain ⟨base, answer, ofOwner, asked, same⟩ := ofLeft
    obtain ⟨base', answer', ofOwner', asked', same'⟩ := ofRight
    have answers := Related.property (ih ofOwner ofOwner') asked asked'
    exact same.symm.trans (answers.trans same')

end Good

/-- The world after an operation, with a name for the type that may be new. -/
def perform (world : World) (operation : Operation) (name : TypeName) : World where
  typing := { world.typing with graph := (world.typing.graph.perform operation).2 }
  history := (operation, (world.typing.graph.perform operation).1) :: world.history
  label id := if id < world.size then world.label id else name

theorem label_perform_of_lt (isOld : id < world.size) :
    (world.perform operation name).label id = world.label id :=
  if_pos isOld

theorem label_perform_of_not_lt (isNew : ¬ id < world.size) :
    (world.perform operation name).label id = name :=
  if_neg isNew

/-- Whether an operation has a reason in the constraints, where a type that is new is given a name. -/
def Justifies (constraints : Constraint → Prop) (world : World) (name : TypeName) :
    Operation → Prop
  | .property id property => name = .property (world.label id) property ∧
      ∃ owner, Requests constraints (.property owner property) ∧ world.Denotes owner id
  | .unify left right => Entails constraints (world.label left) (world.label right)
  | .unifyLater left right => Entails constraints (world.label left) (world.label right)
  | .markNamespace id =>
    ∃ type, constraints (.marked type) ∧ Entails constraints type (world.label id)
  | _ => True

section Perform

variable {constraints : Constraint → Prop} {world : World}

theorem extends_perform (run : Run world.history world.typing.graph)
    (inside : ∀ id ∈ operation.operands, id < world.size) (name : TypeName) :
    world.Extends (world.perform operation name) where
  size := (TypeGraph.perform_spec (TypeGraph.tracks_of_run run) operation inside).1
  label _ isOld := label_perform_of_lt isOld
  history := List.suffix_cons _ _
  types _ _ found := found
  envs _ _ found := found
  methods _ member := member

theorem Explained.answer {history : History} {label : TypeId → TypeName} {graph : TypeGraph}
    (explained : Explained constraints history label) (run : Run history graph)
    (inside : id < graph.size) {name : Text} (isOld : (graph.property id name).1 < graph.size) :
    Entails constraints (label (graph.property id name).1) (.property (label id) name) := by
  have tracks := TypeGraph.tracks_of_run run
  cases found : (graph.node (graph.root id)).properties.lookup name with
  | none =>
    obtain ⟨answerEq, _⟩ := TypeGraph.property_of_missing tracks.forest inside found
    rw [answerEq] at isOld
    exact absurd isOld (Nat.lt_irrefl _)
  | some target =>
    obtain ⟨answerEq, _⟩ := TypeGraph.property_of_lookup tracks.forest found
    obtain ⟨asked, answer, inHistory, sameOwner, sameTarget⟩ :=
      tracks.propertyRelated _ name target (TypeGraph.mem_of_lookup found)
    have owners := explained.entails (sameOwner.trans (tracks.rootRelated id).symm)
    have targets := explained.entails (sameTarget.trans (tracks.rootRelated target))
    rw [answerEq]
    exact targets.symm.trans
      ((explained.answered asked name answer inHistory).trans (.property name owners))

theorem Good.explained_perform (good : world.Good constraints)
    (inside : ∀ id ∈ operation.operands, id < world.size)
    (justified : world.Justifies constraints name operation) :
    Explained constraints (world.perform operation name).history
      (world.perform operation name).label := by
  refine ⟨fun left right member => ?_, fun left right member => ?_,
    fun id property answer member => ?_⟩
  · rcases List.mem_cons.mp member with now | before
    · cases operation <;> cases now
      rw [label_perform_of_lt (inside left (.head _)),
        label_perform_of_lt (inside right (.tail _ (.head _)))]
      exact justified
    · have operands := (good.run.inside before).1
      rw [label_perform_of_lt (operands left (.head _)),
        label_perform_of_lt (operands right (.tail _ (.head _)))]
      exact good.explained.unified left right before
  · rcases List.mem_cons.mp member with now | before
    · cases operation <;> cases now
      rw [label_perform_of_lt (inside left (.head _)),
        label_perform_of_lt (inside right (.tail _ (.head _)))]
      exact justified
    · have operands := (good.run.inside before).1
      rw [label_perform_of_lt (operands left (.head _)),
        label_perform_of_lt (operands right (.tail _ (.head _)))]
      exact good.explained.deferred left right before
  · rcases List.mem_cons.mp member with now | before
    · cases operation <;> cases now
      rw [label_perform_of_lt (inside id (.head _))]
      by_cases isOld : (world.typing.graph.property id property).1 < world.size
      · rw [label_perform_of_lt isOld]
        exact good.explained.answer good.run (inside id (.head _)) isOld
      · rw [label_perform_of_not_lt isOld, show name = _ from justified.1]
        exact .refl _
    · obtain ⟨operands, answers⟩ := good.run.inside before
      rw [label_perform_of_lt (operands id (.head _)),
        label_perform_of_lt (answers answer rfl)]
      exact good.explained.answered id property answer before

theorem Good.perform (good : world.Good constraints)
    (inside : ∀ id ∈ operation.operands, id < world.size)
    (justified : world.Justifies constraints name operation)
    (unbound : ∀ scope text id, name = .bound scope text → id < world.size → world.label id ≠
      .bound scope text) :
    (world.perform operation name).Good constraints := by
  have grown := extends_perform good.run inside name
  obtain ⟨_, atMost, _⟩ :=
    TypeGraph.perform_spec (TypeGraph.tracks_of_run good.run) operation inside
  refine
    { run := good.run.step operation inside
      explained := good.explained_perform inside justified
      asked := ?_
      marked := ?_
      globalIn := Nat.lt_of_lt_of_le good.globalIn grown.size
      globalLabel := (label_perform_of_lt good.globalIn).trans good.globalLabel
      types := ?_
      boundOnce := ?_
      methods := ?_ }
  · intro id property answer member
    rcases List.mem_cons.mp member with now | before
    · cases operation <;> cases now
      obtain ⟨_, owner, requested, denotes⟩ := justified
      exact ⟨owner, requested, grown.denotes denotes⟩
    · obtain ⟨owner, requested, denotes⟩ := good.asked id property answer before
      exact ⟨owner, requested, grown.denotes denotes⟩
  · intro id member
    rcases List.mem_cons.mp member with now | before
    · cases operation <;> cases now
      rw [label_perform_of_lt (inside id (.head _))]
      exact justified
    · rw [label_perform_of_lt ((good.run.inside before).1 id (.head _))]
      exact good.marked id before
  · intro address id found
    obtain ⟨isOld, mentioned, entails⟩ := good.types address id found
    rw [label_perform_of_lt isOld]
    exact ⟨Nat.lt_of_lt_of_le isOld grown.size, mentioned, entails⟩
  · intro scope text left right leftIn rightIn leftLabel rightLabel
    -- A type that is new is the only one, and its name is not that of an old type.
    have old {id : TypeId} (labelled : (world.perform operation name).label id = .bound scope text)
        {other : TypeId} (isOld : other < world.size)
        (otherLabel : (world.perform operation name).label other = .bound scope text) :
        id < world.size := by
      by_contra isNew
      rw [label_perform_of_not_lt isNew] at labelled
      rw [label_perform_of_lt isOld] at otherLabel
      exact unbound scope text other labelled isOld otherLabel
    by_cases leftOld : left < world.size
    · have rightOld := old rightLabel leftOld leftLabel
      rw [label_perform_of_lt leftOld] at leftLabel
      rw [label_perform_of_lt rightOld] at rightLabel
      exact good.boundOnce scope text left right leftOld rightOld leftLabel rightLabel
    · have rightNew : ¬ right < world.size := fun rightOld =>
        leftOld (old leftLabel rightOld rightLabel)
      have leftLast : left < world.size + 1 := Nat.lt_of_lt_of_le leftIn atMost
      have rightLast : right < world.size + 1 := Nat.lt_of_lt_of_le rightIn atMost
      exact Nat.le_antisymm (Nat.le_trans (Nat.le_of_lt_succ leftLast) (Nat.not_lt.1 rightNew))
        (Nat.le_trans (Nat.le_of_lt_succ rightLast) (Nat.not_lt.1 leftOld))
  · exact grown.methodsOf good rfl

end Perform

end World

end Namesake
