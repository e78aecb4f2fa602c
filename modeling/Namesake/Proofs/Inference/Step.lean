import Namesake.Proofs.Inference.World

/-!
Each step leads from a good world to a good one that extends it.
-/

namespace Namesake

open Typing

open TypeGraph (Operation Run Related)

variable {address : Address} {name : Text} {id : TypeId}

namespace World

/-- A good world after steps that gave types to some nodes and went through some scopes. -/
structure Advance (constraints : Constraint → Prop) (typed entered : Address → Prop)
    (before after : World) : Prop where
  good : after.Good constraints
  grown : before.Extends after
  stack : after.typing.stack = before.typing.stack
  types : ∀ address, ¬ typed address → after.typing.type? address = before.typing.type? address
  envs : ∀ scope, ¬ entered scope → after.typing.env? scope = before.typing.env? scope
  names : ∀ scope name id, ¬ entered scope → id < after.size →
    after.label id = .bound scope name → id < before.size

abbrev Within (constraints : Constraint → Prop) (address : Address) (before after : World) : Prop :=
  Advance constraints (address <:+ ·) (address <:+ ·) before after

structure Untouched (world : World) (address : Address) : Prop where
  type : world.typing.type? address = none
  env : world.typing.env? address = none
  names : ∀ name id, id < world.size → world.label id ≠ .bound address name

variable {constraints : Constraint → Prop} {typed entered typed' entered' : Address → Prop}
  {first second third : World}

namespace Advance

theorem refl (good : first.Good constraints) : Advance constraints typed entered first first :=
  ⟨good, .refl first, rfl, fun _ _ => rfl, fun _ _ => rfl, fun _ _ _ _ inside _ => inside⟩

theorem trans (left : Advance constraints typed entered first second)
    (right : Advance constraints typed entered second third) :
    Advance constraints typed entered first third where
  good := right.good
  grown := left.grown.trans right.grown
  stack := right.stack.trans left.stack
  types address outside := (right.types address outside).trans (left.types address outside)
  envs scope outside := (right.envs scope outside).trans (left.envs scope outside)
  names scope name id outside inside labelled := by
    have isOld := right.names scope name id outside inside labelled
    rw [right.grown.label id isOld] at labelled
    exact left.names scope name id outside isOld labelled

theorem mono (advance : Advance constraints typed entered first second)
    (typedMore : ∀ address, typed address → typed' address)
    (enteredMore : ∀ scope, entered scope → entered' scope) :
    Advance constraints typed' entered' first second where
  good := advance.good
  grown := advance.grown
  stack := advance.stack
  types address outside := advance.types address fun inside => outside (typedMore address inside)
  envs scope outside := advance.envs scope fun inside => outside (enteredMore scope inside)
  names scope name id outside :=
    advance.names scope name id fun inside => outside (enteredMore scope inside)

theorem untouched (advance : Advance constraints typed entered first second)
    (notTyped : ¬ typed address) (notEntered : ¬ entered address)
    (before : first.Untouched address) : second.Untouched address where
  type := (advance.types address notTyped).trans before.type
  env := (advance.envs address notEntered).trans before.env
  names name id inside labelled := by
    have isOld := advance.names address name id notEntered inside labelled
    rw [advance.grown.label id isOld] at labelled
    exact before.names name id isOld labelled

end Advance

theorem Within.outer {step : Step} (within : Within constraints (step :: address) first second) :
    Within constraints address first second :=
  within.mono (fun _ => (List.suffix_cons step address).trans)
    (fun _ => (List.suffix_cons step address).trans)

theorem advance_perform (good : first.Good constraints) {operation : Operation} {name : TypeName}
    (inside : ∀ id ∈ operation.operands, id < first.size)
    (justified : first.Justifies constraints name operation)
    (unbound : ∀ scope text, name ≠ .bound scope text) :
    Advance constraints typed entered first (first.perform operation name) where
  good := good.perform inside justified fun scope text _ isBound =>
    absurd isBound (unbound scope text)
  grown := extends_perform good.run inside name
  stack := rfl
  types _ _ := rfl
  envs _ _ := rfl
  names scope text id _ _ labelled := by
    by_contra isNew
    rw [label_perform_of_not_lt isNew] at labelled
    exact unbound scope text labelled

theorem advance_setType (good : first.Good constraints) (inside : id < first.size)
    (missing : first.typing.type? address = none) (mentioned : Mentions constraints address)
    (entails : Entails constraints (.node address) (first.label id)) (isTyped : typed address) :
    Advance constraints typed entered first { first with
      typing := { first.typing with types := (address, id) :: first.typing.types } } := by
  have lookup (other : Address) (different : other ≠ address) :
      List.lookup other ((address, id) :: first.typing.types) = first.typing.type? other := by
    rw [List.lookup_cons, beq_eq_false_iff_ne.2 different]
    rfl
  have grown : first.Extends { first with
      typing := { first.typing with types := (address, id) :: first.typing.types } } := by
    refine { Extends.refl first with types := fun other type found => ?_ }
    rw [type?, lookup other ?_]
    · exact found
    · rintro rfl
      rw [missing] at found
      cases found
  refine ⟨{ good with
      asked := grown.askedOf good rfl
      types := ?_
      methods := grown.methodsOf good rfl }, grown, rfl, ?_,
    fun _ _ => rfl, fun _ _ _ _ inside _ => inside⟩
  · intro other type found
    by_cases same : other = address
    · subst same
      simp only [type?, List.lookup_cons_self, Option.some.injEq] at found
      subst found
      exact ⟨inside, mentioned, entails⟩
    · rw [type?, lookup other same] at found
      exact good.types other type found
  · intro other outside
    exact lookup other fun same => outside (same ▸ isTyped)

end World

namespace Infer

variable {α β : Type} {before : World}

/-- A step succeeds, and a relation holds for its result and some world after it. -/
def Runs (step : Infer α) (before : World) (post : α → World → Prop) : Prop :=
  ∃ (result : α) (after : World), step before.typing = .ok (result, after.typing) ∧
    post result after

theorem Runs.pure {result : α} (holds : post result before) :
    Runs (pure result) before post :=
  ⟨result, before, rfl, holds⟩

theorem Runs.bind {step : Infer α} {next : α → Infer β} {middle : α → World → Prop}
    {post : β → World → Prop} (runs : Runs step before middle)
    (goesOn : ∀ result after, middle result after → Runs (next result) after post) :
    Runs (step >>= next) before post := by
  obtain ⟨result, after, stepEq, holds⟩ := runs
  obtain ⟨final, last, nextEq, reached⟩ := goesOn result after holds
  refine ⟨final, last, ?_, reached⟩
  change (step before.typing >>= fun entry => next entry.1 entry.2) = _
  rw [stepEq]
  exact nextEq

theorem Runs.mono {step : Infer α} {weaker : α → World → Prop} (runs : Runs step before post)
    (implies : ∀ result after, post result after → weaker result after) :
    Runs step before weaker := by
  obtain ⟨result, after, stepEq, holds⟩ := runs
  exact ⟨result, after, stepEq, implies result after holds⟩

theorem Runs.ite {condition : Prop} [Decidable condition] {first second : Infer α}
    (yes : condition → Runs first before post) (no : ¬ condition → Runs second before post) :
    Runs (if condition then first else second) before post := by
  by_cases holds : condition
  · rw [if_pos holds]
    exact yes holds
  · rw [if_neg holds]
    exact no holds

theorem Runs.get_bind {next : Typing → Infer α} (runs : Runs (next before.typing) before post) :
    Runs (get >>= next) before post :=
  runs

open World

variable {constraints : Constraint → Prop} {typed entered : Address → Prop} {origin : World}
variable {post : α → World → Prop}

section Operations

variable (advance : Advance constraints typed entered origin before)

include advance

theorem runs_property {owner : TypeName} (denotes : before.Denotes owner id) {name : Text}
    (requested : Requests constraints (.property owner name)) :
    Runs (property id name) before fun answer after =>
      Advance constraints typed entered origin after ∧ before.Extends after ∧
        after.Denotes (.property owner name) answer := by
  have inside : ∀ operand ∈ (Operation.property id name).operands, operand < before.size := by
    simpa [Operation.operands] using advance.good.lt_size denotes
  have justified : before.Justifies constraints (.property (before.label id) name)
      (.property id name) :=
    ⟨rfl, owner, requested, denotes⟩
  have grown := extends_perform advance.good.run inside (.property (before.label id) name)
  refine ⟨_, before.perform (.property id name) (.property (before.label id) name), rfl,
    advance.trans (advance_perform advance.good inside justified (by simp)), grown, id, _, ?_,
    List.mem_cons_self, .refl _⟩
  exact grown.denotes denotes

theorem runs_unify {left right : TypeName} {first second : TypeId}
    (ofLeft : before.Denotes left first) (ofRight : before.Denotes right second)
    (demanded : constraints (.same left right)) :
    Runs (unify first second) before fun _ after =>
      Advance constraints typed entered origin after ∧ before.Extends after ∧
        after.Satisfies (.same left right) := by
  have good := advance.good
  have inside : ∀ operand ∈ (Operation.unify first second).operands, operand < before.size := by
    simpa [Operation.operands] using ⟨good.lt_size ofLeft, good.lt_size ofRight⟩
  have justified : Entails constraints (before.label first) (before.label second) :=
    (good.entails_label ofLeft).symm.trans
      ((Entails.given demanded).trans (good.entails_label ofRight))
  have grown := extends_perform good.run inside TypeName.global
  refine ⟨_, before.perform (.unify first second) .global, rfl,
    advance.trans (advance_perform good inside justified (by simp)), grown, first,
    grown.denotes ofLeft, ?_⟩
  exact (grown.denotes ofRight).of_related (.symm (.unified List.mem_cons_self))

theorem runs_markNamespace {type : TypeName} (denotes : before.Denotes type id)
    (demanded : constraints (.marked type)) :
    Runs (markNamespace id) before fun _ after =>
      Advance constraints typed entered origin after ∧ before.Extends after ∧
        after.Satisfies (.marked type) := by
  have good := advance.good
  have inside : ∀ operand ∈ (Operation.markNamespace id).operands, operand < before.size := by
    simpa [Operation.operands] using good.lt_size denotes
  have justified : before.Justifies constraints .global (.markNamespace id) :=
    ⟨type, demanded, good.entails_label denotes⟩
  have grown := extends_perform good.run inside TypeName.global
  exact ⟨_, before.perform (.markNamespace id) .global, rfl,
    advance.trans (advance_perform good inside justified (by simp)), grown, id,
    grown.denotes denotes, List.mem_cons_self⟩

theorem runs_addMethod {base receiver : TypeName} {first second : TypeId}
    (ofBase : before.Denotes base first) (ofReceiver : before.Denotes receiver second)
    (demanded : constraints (.method base receiver)) :
    Runs (addMethod first second) before fun _ after =>
      Advance constraints typed entered origin after ∧ before.Extends after ∧
        after.Satisfies (.method base receiver) := by
  have good := advance.good
  let after : World := { before with
    typing := { before.typing with methods := before.typing.methods ++ [(first, second)] } }
  have grown : before.Extends after :=
    { Extends.refl before with methods := fun _ => List.mem_append_left _ }
  have good' : after.Good constraints := { good with
    asked := grown.askedOf good rfl
    methods := by
      intro pair member
      rcases List.mem_append.1 member with old | new
      · obtain ⟨base, receiver, demanded, ofBase, ofReceiver⟩ := good.methods pair old
        exact ⟨base, receiver, demanded, grown.denotes ofBase, grown.denotes ofReceiver⟩
      · obtain rfl := List.mem_singleton.1 new
        exact ⟨base, receiver, demanded, grown.denotes ofBase, grown.denotes ofReceiver⟩ }
  refine ⟨_, after, rfl, advance.trans { Advance.refl good with good := good', grown }, grown,
    (first, second), ?_, grown.denotes ofBase, grown.denotes ofReceiver⟩
  exact List.mem_append_right _ List.mem_cons_self

theorem runs_setType {type : TypeName} (missing : before.typing.type? address = none)
    (denotes : before.Denotes type id) (demanded : constraints (.same (.node address) type))
    (isTyped : typed address) :
    Runs (setType address id) before fun _ after =>
      Advance constraints typed entered origin after ∧ before.Extends after ∧
        after.Satisfies (.same (.node address) type) := by
  have good := advance.good
  have mentioned : Mentions constraints address :=
    ⟨_, demanded, by simp [Constraint.nodes, TypeName.nodes]⟩
  have entails := (Entails.given demanded).trans (good.entails_label denotes)
  have next : Advance constraints typed entered before _ :=
    advance_setType good (good.lt_size denotes) missing mentioned entails isTyped
  refine ⟨(), _, rfl, advance.trans next, next.grown, id, ⟨id, ?_, .refl _⟩,
    next.grown.denotes denotes⟩
  simp [type?]

theorem runs_typeAt (mentioned : Mentions constraints address) (isTyped : typed address) :
    Runs (typeAt address) before fun id after =>
      Advance constraints typed entered origin after ∧ before.Extends after ∧
        after.Denotes (.node address) id := by
  have good := advance.good
  refine Runs.get_bind ?_
  split
  · rename_i id found
    exact .pure ⟨advance, .refl _, id, found, .refl _⟩
  · rename_i missing
    have noOperand : ∀ operand ∈ Operation.newNode.operands, operand < before.size := by
      simp [Operation.operands]
    have made : Advance constraints typed entered before
        (before.perform .newNode (.node address)) :=
      advance_perform good noOperand trivial (by simp)
    have isNew : ¬ before.size < before.size := Nat.lt_irrefl _
    have inside : before.size < (before.perform .newNode (.node address)).size :=
      Nat.lt_of_lt_of_eq (Nat.lt_succ_self _) (TypeGraph.size_newNode _).symm
    have entails : Entails constraints (.node address)
        ((before.perform .newNode (.node address)).label before.size) := by
      rw [label_perform_of_not_lt isNew]
      exact .refl _
    have next : Advance constraints typed entered before _ :=
      made.trans (advance_setType made.good inside missing mentioned entails isTyped)
    refine ⟨before.size, _, rfl, advance.trans next, next.grown, before.size, ?_, .refl _⟩
    simp [type?]

end Operations

end Infer

namespace World

variable {constraints : Constraint → Prop}
variable {scope : Occurrence} {first second : World}

/-- Whether an environment has the names that a scope binds, each with its type. -/
structure Binds (world : World) (scope : Occurrence) (env : TypeEnv) : Prop where
  types : ∀ name id, env.lookup name = some id →
    id < world.size ∧ world.label id = .bound scope.address name
  names : ∀ name, (env.lookup name).isSome = true ↔ scope.binds name = true

theorem Extends.binds (grown : first.Extends second) {env : TypeEnv}
    (binds : first.Binds scope env) : second.Binds scope env where
  types name id found := by
    obtain ⟨inside, labelled⟩ := binds.types name id found
    exact ⟨Nat.lt_of_lt_of_le inside grown.size, (grown.label id inside).trans labelled⟩
  names := binds.names

theorem Binds.denotes {world : World} {env : TypeEnv} (binds : world.Binds scope env)
    (isBound : scope.binds name = true) :
    ∃ id, env.lookup name = some id ∧ world.Denotes (.bound scope.address name) id := by
  rw [← binds.names] at isBound
  obtain ⟨id, found⟩ := Option.isSome_iff_exists.1 isBound
  obtain ⟨inside, labelled⟩ := binds.types name id found
  exact ⟨id, found, id, inside, labelled, .refl _⟩

/-- Whether a scope is behind, with the names that it binds. -/
def Left (world : World) (scope : Occurrence) : Prop :=
  ∃ env, world.typing.env? scope.address = some env ∧ world.Binds scope env

theorem Extends.left (grown : first.Extends second) (left : first.Left scope) :
    second.Left scope := by
  obtain ⟨env, found, binds⟩ := left
  exact ⟨env, grown.envs _ _ found, grown.binds binds⟩

/-- Whether the environments on the stack are those of the functions and catch clauses above an
address; the outermost one binds the receiver to the global object. -/
def Stands (world : World) (root : Node) (address : Address) : Prop :=
  ∃ envs, world.typing.stack = envs ++ [[(Synthetic.receiver, globalType)]] ∧
    List.Forall₂ world.Binds (root.shadowing address) envs

theorem Stands.of_extends {root : Node} (stands : first.Stands root address)
    (grown : first.Extends second) (stack : second.typing.stack = first.typing.stack) :
    second.Stands root address := by
  obtain ⟨envs, stackEq, binds⟩ := stands
  exact ⟨envs, stack.trans stackEq, binds.imp fun _ _ => grown.binds⟩

theorem findSome?_of_binds {world : World} {scopes : List Occurrence} {envs : List TypeEnv}
    (binds : List.Forall₂ world.Binds scopes envs) (name : Text) :
    match scopes.find? fun scope => scope.binds name with
    | some scope => ∃ id, envs.findSome? (fun env => env.lookup name) = some id ∧
        world.Denotes (.bound scope.address name) id
    | none => envs.findSome? (fun env => env.lookup name) = none := by
  induction binds with
  | nil => rfl
  | @cons scope env scopes envs ofScope _ ih =>
    rw [List.find?_cons, List.findSome?_cons]
    cases isBound : scope.binds name with
    | true =>
      obtain ⟨id, found, denotes⟩ := ofScope.denotes isBound
      exact ⟨id, by rw [found], denotes⟩
    | false =>
      have missing : env.lookup name = none := by
        have notThere := mt (ofScope.names name).1 (by simp [isBound])
        exact Option.not_isSome_iff_eq_none.1 notThere
      rw [missing]
      exact ih

end World

namespace Infer

open World

variable {constraints : Constraint → Prop} {typed entered : Address → Prop} {origin before : World}

theorem runs_variableNamed (advance : Advance constraints typed entered origin before) {root : Node}
    (stands : before.Stands root address) {name : Text}
    (requested : Requests constraints (root.resolve address name)) :
    Runs (variableNamed name) before fun id after =>
      Advance constraints typed entered origin after ∧ before.Extends after ∧
        after.Denotes (root.resolve address name) id := by
  obtain ⟨envs, stackEq, binds⟩ := stands
  have nearest := findSome?_of_binds binds name
  refine Runs.get_bind ?_
  rw [Node.resolve] at requested ⊢
  rw [stackEq, List.findSome?_append]
  cases search : (root.shadowing address).find? fun scope => scope.binds name with
  | some scope =>
    rw [search] at nearest
    obtain ⟨id, found, denotes⟩ := nearest
    rw [found]
    exact .pure ⟨advance, .refl _, denotes⟩
  | none =>
    rw [search] at nearest requested
    rw [nearest, Option.none_or]
    by_cases isReceiver : name = Synthetic.receiver
    · subst isReceiver
      exact .pure ⟨advance, .refl _, Related.refl _⟩
    · have missing : [[(Synthetic.receiver, globalType)]].findSome?
          (fun env => env.lookup name) = none := by
        rw [List.findSome?_singleton, List.lookup_cons, beq_eq_false_iff_ne.2 isReceiver]
        rfl
      rw [missing]
      simp only [if_neg isReceiver] at requested ⊢
      have ofGlobal : before.Denotes .global globalType := Related.refl _
      exact runs_property advance ofGlobal requested

theorem runs_boundIn (advance : Advance constraints typed entered origin before)
    {scope : Occurrence} (left : before.Left scope) (isBound : scope.binds name = true) :
    Runs (boundIn scope.address name) before fun id after =>
      Advance constraints typed entered origin after ∧ before.Extends after ∧
        after.Denotes (.bound scope.address name) id := by
  obtain ⟨env, envFound, binds⟩ := left
  obtain ⟨id, found, denotes⟩ := binds.denotes isBound
  refine Runs.get_bind ?_
  rw [envFound, Option.bind_some, found]
  exact .pure ⟨advance, .refl _, denotes⟩

/-- Where steps are taken: after which world, and which nodes and scopes they may be about. -/
structure Setting where
  constraints : Constraint → Prop
  typed : Address → Prop
  entered : Address → Prop
  origin : World

abbrev Setting.Reaches (setting : Setting) (world : World) : Prop :=
  Advance setting.constraints setting.typed setting.entered setting.origin world

/-- A world after steps that did what some constraints demand. -/
structure Meets (setting : Setting) (demands : List Constraint) (before after : World) : Prop where
  advance : setting.Reaches after
  grown : before.Extends after
  satisfied : ∀ demand ∈ demands, after.Satisfies demand

def Knows (known : List (TypeName × TypeId)) (world : World) : Prop :=
  ∀ entry ∈ known, world.Denotes entry.1 entry.2

/-- A step gives a result and does what some constraints demand, in every world that can be reached
and in which some types are known. -/
def Does {α : Type} (setting : Setting) (known : List (TypeName × TypeId)) (step : Infer α)
    (result : α) (demands : List Constraint) : Prop :=
  ∀ before, setting.Reaches before → Knows known before → Runs step before fun answer after =>
    answer = result ∧ Meets setting demands before after

theorem Knows.nil : Knows [] before := by
  simp [Knows]

theorem Knows.single {type : TypeName} (denotes : before.Denotes type id) :
    Knows [(type, id)] before :=
  List.forall_mem_singleton.2 denotes

theorem Knows.of_extends {known : List (TypeName × TypeId)} {after : World}
    (knows : Knows known before) (grown : before.Extends after) : Knows known after :=
  fun entry member => grown.denotes (knows entry member)

namespace Does

variable {α : Type} {setting : Setting} {known : List (TypeName × TypeId)} {result : α}
  {demands : List Constraint} {next : Infer α} {onward : TypeId → Infer α}
variable {step : Infer Unit}
  {left right : TypeName} {first second : TypeId}

theorem done : Does setting known (pure result) result [] :=
  fun _ reaches _ => .pure ⟨rfl, reaches, .refl _, by simp⟩

theorem seq {others : List Constraint} (does : Does setting known step () demands)
    (goesOn : Does setting known next result others) :
    Does setting known (step >>= fun _ => next) result (demands ++ others) := by
  intro before reaches knows
  refine (does before reaches knows).bind fun _ middle ran => ?_
  obtain ⟨_, reaches₁, grown₁, satisfied₁⟩ := ran
  refine (goesOn middle reaches₁ (knows.of_extends grown₁)).mono fun _ after ran => ?_
  obtain ⟨answerEq, reaches₂, grown₂, satisfied₂⟩ := ran
  exact ⟨answerEq, reaches₂, grown₁.trans grown₂, List.forall_mem_append.2
    ⟨fun demand member => grown₂.satisfies (satisfied₁ demand member), satisfied₂⟩⟩

theorem last (does : Does setting known (step >>= fun _ => pure ()) () demands) :
    Does setting known step () demands := by
  rwa [bind_pure_unit] at does

theorem returning (does : Does setting known step () demands) :
    Does setting known (step >>= fun _ => pure result) result demands := by
  have whole := does.seq (done : Does setting known (pure result) result [])
  rwa [List.append_nil] at whole

theorem ite {condition : Prop} [Decidable condition] {other : Infer α}
    (yes : condition → Does setting known next result demands)
    (no : ¬ condition → Does setting known other result demands) :
    Does setting known (if condition then next else other) result demands :=
  fun before reaches knows => .ite (fun holds => yes holds before reaches knows)
    fun holdsNot => no holdsNot before reaches knows

theorem learn {step : Infer TypeId} {type : TypeName}
    (runs : ∀ before, setting.Reaches before → Knows known before → Runs step before
      fun id after => setting.Reaches after ∧ before.Extends after ∧ after.Denotes type id)
    (goesOn : ∀ id, Does setting ((type, id) :: known) (onward id) result demands) :
    Does setting known (step >>= onward) result demands := by
  intro before reaches knows
  refine (runs before reaches knows).bind fun id middle ran => ?_
  obtain ⟨reaches₁, grown₁, denotes⟩ := ran
  have knows₁ : Knows ((type, id) :: known) middle :=
    List.forall_mem_cons.2 ⟨denotes, knows.of_extends grown₁⟩
  refine (goesOn id middle reaches₁ knows₁).mono fun _ after ran => ?_
  exact ⟨ran.1, ran.2.advance, grown₁.trans ran.2.grown, ran.2.satisfied⟩

theorem meet {demand : Constraint}
    (runs : ∀ before, setting.Reaches before → Knows known before → Runs step before
      fun _ after => setting.Reaches after ∧ before.Extends after ∧ after.Satisfies demand)
    (goesOn : Does setting known next result demands) :
    Does setting known (step >>= fun _ => next) result (demand :: demands) := by
  have does : Does setting known step () [demand] := fun before reaches knows =>
    (runs before reaches knows).mono fun _ _ ran =>
      ⟨rfl, ran.1, ran.2.1, List.forall_mem_singleton.2 ran.2.2⟩
  exact does.seq goesOn

theorem typeAt (mentioned : Mentions setting.constraints address) (isTyped : setting.typed address)
    (goesOn : ∀ id, Does setting ((.node address, id) :: known) (onward id) result demands) :
    Does setting known (Infer.typeAt address >>= onward) result demands :=
  learn (fun _ reaches _ => runs_typeAt reaches mentioned isTyped) goesOn

theorem property {owner : TypeName} (ofOwner : (owner, first) ∈ known)
    (requested : Requests setting.constraints (.property owner name))
    (goesOn : ∀ id, Does setting ((.property owner name, id) :: known) (onward id) result demands) :
    Does setting known (Infer.property first name >>= onward) result demands :=
  learn (fun _ reaches knows => runs_property reaches (knows _ ofOwner) requested) goesOn

theorem variableNamed {root : Node} (stands : setting.origin.Stands root address)
    (requested : Requests setting.constraints (root.resolve address name))
    (goesOn : ∀ id, Does setting ((root.resolve address name, id) :: known) (onward id) result
      demands) :
    Does setting known (Infer.variableNamed name >>= onward) result demands :=
  learn (fun _ reaches _ =>
    runs_variableNamed reaches (stands.of_extends reaches.grown reaches.stack) requested)
    goesOn

theorem boundIn {scope : Occurrence} (isLeft : setting.origin.Left scope)
    (isBound : scope.binds name = true)
    (goesOn : ∀ id, Does setting ((.bound scope.address name, id) :: known) (onward id) result
      demands) :
    Does setting known (Infer.boundIn scope.address name >>= onward) result demands :=
  learn (fun _ reaches _ => runs_boundIn reaches (reaches.grown.left isLeft) isBound) goesOn

theorem global
    (goesOn : Does setting ((.global, globalType) :: known) next result demands) :
    Does setting known next result demands :=
  fun before reaches knows =>
    goesOn before reaches (List.forall_mem_cons.2 ⟨Related.refl _, knows⟩)

theorem unify (ofLeft : (left, first) ∈ known) (ofRight : (right, second) ∈ known)
    (demanded : setting.constraints (.same left right))
    (goesOn : Does setting known next result demands) :
    Does setting known (Infer.unify first second >>= fun _ => next) result
      (.same left right :: demands) :=
  meet (fun _ reaches knows => runs_unify reaches (knows _ ofLeft) (knows _ ofRight) demanded)
    goesOn

theorem markNamespace {type : TypeName} (ofType : (type, first) ∈ known)
    (demanded : setting.constraints (.marked type))
    (goesOn : Does setting known next result demands) :
    Does setting known (Infer.markNamespace first >>= fun _ => next) result
      (.marked type :: demands) :=
  meet (fun _ reaches knows => runs_markNamespace reaches (knows _ ofType) demanded) goesOn

theorem addMethod (ofBase : (left, first) ∈ known) (ofReceiver : (right, second) ∈ known)
    (demanded : setting.constraints (.method left right))
    (goesOn : Does setting known next result demands) :
    Does setting known (Infer.addMethod first second >>= fun _ => next) result
      (.method left right :: demands) :=
  meet (fun _ reaches knows => runs_addMethod reaches (knows _ ofBase) (knows _ ofReceiver) demanded)
    goesOn

end Does

end Infer

namespace World

structure Opened (constraints : Constraint → Prop) (typed : Address → Prop) (scope : Address)
    (env : TypeEnv) (before after : World) : Prop where
  good : after.Good constraints
  grown : before.Extends after
  stack : after.typing.stack = env :: before.typing.stack
  types : ∀ address, ¬ typed address → after.typing.type? address = before.typing.type? address
  envs : ∀ scope, after.typing.env? scope = before.typing.env? scope
  names : ∀ other name id, other ≠ scope → id < after.size → after.label id = .bound other name →
    id < before.size
  own : ∀ name id, env.lookup name = some id ↔ id < after.size ∧ after.label id = .bound scope name

variable {constraints : Constraint → Prop} {typed : Address → Prop} {scope : Address}
  {env : TypeEnv} {before middle after : World}

theorem Opened.advance (opened : Opened constraints typed scope env before middle)
    (advance : Advance constraints typed (fun _ => False) middle after) :
    Opened constraints typed scope env before after where
  good := advance.good
  grown := opened.grown.trans advance.grown
  stack := advance.stack.trans opened.stack
  types address outside := (advance.types address outside).trans (opened.types address outside)
  envs scope := (advance.envs scope not_false).trans (opened.envs scope)
  names other name id different inside labelled := by
    have isOld := advance.names other name id not_false inside labelled
    rw [advance.grown.label id isOld] at labelled
    exact opened.names other name id different isOld labelled
  own name id := by
    rw [opened.own name id]
    constructor
    · rintro ⟨inside, labelled⟩
      exact ⟨Nat.lt_of_lt_of_le inside advance.grown.size,
        (advance.grown.label id inside).trans labelled⟩
    · rintro ⟨inside, labelled⟩
      have isOld := advance.names scope name id not_false inside labelled
      rw [advance.grown.label id isOld] at labelled
      exact ⟨isOld, labelled⟩

theorem Opened.denotes (opened : Opened constraints typed scope env before after)
    (found : env.lookup name = some id) : after.Denotes (.bound scope name) id :=
  ⟨id, ((opened.own name id).1 found).1, ((opened.own name id).1 found).2, .refl _⟩

theorem Opened.binds {place : Occurrence}
    (opened : Opened constraints typed place.address env before after)
    (names : ∀ name, (env.lookup name).isSome = true ↔ place.binds name = true) :
    after.Binds place env :=
  ⟨fun name id found => (opened.own name id).1 found, names⟩

end World

namespace Infer

open World

variable {constraints : Constraint → Prop} {typed : Address → Prop} {scope : Address}
  {env : TypeEnv} {before middle after : World}

theorem runs_enterScope (typed : Address → Prop) (good : before.Good constraints)
    (untouched : before.Untouched scope) :
    Runs enterScope before fun _ after => Opened constraints typed scope [] before after ∧
      after.typing.types = before.typing.types := by
  let after : World :=
    { before with typing := { before.typing with stack := [] :: before.typing.stack } }
  have grown : before.Extends after := { Extends.refl before with }
  refine ⟨(), after, rfl, ⟨{ good with
      asked := grown.askedOf good rfl
      methods := grown.methodsOf good rfl }, grown, rfl,
    fun _ _ => rfl, fun _ => rfl, fun _ _ _ _ inside _ => inside, fun name id => ?_⟩, rfl⟩
  simp only [List.lookup_nil, reduceCtorEq, false_iff, not_and]
  exact untouched.names name id

theorem runs_bindText (opened : Opened constraints typed scope env before middle) (name : Text) :
    Runs (bindText name) middle fun id after => ∃ env',
      Opened constraints typed scope env' before after ∧ middle.Extends after ∧
        after.typing.types = middle.typing.types ∧ after.Denotes (.bound scope name) id ∧
        ∀ other, (env'.lookup other).isSome = true ↔
          (env.lookup other).isSome = true ∨ other = name := by
  refine Runs.get_bind ?_
  rw [opened.stack]
  dsimp only
  split
  · rename_i id found
    refine .pure ⟨env, opened, .refl _, rfl, opened.denotes found, fun other => ?_⟩
    constructor
    · exact .inl
    · rintro (old | rfl)
      · exact old
      · rw [found]
        rfl
  · rename_i missing
    have noOperand : ∀ operand ∈ Operation.newNode.operands, operand < middle.size := by
      simp [Operation.operands]
    have unbound : ∀ other text id, TypeName.bound scope name = .bound other text →
        id < middle.size → middle.label id ≠ .bound other text := by
      intro other text id same inside labelled
      cases same
      rw [(opened.own name id).2 ⟨inside, labelled⟩] at missing
      cases missing
    have good : (middle.perform .newNode (.bound scope name)).Good constraints :=
      opened.good.perform noOperand trivial unbound
    have grown := extends_perform opened.good.run noOperand (.bound scope name)
    have inside : middle.size < (middle.perform .newNode (.bound scope name)).size :=
      Nat.lt_of_lt_of_eq (Nat.lt_succ_self _) (TypeGraph.size_newNode _).symm
    have last {id : TypeId} (isNew : ¬ id < middle.size)
        (isIn : id < (middle.perform .newNode (.bound scope name)).size) : middle.size = id := by
      have atMost : id < middle.size + 1 := Nat.lt_of_lt_of_eq isIn (TypeGraph.size_newNode _)
      exact Nat.le_antisymm (Nat.not_lt.1 isNew) (Nat.le_of_lt_succ atMost)
    let later : World := { middle.perform .newNode (.bound scope name) with
      typing := { (middle.perform .newNode (.bound scope name)).typing with
        stack := (env ++ [(name, middle.size)]) :: before.typing.stack } }
    have grown' : middle.Extends later := { grown with }
    have bound : (middle.perform .newNode (.bound scope name)).Extends later :=
      { Extends.refl (middle.perform .newNode (.bound scope name)) with }
    have newLabel {id : TypeId} (isNew : ¬ id < middle.size) : later.label id = .bound scope name :=
      if_neg isNew
    have opened' : Opened constraints typed scope (env ++ [(name, middle.size)]) before later := by
      refine ⟨{ good with
          asked := bound.askedOf good rfl
          methods := grown'.methodsOf opened.good rfl }, opened.grown.trans grown',
        rfl, opened.types, opened.envs, ?_, ?_⟩
      · intro other text id different isIn labelled
        by_cases isOld : id < middle.size
        · exact opened.names other text id different isOld
            ((grown'.label id isOld).symm.trans labelled)
        · cases (newLabel isOld).symm.trans labelled
          exact absurd rfl different
      · intro other id
        rw [List.lookup_append, Option.or_eq_some_iff, opened.own other id]
        constructor
        · rintro (⟨isOld, labelled⟩ | ⟨_, found⟩)
          · exact ⟨Nat.lt_of_lt_of_le isOld grown'.size, (grown'.label id isOld).trans labelled⟩
          · rw [List.lookup_cons] at found
            split at found
            · rename_i same
              cases found
              cases eq_of_beq same
              exact ⟨inside, newLabel (Nat.lt_irrefl _)⟩
            · cases found
        · rintro ⟨isIn, labelled⟩
          by_cases isOld : id < middle.size
          · exact .inl ⟨isOld, (grown'.label id isOld).symm.trans labelled⟩
          · cases (newLabel isOld).symm.trans labelled
            exact .inr ⟨missing, by simp [last isOld isIn]⟩
    refine ⟨middle.size, later, rfl, env ++ [(name, middle.size)], opened', grown', rfl,
      opened'.denotes ?_, fun other => ?_⟩
    · rw [List.lookup_append, missing]
      simp
    · rw [List.lookup_append, Option.isSome_or, Bool.or_eq_true, List.lookup_cons]
      cases same : other == name <;> simp_all

theorem runs_leaveScope {place : Occurrence} {step : Step}
    (opened : Opened constraints typed place.address env before middle)
    (within : Within constraints (step :: place.address) middle after)
    (missing : before.typing.env? place.address = none)
    (names : ∀ name, (env.lookup name).isSome = true ↔ place.binds name = true)
    (covers : ∀ address, typed address → place.address <:+ address) :
    Runs (leaveScope place.address) after fun _ last =>
      Within constraints place.address before last ∧ after.Extends last ∧ last.Left place := by
  have stackEq := within.stack.trans opened.stack
  have outer {address : Address} (outside : ¬ place.address <:+ address) :
      ¬ step :: place.address <:+ address := fun below =>
    outside ((List.suffix_cons _ _).trans below)
  let last : World := { after with typing := { after.typing with
    stack := before.typing.stack, envs := (place.address, env) :: after.typing.envs } }
  have lookup {address : Address} (different : address ≠ place.address) :
      last.typing.env? address = after.typing.env? address := by
    rw [env?, List.lookup_cons, beq_eq_false_iff_ne.2 different]
    rfl
  have missing' : after.typing.env? place.address = none := by
    have notBelow : ¬ step :: place.address <:+ place.address := fun below =>
      absurd below.length_le (Nat.not_succ_le_self _)
    rw [within.envs place.address notBelow, opened.envs, missing]
  have grown : after.Extends last := by
    refine { Extends.refl after with envs := fun scope env found => ?_ }
    rw [lookup ?_]
    · exact found
    · rintro rfl
      rw [missing'] at found
      cases found
  have good : last.Good constraints := { within.good with
      asked := grown.askedOf within.good rfl
      methods := grown.methodsOf within.good rfl }
  refine ⟨(), last, ?_, ⟨good, opened.grown.trans (within.grown.trans grown), rfl, ?_, ?_, ?_⟩,
    grown, env, ?_, ?_⟩
  · unfold leaveScope
    simp only [modify, modifyGet, MonadStateOf.modifyGet, StateT.modifyGet, stackEq]
    rfl
  · intro address outside
    exact (within.types address (outer outside)).trans
      (opened.types address fun isTyped => outside (covers address isTyped))
  · intro scope outside
    rw [lookup ?_, within.envs scope (outer outside), opened.envs]
    rintro rfl
    exact outside (List.suffix_refl _)
  · intro scope name id outside inside labelled
    have isOld := within.names scope name id (outer outside) inside labelled
    refine opened.names scope name id ?_ isOld ((within.grown.label id isOld).symm.trans labelled)
    rintro rfl
    exact outside (List.suffix_refl _)
  · simp [last, env?]
  · exact grown.binds (within.grown.binds (opened.binds names))

end Infer

end Namesake
