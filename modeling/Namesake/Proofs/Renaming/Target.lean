import Namesake.Proofs.Inference.Closure
import Namesake.Proofs.Inference.Use
import Namesake.Proofs.Renaming.Property

/-!
Each token that names something stands for one `Target`, and tokens are renamed together if they
stand for the same.
-/

namespace Namesake

namespace Typing

def class? (typing : Typing) (address : Address) : Option TypeId :=
  (typing.type? address).map typing.graph.root

def isGlobalAt (typing : Typing) (address : Address) : Bool :=
  typing.class? address = some (typing.graph.root globalType)

/-- Whether every object that a token of a tree names a property of has a type. -/
def Covers (typing : Typing) (root : Node) : Prop :=
  ∀ base token, Occurrence.PropertyOf root base token → (typing.type? base.address).isSome = true

end Typing

theorem World.Inferred.covers {root : Node} {world : World} (inferred : world.Inferred root)
    (shaped : root.Shaped) : world.typing.Covers root := by
  intro base token isProperty
  have mentioned {place : Occurrence} (inside : place.IsIn root)
      (notIdentifier : place.node.kind ≠ .identifier) (notLiteral : place.node.kind ≠ .literal)
      (demanded : ∀ lookup use, ∃ demand ∈ place.node.constraints lookup use place.address,
        base.address ∈ demand.nodes) : (world.typing.type? base.address).isSome = true := by
    obtain ⟨use, used⟩ :=
      Option.isSome_iff_exists.1 (shaped.isSome_use? inside notIdentifier notLiteral)
    obtain ⟨demand, member, isAbout⟩ := demanded (root.resolve place.address) use
    exact (inferred.good.isSome_type?_iff inferred.meets base.address).2
      ⟨demand, .inl (Node.demands_of_mem inside used member), isAbout⟩
  cases isProperty with
  | @member address object key computed location inside _ =>
    refine mentioned inside (by simp [Node.kind]) (by simp [Node.kind]) fun _ _ => ?_
    exact Infer.exists_mem_ofMember address (.node object) (.node key) computed
  | key inside _ =>
    refine mentioned inside (by simp [Node.kind]) (by simp [Node.kind]) fun _ _ => ?_
    exact ⟨_, List.mem_cons_self, List.mem_cons_self⟩

theorem exists_covering {root : Node} (shaped : root.Shaped) :
    ∃ inference, root.codebase.infer = .ok inference ∧ inference.typing.Covers root := by
  obtain ⟨inference, world, inferEq, typingEq, inferred⟩ := exists_inferred shaped
  exact ⟨inference, inferEq, typingEq ▸ inferred.covers shaped⟩

/-- What a token stands for, apart from its name. -/
inductive Target where
  | bound (scope : Address)
  | global
  | label (statement : Address)
  | jump (function : Option Address)
  | property (type : TypeId)
deriving DecidableEq

namespace Codebase

variable {target : Target}

def targetOf? (codebase : Codebase) (typing : Typing) (token : Occurrence) (name : Name) :
    Role → Option Target
  | .variable =>
    match codebase.declaringScope? token.address name with
    | none => some .global
    | some scope => some (if scope.node.kind = .program then .global else .bound scope.address)
  | .label =>
    match codebase.labelDeclaration? token name with
    | none => some (.jump ((codebase.root.enclosingFunction? token.address).map Occurrence.address))
    | some statement => some (.label statement.address)
  | .property base =>
    (base.bind fun object => typing.class? object.address).map fun type =>
      if type = typing.graph.root Typing.globalType then .global else .property type

def target? (codebase : Codebase) (typing : Typing) (token : Occurrence) :
    Option (Target × Text) :=
  match codebase.root.usage? token with
  | .ok (some ⟨role, .text spelling⟩) =>
    (codebase.targetOf? typing token (.text spelling) role).map fun target => (target, spelling)
  | _ => none

def tokensOf (codebase : Codebase) (typing : Typing) (target : Target) (spelling : Text) :
    List Occurrence :=
  codebase.root.walk.filter fun token => codebase.target? typing token = some (target, spelling)

variable {codebase : Codebase} {typing : Typing} {token : Occurrence} {spelling : Text}
variable {name : Name}

theorem mem_tokensOf :
    token ∈ codebase.tokensOf typing target spelling ↔
      token.IsIn codebase.root ∧ codebase.target? typing token = some (target, spelling) := by
  rw [tokensOf, List.mem_filter, Node.mem_walk, decide_eq_true_iff]

theorem nodup_tokensOf (target : Target) :
    ((codebase.tokensOf typing target spelling).map Occurrence.address).Nodup :=
  codebase.root.nodup_walk.sublist (List.filter_sublist.map _)

theorem target?_of_usage? {role : Role}
    (used : codebase.root.usage? token = .ok (some ⟨role, .text spelling⟩)) :
    codebase.target? typing token =
      (codebase.targetOf? typing token (.text spelling) role).map fun target => (target, spelling) := by
  rw [target?, used]

theorem target?_eq_some :
    codebase.target? typing token = some (target, spelling) ↔
      ∃ role, codebase.root.usage? token = .ok (some ⟨role, .text spelling⟩) ∧
        codebase.targetOf? typing token (.text spelling) role = some target := by
  constructor
  · intro found
    unfold target? at found
    split at found
    · rename_i role own used
      obtain ⟨_, ofRole, same⟩ := Option.map_eq_some_iff.1 found
      cases same
      exact ⟨role, used, ofRole⟩
    · cases found
  · rintro ⟨role, used, ofRole⟩
    rw [target?_of_usage? used, ofRole]
    rfl

theorem targetOf?_variable_eq_global :
    codebase.targetOf? typing token name .variable = some .global ↔
      isGlobalScope (codebase.declaringScope? token.address name) = true := by
  cases declared : codebase.declaringScope? token.address name with
  | none => simp [targetOf?, declared, isGlobalScope]
  | some scope => by_cases isProgram : scope.node.kind = .program <;>
      simp [targetOf?, declared, isGlobalScope, isProgram]

theorem targetOf?_variable_eq_bound {scope : Address} :
    codebase.targetOf? typing token name .variable = some (.bound scope) ↔
      ∃ place, codebase.declaringScope? token.address name = some place ∧
        place.node.kind ≠ .program ∧ place.address = scope := by
  cases declared : codebase.declaringScope? token.address name with
  | none => simp [targetOf?, declared]
  | some place => by_cases isProgram : place.node.kind = .program <;>
      simp [targetOf?, declared, isProgram]

theorem targetOf?_property_eq_global {base : Option Occurrence} :
    codebase.targetOf? typing token name (.property base) = some .global ↔
      ∃ object, base = some object ∧ typing.isGlobalAt object.address = true := by
  cases base with
  | none => simp [targetOf?]
  | some object => simp [targetOf?, Typing.isGlobalAt]

theorem targetOf?_property_eq_property {base : Option Occurrence} {type : TypeId} :
    codebase.targetOf? typing token name (.property base) = some (.property type) ↔
      ∃ object, base = some object ∧ typing.class? object.address = some type ∧
        type ≠ typing.graph.root Typing.globalType := by
  cases base with
  | none => simp [targetOf?]
  | some object =>
    simp only [targetOf?, Option.bind_some, Option.map_eq_some_iff, Option.some.injEq,
      exists_eq_left']
    constructor
    · rintro ⟨own, found, same⟩
      split at same
      · cases same
      · cases same
        exact ⟨found, ‹_›⟩
    · rintro ⟨found, notGlobal⟩
      exact ⟨type, found, if_neg notGlobal⟩

theorem targetOf?_label_eq_label {statement : Address} :
    codebase.targetOf? typing token name .label = some (.label statement) ↔
      ∃ place, codebase.labelDeclaration? token name = some place ∧ place.address = statement := by
  cases declared : codebase.labelDeclaration? token name <;> simp [targetOf?, declared]

theorem targetOf?_label_eq_jump {function : Option Address} :
    codebase.targetOf? typing token name .label = some (.jump function) ↔
      codebase.labelDeclaration? token name = none ∧
        (codebase.root.enclosingFunction? token.address).map Occurrence.address = function := by
  cases declared : codebase.labelDeclaration? token name <;> simp [targetOf?, declared]

theorem of_targetOf? {role : Role} (found : codebase.targetOf? typing token name role = some target) :
    match target with
    | .bound _ => role = .variable
    | .global => role = .variable ∨ ∃ base, role = .property base
    | .label _ | .jump _ => role = .label
    | .property _ => ∃ base, role = .property base := by
  cases role with
  | «variable» =>
    simp only [targetOf?] at found
    repeat' split at found
    all_goals cases found
    all_goals simp
  | property base =>
    obtain ⟨type, _, targetEq⟩ := Option.map_eq_some_iff.1 found
    split at targetEq
    all_goals cases targetEq
    all_goals simp
  | label =>
    simp only [targetOf?] at found
    split at found
    all_goals cases found
    all_goals rfl

section Shaped

variable (shaped : codebase.root.Shaped) (inside : token.IsIn codebase.root)

include shaped inside

theorem target?_eq_bound {scope : Address} :
    codebase.target? typing token = some (.bound scope, spelling) ↔
      ∃ place, codebase.Resolves token (.text spelling) (some place) ∧
        place.node.kind ≠ .program ∧ place.address = scope := by
  rw [target?_eq_some]
  constructor
  · rintro ⟨role, used, ofRole⟩
    obtain rfl : role = .variable := of_targetOf? ofRole
    obtain ⟨place, declared, notProgram, same⟩ := targetOf?_variable_eq_bound.1 ofRole
    obtain ⟨names, named⟩ := (usage?_variable shaped inside).1 used
    exact ⟨place, ⟨Node.mem_walk.2 inside, names, named, declared⟩, notProgram, same⟩
  · rintro ⟨place, resolves, notProgram, same⟩
    exact ⟨.variable, (usage?_variable shaped inside).2 ⟨resolves.names, resolves.named⟩,
      targetOf?_variable_eq_bound.2 ⟨place, resolves.resolved, notProgram, same⟩⟩

theorem target?_eq_global :
    codebase.target? typing token = some (.global, spelling) ↔
      (∃ scope, codebase.Resolves token (.text spelling) scope ∧ isGlobalScope scope = true) ∨
        (token.tokenName? = some (.text spelling) ∧
          ∃ base, Occurrence.PropertyOf codebase.root base token ∧
            typing.isGlobalAt base.address = true) := by
  rw [target?_eq_some]
  constructor
  · rintro ⟨role, used, ofRole⟩
    rcases of_targetOf? ofRole with rfl | ⟨base, rfl⟩
    · obtain ⟨names, named⟩ := (usage?_variable shaped inside).1 used
      exact .inl ⟨_, ⟨Node.mem_walk.2 inside, names, named, rfl⟩,
        targetOf?_variable_eq_global.1 ofRole⟩
    · obtain ⟨object, rfl, isGlobal⟩ := targetOf?_property_eq_global.1 ofRole
      obtain ⟨named, _, same, isProperty⟩ := (shaped.usage?_property inside).1 used
      cases same
      exact .inr ⟨named, object, isProperty, isGlobal⟩
  · rintro (⟨scope, resolves, isGlobal⟩ | ⟨named, base, isProperty, isGlobal⟩)
    · refine ⟨.variable, (usage?_variable shaped inside).2 ⟨resolves.names, resolves.named⟩,
        targetOf?_variable_eq_global.2 ?_⟩
      rw [resolves.resolved]
      exact isGlobal
    · exact ⟨.property (some base), isProperty.usage? shaped named,
        targetOf?_property_eq_global.2 ⟨base, rfl, isGlobal⟩⟩

theorem target?_eq_property {type : TypeId} :
    codebase.target? typing token = some (.property type, spelling) ↔
      token.tokenName? = some (.text spelling) ∧
        ∃ base, Occurrence.PropertyOf codebase.root base token ∧
          typing.class? base.address = some type ∧
          type ≠ typing.graph.root Typing.globalType := by
  rw [target?_eq_some]
  constructor
  · rintro ⟨role, used, ofRole⟩
    obtain ⟨base, rfl⟩ : ∃ base, role = .property base := of_targetOf? ofRole
    obtain ⟨object, rfl, found, notGlobal⟩ := targetOf?_property_eq_property.1 ofRole
    obtain ⟨named, _, same, isProperty⟩ := (shaped.usage?_property inside).1 used
    cases same
    exact ⟨named, object, isProperty, found, notGlobal⟩
  · rintro ⟨named, base, isProperty, found, notGlobal⟩
    exact ⟨.property (some base), isProperty.usage? shaped named,
      targetOf?_property_eq_property.2 ⟨base, rfl, found, notGlobal⟩⟩

theorem tokenName?_of_target? {target : Target}
    (found : codebase.target? typing token = some (target, spelling)) :
    token.tokenName? = some (.text spelling) := by
  obtain ⟨role, used, _⟩ := target?_eq_some.1 found
  exact (shaped.exists_usageIn? inside used).1

theorem exists_target? (covers : typing.Covers codebase.root) {usage : Usage}
    (used : codebase.root.usage? token = .ok (some usage)) :
    ∃ target spelling, usage.name = .text spelling ∧
      codebase.target? typing token = some (target, spelling) := by
  obtain ⟨role, name⟩ := usage
  obtain ⟨named, _⟩ := shaped.exists_usageIn? inside used
  obtain ⟨spelling, rfl⟩ := shaped.text_of_tokenName? inside named
  obtain ⟨target, ofRole⟩ :
      ∃ target, codebase.targetOf? typing token (.text spelling) role = some target := by
    cases role with
    | «variable» | label =>
      simp only [targetOf?]
      split <;> exact ⟨_, rfl⟩
    | property base =>
      obtain ⟨_, object, rfl, isProperty⟩ := (shaped.usage?_property inside).1 used
      obtain ⟨type, found⟩ := Option.isSome_iff_exists.1 (covers object token isProperty)
      simp [targetOf?, Typing.class?, found]
  exact ⟨target, spelling, rfl, target?_eq_some.2 ⟨role, used, ofRole⟩⟩

end Shaped

theorem target?_of_collection {place : Occurrence}
    (isCollection : place.node.kind = .programCollection) :
    codebase.target? typing place = none := by
  obtain ⟨address, kind, fields, location⟩ := place
  obtain rfl : kind = .programCollection := isCollection
  rfl

theorem kind_of_target? (found : codebase.target? typing token = some (target, spelling)) :
    token.node.kind ≠ .programCollection := by
  intro isCollection
  rw [target?_of_collection isCollection] at found
  cases found

theorem ranges_eq_of_targets (shaped : codebase.root.Shaped) {groups : List (List Occurrence)}
    (targets : ∀ group ∈ groups, ∃ target, group = codebase.tokensOf typing target spelling) :
    codebase.ranges groups = .ok (groups.map fun group => group.map codebase.placeOf) := by
  apply codebase.ranges_eq
  intro group isGroup token member
  obtain ⟨target, rfl⟩ := targets group isGroup
  obtain ⟨inside, found⟩ := mem_tokensOf.1 member
  exact located_of_inner
    (shaped.inner_of_tokenName? inside (tokenName?_of_target? shaped inside found))

theorem exists_ranges_tokensOf (shaped : codebase.root.Shaped) (typing : Typing) (target : Target)
    (spelling : Text) :
    ∃ places, codebase.ranges [codebase.tokensOf typing target spelling] = .ok [places] ∧
      places.length = (codebase.tokensOf typing target spelling).length := by
  have targets : ∀ group ∈ [codebase.tokensOf typing target spelling],
      ∃ target, group = codebase.tokensOf typing target spelling :=
    fun group member => ⟨target, List.mem_singleton.1 member⟩
  exact ⟨_, ranges_eq_of_targets shaped targets, List.length_map _⟩

end Codebase

end Namesake
