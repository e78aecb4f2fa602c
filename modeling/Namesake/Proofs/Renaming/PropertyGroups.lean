import Namesake.Proofs.Renaming.Global

/-!
Every class of objects with a property has a group, except that of the global object, whose
properties are in the group of the global variable.
-/

namespace Namesake

open Typing List

theorem nodup_eraseDups (types : List TypeId) : types.eraseDups.Nodup := by
  cases types with
  | nil => simp
  | cons first rest =>
    rw [eraseDups_cons, nodup_cons, mem_eraseDups]
    exact ⟨by simp, nodup_eraseDups _⟩
termination_by types.length
decreasing_by exact Nat.lt_succ_of_le (length_filter_le _ rest)

theorem Occurrence.gather_eq_flatMap {Found : Type} {look : Unit → Occurrence → Look Unit Found}
    (goesOn : ∀ place, (look () place).below = some ()) (place : Occurrence) :
    place.gather look () = place.walk.flatMap fun inner => (look () inner).found := by
  induction place using Occurrence.induct with
  | step place ih =>
    rw [gather_eq, walk_eq, goesOn, flatMap_cons, flatMap_assoc]
    exact congrArg _ (flatMap_congr ih)

namespace Codebase

variable {codebase : Codebase} {typing : Typing}
variable {token : Occurrence} {spelling : Text}

/-- A token that stands for a property, with the class of its object. -/
def typedToken? (codebase : Codebase) (typing : Typing) (spelling : Text) (token : Occurrence) :
    Option (TypeId × Occurrence) :=
  match codebase.target? typing token with
  | some (.property type, own) => if own = spelling then some (type, token) else none
  | _ => none

theorem typedToken?_eq_some {entry : TypeId × Occurrence} :
    codebase.typedToken? typing spelling token = some entry ↔
      entry.2 = token ∧ codebase.target? typing token = some (.property entry.1, spelling) := by
  obtain ⟨type, other⟩ := entry
  unfold typedToken?
  split
  · rename_i own spelled found
    rw [found]
    constructor
    · intro same
      split at same
      · cases same
        subst spelling
        exact ⟨rfl, rfl⟩
      · cases same
    · rintro ⟨rfl, same⟩
      cases same
      exact if_pos rfl
  · rename_i notProperty
    constructor
    · intro same
      cases same
    · rintro ⟨_, found⟩
      exact absurd found (notProperty _ _)

def classesOf (codebase : Codebase) (typing : Typing) (spelling : Text) : List TypeId :=
  (((codebase.root.walk.filterMap (codebase.typedToken? typing spelling)).map Prod.fst).mergeSort
    (· ≤ ·)).eraseDups

theorem nodup_classesOf (spelling : Text) : (codebase.classesOf typing spelling).Nodup :=
  nodup_eraseDups _

theorem mem_classesOf {type : TypeId} :
    type ∈ codebase.classesOf typing spelling ↔
      ∃ token, token ∈ codebase.tokensOf typing (.property type) spelling := by
  simp only [classesOf, mem_eraseDups, mem_mergeSort, mem_map, mem_filterMap,
    typedToken?_eq_some, mem_tokensOf, ← Node.mem_walk]
  constructor
  · rintro ⟨entry, ⟨token, inside, _, found⟩, rfl⟩
    exact ⟨token, inside, found⟩
  · rintro ⟨token, inside, found⟩
    exact ⟨(type, token), ⟨token, inside, rfl, found⟩, rfl⟩

def classGroups (codebase : Codebase) (typing : Typing) (spelling : Text) :
    List (List Occurrence) :=
  (codebase.classesOf typing spelling).map fun type =>
    codebase.tokensOf typing (.property type) spelling

theorem mem_classGroups {group : List Occurrence} :
    group ∈ codebase.classGroups typing spelling ↔
      group ≠ [] ∧ ∃ type, group = codebase.tokensOf typing (.property type) spelling := by
  simp only [classGroups, mem_map, mem_classesOf]
  constructor
  · rintro ⟨type, ⟨token, member⟩, rfl⟩
    exact ⟨ne_nil_of_mem member, type, rfl⟩
  · rintro ⟨notEmpty, type, rfl⟩
    exact ⟨type, exists_mem_of_ne_nil _ notEmpty, rfl⟩

theorem exists_target_of_mem_classGroups {group : List Occurrence}
    (member : group ∈ codebase.classGroups typing spelling) :
    ∃ target, group = codebase.tokensOf typing target spelling := by
  obtain ⟨_, type, groupEq⟩ := mem_classGroups.1 member
  exact ⟨.property type, groupEq⟩

theorem exists_mem_classGroups {other : Occurrence} :
    (∃ group ∈ codebase.classGroups typing spelling, token ∈ group ∧ other ∈ group) ↔
      ∃ type, token ∈ codebase.tokensOf typing (.property type) spelling ∧
        other ∈ codebase.tokensOf typing (.property type) spelling := by
  simp only [mem_classGroups]
  constructor
  · rintro ⟨_, ⟨_, type, rfl⟩, members⟩
    exact ⟨type, members⟩
  · rintro ⟨type, members⟩
    exact ⟨_, ⟨ne_nil_of_mem members.1, type, rfl⟩, members⟩

theorem mem_flatten_classGroups :
    token ∈ (codebase.classGroups typing spelling).flatten ↔
      ∃ type, token ∈ codebase.tokensOf typing (.property type) spelling := by
  have twice : (∃ group ∈ codebase.classGroups typing spelling, token ∈ group ∧ token ∈ group) ↔ _ :=
    exists_mem_classGroups
  simpa only [mem_flatten, and_self] using twice

theorem nodup_flatten_classGroups (spelling : Text) :
    ((codebase.classGroups typing spelling).flatten.map Occurrence.address).Nodup := by
  rw [classGroups, ← flatMap_def, map_flatMap, nodup_flatMap]
  refine ⟨fun type _ => nodup_tokensOf (.property type), ?_⟩
  refine (nodup_classesOf spelling).imp fun {left right} different => ?_
  intro address ofLeft ofRight
  obtain ⟨token, tokenMember, rfl⟩ := mem_map.1 ofLeft
  obtain ⟨other, otherMember, same⟩ := mem_map.1 ofRight
  obtain ⟨tokenIn, tokenTarget⟩ := mem_tokensOf.1 tokenMember
  obtain ⟨otherIn, otherTarget⟩ := mem_tokensOf.1 otherMember
  rw [otherIn.eq_of_address tokenIn same, tokenTarget] at otherTarget
  cases otherTarget
  exact different rfl

theorem filter_typedTokens (spelling : Text) (type : TypeId) (tokens : List Occurrence) :
    ((tokens.filterMap (codebase.typedToken? typing spelling)).filter
        fun entry => entry.1 = type).map Prod.snd =
      tokens.filter fun token => codebase.target? typing token = some (.property type, spelling) := by
  induction tokens with
  | nil => rfl
  | cons token rest ih =>
    rw [filterMap_cons, filter_cons]
    cases typed : codebase.typedToken? typing spelling token with
    | none =>
      have notType : codebase.target? typing token ≠ some (.property type, spelling) := by
        intro found
        have isTyped : codebase.typedToken? typing spelling token = some (type, token) :=
          typedToken?_eq_some.2 ⟨rfl, found⟩
        rw [isTyped] at typed
        cases typed
      simp [notType, ih]
    | some entry =>
      obtain ⟨own, other⟩ := entry
      obtain ⟨rfl, found⟩ := typedToken?_eq_some.1 typed
      by_cases same : own = type <;> simp [found, same, ih]

section Shaped

variable (shaped : codebase.root.Shaped) (covers : typing.Covers codebase.root)
variable {base : Occurrence}

include shaped covers

/-- The search takes a token for a property of an object, which counts unless its object is the
global object. -/
theorem found_cases (inside : token.IsIn codebase.root) (spelling : Text) :
    ((codebase.lookForProperty (.text spelling) () token).found = [] ∧
      codebase.typedToken? typing spelling token = none) ∨
    ∃ base type, (codebase.lookForProperty (.text spelling) () token).found = [(token, some base)] ∧
      typing.class? base.address = some type ∧
      codebase.typedToken? typing spelling token =
        if type = typing.graph.root globalType then none else some (type, token) := by
  by_cases names : ∃ base, codebase.root.usage? token = .ok (some ⟨.property base, .text spelling⟩)
  · obtain ⟨base, used⟩ := names
    obtain ⟨_, object, rfl, isProperty⟩ := (shaped.usage?_property inside).1 used
    obtain ⟨type, found⟩ := Option.isSome_iff_exists.1 (covers object token isProperty)
    refine .inr ⟨object, typing.graph.root type, by simp [lookForProperty, used],
      by simp [class?, found], ?_⟩
    rw [typedToken?, target?_of_usage? used]
    by_cases isGlobal : typing.graph.root type = typing.graph.root globalType <;>
      simp [targetOf?, class?, found, isGlobal]
  · refine .inl ⟨?_, ?_⟩
    · unfold lookForProperty
      dsimp only
      split
      · rename_i base own used
        refine if_neg fun same => names ⟨base, ?_⟩
        rw [used, (Name.equals_text own spelling).1 same]
      · rfl
    · refine Option.eq_none_iff_forall_ne_some.2 fun entry typed => names ?_
      obtain ⟨role, used, ofRole⟩ := target?_eq_some.1 (typedToken?_eq_some.1 typed).2
      obtain ⟨base, rfl⟩ : ∃ base, role = .property base := of_targetOf? ofRole
      exact ⟨base, used⟩

theorem run_typedTokens (spelling : Text) (tokens : List Occurrence)
    (inside : ∀ token ∈ tokens, token.IsIn codebase.root) :
    (typedTokens (tokens.flatMap fun token =>
        (codebase.lookForProperty (.text spelling) () token).found)).run typing =
      .ok (tokens.filterMap (codebase.typedToken? typing spelling), typing) := by
  induction tokens with
  | nil => rfl
  | cons token rest ih =>
    rw [forall_mem_cons] at inside
    rw [flatMap_cons, filterMap_cons]
    rcases found_cases shaped covers inside.1 spelling with
      ⟨foundEq, typed⟩ | ⟨base, type, foundEq, isClass, typed⟩
    · rw [foundEq, typed]
      exact ih inside.2
    · rw [foundEq, typed, singleton_append, typedTokens,
        run_bind (run_baseRepresentative isClass), run_bind (run_isGlobalObject type),
        run_bind (ih inside.2)]
      by_cases isGlobal : type = typing.graph.root globalType
      · rw [if_pos (decide_eq_true isGlobal), if_pos isGlobal]
        rfl
      · rw [if_neg (by simpa using isGlobal), if_neg isGlobal]
        rfl

theorem run_propertyGroups (spelling : Text) :
    (codebase.propertyGroups (.text spelling)).run typing =
      .ok (codebase.classGroups typing spelling, typing) := by
  have gathered : codebase.root.gather (codebase.lookForProperty (.text spelling)) () [] =
      codebase.root.walk.flatMap fun token =>
        (codebase.lookForProperty (.text spelling) () token).found :=
    Occurrence.gather_eq_flatMap (fun _ => rfl) ⟨[], codebase.root⟩
  rw [propertyGroups, gathered, run_bind (run_typedTokens shaped covers spelling
    codebase.root.walk fun _ => Node.mem_walk.1)]
  refine congrArg (fun groups => Except.ok (groups, typing)) ?_
  exact map_congr_left fun type _ => filter_typedTokens spelling type codebase.root.walk

theorem renamePropertyWith_eq (inference : Inference) (spelling : Text) :
    codebase.renamePropertyWith inference typing (.text spelling) = .ok
      { kind := .property, name := .text spelling, groups := codebase.classGroups typing spelling,
        inference := some inference } := by
  rw [renamePropertyWith, run_propertyGroups shaped covers spelling]
  rfl

omit covers in
theorem renameProperty_eq {inference : Inference} (inferEq : codebase.infer = .ok inference)
    (covers : inference.typing.Covers codebase.root) (spelling : Text) :
    codebase.renameProperty (.text spelling) = .ok
      { kind := .property, name := .text spelling,
        groups := codebase.classGroups inference.typing spelling, inference := some inference } := by
  rw [renameProperty, inferEq]
  exact renamePropertyWith_eq shaped covers inference spelling

omit covers in
theorem mem_tokensOf_iff_targetOf? (isProperty : Occurrence.PropertyOf codebase.root base token)
    (named : token.tokenName? = some (.text spelling)) {target : Target} :
    token ∈ codebase.tokensOf typing target spelling ↔
      codebase.targetOf? typing token (.text spelling) (.property (some base)) = some target := by
  rw [mem_tokensOf, target?_of_usage? (isProperty.usage? shaped named)]
  simp [isProperty.isIn_token]

omit covers in
theorem mem_tokensOf_property (isProperty : Occurrence.PropertyOf codebase.root base token)
    (named : token.tokenName? = some (.text spelling)) {type : TypeId} :
    token ∈ codebase.tokensOf typing (.property type) spelling ↔
      typing.class? base.address = some type ∧ type ≠ typing.graph.root globalType := by
  simp [mem_tokensOf_iff_targetOf? shaped isProperty named, targetOf?_property_eq_property]

omit covers in
theorem mem_tokensOf_global_of_property
    (isProperty : Occurrence.PropertyOf codebase.root base token)
    (named : token.tokenName? = some (.text spelling)) :
    token ∈ codebase.tokensOf typing .global spelling ↔ typing.isGlobalAt base.address = true := by
  simp [mem_tokensOf_iff_targetOf? shaped isProperty named, targetOf?_property_eq_global]

theorem mem_flatten_classGroups_of_property
    (isProperty : Occurrence.PropertyOf codebase.root base token)
    (named : token.tokenName? = some (.text spelling)) :
    token ∈ (codebase.classGroups typing spelling).flatten ↔
      typing.isGlobalAt base.address = false := by
  obtain ⟨type, found⟩ := Option.isSome_iff_exists.1 (covers base token isProperty)
  have isClass : typing.class? base.address = some (typing.graph.root type) := by
    simp [class?, found]
  rw [mem_flatten_classGroups]
  simp [mem_tokensOf_property shaped isProperty named, isGlobalAt, isClass]

theorem exists_mem_classGroups_of_property {otherBase other : Occurrence}
    (isProperty : Occurrence.PropertyOf codebase.root base token)
    (named : token.tokenName? = some (.text spelling))
    (notGlobal : typing.isGlobalAt base.address = false)
    (isOther : Occurrence.PropertyOf codebase.root otherBase other)
    (otherNamed : other.tokenName? = some (.text spelling)) :
    (∃ group ∈ codebase.classGroups typing spelling, token ∈ group ∧ other ∈ group) ↔
      typing.class? base.address = typing.class? otherBase.address := by
  obtain ⟨type, found⟩ := Option.isSome_iff_exists.1 (covers base token isProperty)
  have isClass : typing.class? base.address = some (typing.graph.root type) := by
    simp [class?, found]
  rw [isGlobalAt, isClass, decide_eq_false_iff_not, Option.some.injEq] at notGlobal
  simp only [exists_mem_classGroups, mem_tokensOf_property shaped isProperty named,
    mem_tokensOf_property shaped isOther otherNamed, isClass, Option.some.injEq]
  constructor
  · rintro ⟨_, ⟨rfl, _⟩, sameClass, _⟩
    exact sameClass.symm
  · intro sameClass
    exact ⟨_, ⟨rfl, notGlobal⟩, sameClass.symm, notGlobal⟩

end Shaped

end Codebase

/-- The tokens of a property are divided by the classes of their objects.  Each of them is once in one
group of the property or, if its object is the global object, once in the group of the global
variable; two are in one group if and only if their objects are of one class.  Every object has
a type after inference, so to ask for types makes no new ones. -/
theorem renameProperty_eq_classes {root : Node} (parsed : root.IsParsed) :
    ∃ codebase inference, Codebase.ofRoot root = .ok codebase ∧ codebase.root = root ∧
      codebase.infer = .ok inference ∧
      (∀ base token, Occurrence.PropertyOf root base token →
        (inference.typing.type? base.address).isSome = true) ∧
      ∀ spelling, ∃ groups globals,
        codebase.renameProperty (.text spelling) = .ok
          { kind := .property, name := .text spelling, groups, inference := some inference } ∧
        codebase.renameGlobal (.text spelling) = .ok
          { kind := .globalVariable, name := .text spelling, groups := [globals],
            inference := some inference } ∧
        (codebase.propertyGroups (.text spelling)).run inference.typing =
          .ok (groups, inference.typing) ∧
        (codebase.globalGroup (.text spelling)).run inference.typing =
          .ok (globals, inference.typing) ∧
        (groups.flatten.map Occurrence.address).Nodup ∧
        (globals.map Occurrence.address).Nodup ∧
        (∀ token ∈ groups.flatten, token.tokenName? = some (.text spelling) ∧
          ∃ base, Occurrence.PropertyOf root base token) ∧
        ∀ base token, Occurrence.PropertyOf root base token →
          token.tokenName? = some (.text spelling) →
          (token ∈ globals ↔ inference.typing.isGlobalAt base.address = true) ∧
          (token ∈ groups.flatten ↔ inference.typing.isGlobalAt base.address = false) ∧
          ∀ otherBase other, Occurrence.PropertyOf root otherBase other →
            other.tokenName? = some (.text spelling) →
            inference.typing.isGlobalAt base.address = false →
            ((∃ group ∈ groups, token ∈ group ∧ other ∈ group) ↔
              inference.typing.class? base.address =
                inference.typing.class? otherBase.address) := by
  have shaped : root.codebase.root.Shaped := parsed.shaped
  obtain ⟨inference, inferEq, covers⟩ := exists_covering parsed.shaped
  refine ⟨root.codebase, inference, Codebase.ofRoot_eq shaped, rfl, inferEq, covers,
    fun spelling => ?_⟩
  refine ⟨_, _, ?_, ?_, Codebase.run_propertyGroups shaped covers spelling,
    Codebase.run_globalGroup shaped covers spelling, Codebase.nodup_flatten_classGroups spelling,
    Codebase.nodup_tokensOf .global, ?_, ?_⟩
  · rw [Codebase.renameProperty, inferEq]
    exact Codebase.renamePropertyWith_eq shaped covers inference spelling
  · rw [Codebase.renameGlobal, inferEq]
    exact Codebase.renameGlobalWith_eq shaped covers inference spelling
  · intro token member
    obtain ⟨type, member⟩ := Codebase.mem_flatten_classGroups.1 member
    obtain ⟨inside, found⟩ := Codebase.mem_tokensOf.1 member
    obtain ⟨named, base, isProperty, _⟩ := (Codebase.target?_eq_property shaped inside).1 found
    exact ⟨named, base, isProperty⟩
  · intro base token isProperty named
    refine ⟨Codebase.mem_tokensOf_global_of_property shaped isProperty named,
      Codebase.mem_flatten_classGroups_of_property shaped covers isProperty named, ?_⟩
    intro otherBase other isOther otherNamed notGlobal
    exact Codebase.exists_mem_classGroups_of_property shaped covers isProperty named notGlobal
      isOther otherNamed

/-- A property of an object literal, and one of the global object. -/
theorem renameProperty_eq_classes_literal :
    ∃ root, ((⟨"", "({a:1}).a;this.a"⟩ : SourceFile).parse false).result = .ok root ∧
      root.IsParsed ∧ ∃ codebase inference groups base token,
        Codebase.ofRoot root = .ok codebase ∧ codebase.infer = .ok inference ∧
        codebase.renameProperty (.text (Text.ofString "a")) = .ok
          { kind := .property, name := .text (Text.ofString "a"), groups,
            inference := some inference } ∧
        Occurrence.PropertyOf root base token ∧
        token.tokenName? = some (.text (Text.ofString "a")) ∧
        inference.typing.isGlobalAt base.address = false ∧ token ∈ groups.flatten := by
  have found : ((⟨"", "({a:1}).a;this.a"⟩ : SourceFile).parse false).result.toOption.any
      (fun root => ∃ inference ∈ root.codebase.infer.toOption, ∃ token ∈ root.walk,
        (root.codebase.typedToken? inference.typing (Text.ofString "a") token).isSome) = true := by
    decide +kernel
  obtain ⟨root, parseEq, parsed, inference, inferred, token, inside, typed⟩ := Node.exists_isParsed found
  obtain ⟨codebase, _, analysed, _, inferEq, _, renamed⟩ := renameProperty_eq_classes parsed
  obtain ⟨groups, _, groupsEq, _, _, _, _, _, _, members⟩ := renamed (Text.ofString "a")
  obtain rfl := Codebase.eq_of_ofRoot parsed.shaped analysed
  rw [inferEq] at inferred
  cases inferred
  obtain ⟨entry, typed⟩ := Option.isSome_iff_exists.1 typed
  have isTarget := (Codebase.typedToken?_eq_some.1 typed).2
  obtain ⟨named, base, isProperty, isClass, notGlobal⟩ :=
    (Codebase.target?_eq_property parsed.shaped (Node.mem_walk.1 inside)).1 isTarget
  have notGlobalAt : inference.typing.isGlobalAt base.address = false := by
    simpa [Typing.isGlobalAt, isClass] using notGlobal
  exact ⟨root, parseEq, parsed, root.codebase, inference, groups, base, token, analysed, inferEq,
    groupsEq, isProperty, named, notGlobalAt, (members base token isProperty named).2.1.2 notGlobalAt⟩

end Namesake
