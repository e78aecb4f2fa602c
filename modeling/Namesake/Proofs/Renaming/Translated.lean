import Namesake.Proofs.Inference.TranslatedVisit
import Namesake.Proofs.Renaming.PropertyGroups
import Mathlib.Logic.Equiv.Basic

/-!
A property is renamed by the types of the objects that it belongs to, and types do not depend on
how things are called.
-/

namespace Namesake

open List Synthetic

variable {translation : Text → Text}
variable {token : Occurrence}

namespace Field

theorem getElem?_translateItems (items : List Field) (place : Nat) :
    (translateItems translation items)[place]? =
      items[place]?.map (Field.translate translation false) := by
  induction items generalizing place with
  | nil => rfl
  | cons item rest ih =>
    cases place with
    | zero => rfl
    | succ place => exact ih place

end Field

namespace Occurrence

variable {root : Node}
variable {base : Occurrence}

theorem IsIn.of_translate {place : Occurrence}
    (inside : place.IsIn (root.translate translation false)) :
    ∃ origin : Occurrence, origin.IsIn root ∧ place = origin.translated translation root := by
  rw [← Node.mem_walk, walk_translate] at inside
  obtain ⟨origin, member, same⟩ := mem_map.1 inside
  exact ⟨origin, Node.mem_walk.1 member, same.symm⟩

theorem PropertyOf.isKeyAt (isProperty : PropertyOf root base token) :
    root.isKeyAt token.address = true := by
  cases isProperty with
  | member inside named => exact isKeyAt_child inside ⟨1, none⟩
  | key inside found => exact isKeyAt_child (isIn_item inside 0 rfl found) ⟨0, none⟩

theorem PropertyOf.translated (isProperty : PropertyOf root base token) :
    PropertyOf (root.translate translation false) (base.translated translation root)
      (token.translated translation root) := by
  have isKey := isProperty.isKeyAt
  cases isProperty with
  | @member address object key computed location inside named =>
    have notKey : root.isKeyAt (⟨0, none⟩ :: address) = false := isKeyAt_child inside ⟨0, none⟩
    unfold Occurrence.translated
    rw [isKey, notKey]
    refine .member (IsIn.translated inside) ?_
    rwa [Node.kind_translate]
  | @key address items location place key value kind propertyLocation inside found =>
    unfold Occurrence.translated
    rw [isKey]
    apply PropertyOf.key (IsIn.translated inside)
    rw [Field.getElem?_translateItems, found]
    rfl

theorem PropertyOf.of_translated (shaped : root.Shaped) (inside : token.IsIn root)
    (isProperty : PropertyOf (root.translate translation false) base (token.translated translation
      root)) :
    ∃ origin, PropertyOf root origin token ∧ origin.address = base.address := by
  generalize same : token.translated translation root = new at isProperty
  have addressEq : token.address = new.address := by rw [← same, address_translated]
  cases isProperty with
  | member memberIn named =>
    obtain ⟨⟨_, node⟩, originIn, originEq⟩ := IsIn.of_translate memberIn
    obtain ⟨rfl, nodeEq⟩ := Occurrence.mk.inj originEq
    have isMember : node.kind = .memberExpression :=
      (Node.kind_translate node _).symm.trans (congrArg Node.kind nodeEq.symm)
    obtain ⟨_, _, _, fits⟩ := shaped.inner originIn (by simp [isMember]) (by simp [isMember])
    obtain ⟨object, key, computed, location, rfl, _⟩ := fits.memberExpression isMember
    cases nodeEq
    rw [Node.kind_translate] at named
    have isProperty := PropertyOf.member originIn named
    obtain rfl := isProperty.isIn_token.eq_of_address inside addressEq.symm
    exact ⟨_, isProperty, rfl⟩
  | key objectIn found =>
    obtain ⟨⟨_, node⟩, originIn, originEq⟩ := IsIn.of_translate objectIn
    obtain ⟨rfl, nodeEq⟩ := Occurrence.mk.inj originEq
    have isObject : node.kind = .objectExpression :=
      (Node.kind_translate node _).symm.trans (congrArg Node.kind nodeEq.symm)
    obtain ⟨_, _, _, fits⟩ := shaped.inner originIn (by simp [isObject]) (by simp [isObject])
    obtain ⟨_, _, rfl, fit⟩ := fits.exists_fields isObject rfl
    obtain ⟨_, rfl, itemsFit⟩ := fit.one
    obtain ⟨properties, rfl, propertiesFit⟩ := Field.fits_many.1 itemsFit
    cases nodeEq
    rw [Field.getElem?_translateItems] at found
    obtain ⟨item, itemFound, itemEq⟩ := Option.map_eq_some_iff.1 found
    obtain ⟨property, member, rfl⟩ := mem_map.1 (mem_of_getElem? itemFound)
    have propertyFits := propertiesFit property member
    obtain ⟨key, value, kind, _, rfl, _⟩ :=
      propertyFits.property (mem_singleton.1 propertyFits.kind_mem)
    cases itemEq
    have isProperty := PropertyOf.key originIn itemFound
    obtain rfl := isProperty.isIn_token.eq_of_address inside addressEq.symm
    exact ⟨_, isProperty, rfl⟩

theorem PropertyOf.tokenName?_translated (isProperty : PropertyOf root base token) :
    (token.translated translation root).tokenName? =
      token.tokenName?.map (Name.translate translation) := by
  unfold Occurrence.translated
  rw [isProperty.isKeyAt]
  obtain ⟨address, kind, fields, location⟩ := token
  cases kind with
  | identifier =>
    rcases fields with _ | ⟨value, _ | ⟨other, rest⟩⟩
    · rfl
    · change (if (value.translateName translation).isNull then none
        else some (Name.ofField address (value.translateName translation))) =
          (if value.isNull then none else some (Name.ofField address value)).map _
      rw [Infer.isNull_translateName, Name.ofField_translateName]
      split <;> rfl
    · rfl
  | literal =>
    rcases fields with _ | ⟨value, rest⟩
    · rfl
    · cases value with
      | data value => cases value <;> rfl
      | _ => rfl
  | _ => rfl

end Occurrence

namespace Codebase

variable {root : Node} {typing : Typing} (injective : translation.Injective) (shaped : root.Shaped)

include injective shaped

theorem target?_translated (inside : token.IsIn root) {type : TypeId} {spelling : Text} :
    (root.translate translation false).codebase.target? (typing.translate translation)
        (token.translated translation root) = some (.property type, translation spelling) ↔
      root.codebase.target? typing token = some (.property type, spelling) := by
  have classEq (address : Address) :
      (typing.translate translation).class? address = typing.class? address :=
    congrArg (Option.map · (typing.type? address)) (funext (TypeGraph.root_translate typing.graph))
  have globalEq : (typing.translate translation).graph.root Typing.globalType =
      typing.graph.root Typing.globalType :=
    TypeGraph.root_translate typing.graph Typing.globalType
  rw [target?_eq_property (shaped.translate false) inside.translated,
    target?_eq_property shaped inside, globalEq]
  constructor
  · rintro ⟨named, base, isProperty, isClass, notGlobal⟩
    obtain ⟨origin, isOrigin, addressEq⟩ := isProperty.of_translated shaped inside
    rw [isOrigin.tokenName?_translated, Option.map_eq_some_iff] at named
    obtain ⟨name, named, translated⟩ := named
    rw [(Name.translate_eq_text injective).1 translated] at named
    rw [classEq, ← addressEq] at isClass
    exact ⟨named, origin, isOrigin, isClass, notGlobal⟩
  · rintro ⟨named, base, isProperty, isClass, notGlobal⟩
    have isProperty : Occurrence.PropertyOf root base token := isProperty
    refine ⟨?_, base.translated translation root, isProperty.translated, ?_, notGlobal⟩
    · rw [isProperty.tokenName?_translated, named]
      rfl
    · rw [classEq]
      exact isClass

theorem typedToken?_translated (inside : token.IsIn root) (spelling : Text) :
    (root.translate translation false).codebase.typedToken? (typing.translate translation)
        (translation spelling) (token.translated translation root) =
      (root.codebase.typedToken? typing spelling token).map
        (Prod.map id (Occurrence.translated translation root)) := by
  apply Option.ext
  rintro ⟨type, found⟩
  rw [typedToken?_eq_some, target?_translated injective shaped inside, Option.map_eq_some_iff]
  constructor
  · rintro ⟨rfl, isTarget⟩
    exact ⟨(type, token), typedToken?_eq_some.2 ⟨rfl, isTarget⟩, rfl⟩
  · rintro ⟨⟨own, other⟩, typed, same⟩
    obtain ⟨rfl, isTarget⟩ := typedToken?_eq_some.1 typed
    cases same
    exact ⟨rfl, isTarget⟩

theorem classGroups_translate (spelling : Text) :
    (root.translate translation false).codebase.classGroups (typing.translate translation)
        (translation spelling) =
      (root.codebase.classGroups typing spelling).map
        (List.map (Occurrence.translated translation root)) := by
  have typed : (root.translate translation false).walk.filterMap
        ((root.translate translation false).codebase.typedToken? (typing.translate translation)
          (translation spelling)) =
      (root.walk.filterMap (root.codebase.typedToken? typing spelling)).map
        (Prod.map id (Occurrence.translated translation root)) := by
    rw [Occurrence.walk_translate, filterMap_map, map_filterMap]
    apply filterMap_congr
    intro token member
    exact typedToken?_translated injective shaped (Node.mem_walk.1 member) spelling
  have classes : (root.translate translation false).codebase.classesOf (typing.translate translation)
      (translation spelling) = root.codebase.classesOf typing spelling := by
    unfold classesOf
    change (((List.filterMap _ (root.translate translation false).walk).map _).mergeSort _).eraseDups =
      _
    rw [typed, map_map]
    rfl
  have tokens (type : TypeId) : (root.translate translation false).codebase.tokensOf
        (typing.translate translation) (.property type) (translation spelling) =
      (root.codebase.tokensOf typing (.property type) spelling).map
        (Occurrence.translated translation root) := by
    unfold tokensOf
    change List.filter _ (root.translate translation false).walk = _
    rw [Occurrence.walk_translate, filter_map]
    refine congrArg (List.map _) (filter_congr fun token member => ?_)
    exact decide_eq_decide.2 (target?_translated injective shaped (Node.mem_walk.1 member))
  unfold classGroups
  rw [classes, map_map]
  exact map_congr_left fun type _ => tokens type

end Codebase

/-- Inference depends on names only through their being equal.  Under other names that are as different
as the old ones and that keep those which inference knows, the scopes of a tree declare the same under
the other names, and inference comes to the same types, marks and methods, with the other names on
properties and variables.  So a property has under its other name the groups that it had, node for
node. -/
theorem renameProperty_translate (faithful : Faithful translation) {root : Node}
    (parsed : root.IsParsed) :
    ∃ codebase translated inference, Codebase.ofRoot root = .ok codebase ∧
      Codebase.ofRoot (root.translate translation false) = .ok translated ∧
      translated.scopes = codebase.scopes.translate translation ∧
      codebase.infer = .ok inference ∧
      translated.infer = .ok (inference.translate translation) ∧
      ∀ name, ∃ groups, codebase.renameProperty (.text name) = .ok
          { kind := .property, name := .text name, groups, inference := some inference } ∧
        translated.renameProperty (.text (translation name)) = .ok
          { kind := .property, name := .text (translation name)
            groups := groups.map (List.map (Occurrence.translated translation root))
            inference := some (inference.translate translation) } ∧
        ∀ token ∈ groups.flatten, token.IsIn root ∧
          (token.translated translation root).IsIn (root.translate translation false) := by
  have shaped := parsed.shaped
  have translatedShaped : (root.translate translation false).Shaped := shaped.translate false
  have scopes : (root.translate translation false).codebase.scopes =
      root.codebase.scopes.translate translation :=
    Node.scopes_translate faithful.injective faithful.arguments shaped
  obtain ⟨inference, inferEq, covers⟩ := exists_covering shaped
  have translatedEq : (root.translate translation false).codebase.infer =
      .ok (inference.translate translation) := by
    have translatedEq := Codebase.infer_translate faithful inferEq
    rwa [← scopes] at translatedEq
  refine ⟨root.codebase, (root.translate translation false).codebase, inference,
    Codebase.ofRoot_eq shaped, Codebase.ofRoot_eq translatedShaped, scopes, inferEq, translatedEq, ?_⟩
  intro name
  have translatedCovers : (inference.translate translation).typing.Covers
      (root.translate translation false).codebase.root := by
    obtain ⟨other, otherEq, covers⟩ := exists_covering translatedShaped
    obtain rfl := Except.ok.inj (otherEq.symm.trans translatedEq)
    exact covers
  refine ⟨root.codebase.classGroups inference.typing name,
    Codebase.renameProperty_eq shaped inferEq covers name, ?_, ?_⟩
  · rw [Codebase.renameProperty_eq translatedShaped translatedEq translatedCovers,
      ← Codebase.classGroups_translate faithful.injective shaped]
    rfl
  · intro token member
    obtain ⟨type, member⟩ := Codebase.mem_flatten_classGroups.1 member
    have inside : token.IsIn root := (Codebase.mem_tokensOf.1 member).1
    exact ⟨inside, inside.translated⟩

theorem faithful_swap {left right : Text}
    (unknown : ∀ known ∈ [.ofString "undefined", .ofString "prototype", .ofString "arguments",
      receiver, result, element, owner],
      known ≠ left ∧ known ≠ right) :
    Faithful (Equiv.swap left right) := by
  have fixed {known : Text} (member : known ∈ [.ofString "undefined", .ofString "prototype",
      .ofString "arguments", receiver, result, element,
      owner]) : Equiv.swap left right known = known :=
    Equiv.swap_apply_of_ne_of_ne (unknown known member).1 (unknown known member).2
  exact ⟨(Equiv.swap left right).injective, fixed (by simp), fixed (by simp), fixed (by simp),
    fixed (by simp), fixed (by simp), fixed (by simp), fixed (by simp)⟩

/-- A key of an object literal and a member are in one group, whatever they are called. -/
theorem renameProperty_translate_swap :
    ∃ root, ((⟨"", "({a:1}).a"⟩ : SourceFile).parse false).result = .ok root ∧ root.IsParsed ∧
      Faithful (Equiv.swap (.ofString "a") (.ofString "b")) ∧
      ∃ codebase translated inference groups, Codebase.ofRoot root = .ok codebase ∧
        Codebase.ofRoot (root.translate (Equiv.swap (.ofString "a") (.ofString "b")) false) =
          .ok translated ∧
        codebase.infer = .ok inference ∧
        codebase.renameProperty (.text (.ofString "a")) = .ok
          { kind := .property, name := .text (.ofString "a"), groups, inference := some inference } ∧
        (∃ token, token ∈ groups.flatten) ∧
        translated.renameProperty (.text (.ofString "b")) = .ok
          { kind := .property, name := .text (.ofString "b")
            groups := groups.map (List.map
              (Occurrence.translated (Equiv.swap (.ofString "a") (.ofString "b")) root))
            inference := some
              (inference.translate (Equiv.swap (.ofString "a") (.ofString "b"))) } := by
  have found : ((⟨"", "({a:1}).a"⟩ : SourceFile).parse false).result.toOption.any
      (fun root => ∃ inference ∈ root.codebase.infer.toOption, ∃ token ∈ root.walk,
        (root.codebase.typedToken? inference.typing (.ofString "a") token).isSome) = true := by
    decide +kernel
  obtain ⟨root, parseEq, parsed, inference, inferred, token, inside, typed⟩ := Node.exists_isParsed found
  have faithful : Faithful (Equiv.swap (Text.ofString "a") (Text.ofString "b")) :=
    faithful_swap (by decide)
  obtain ⟨codebase, translated, _, codebaseEq, translatedEq, _, inferEq, _, renamed⟩ :=
    renameProperty_translate faithful parsed
  obtain ⟨groups, groupsEq, translatedGroups, _⟩ := renamed (Text.ofString "a")
  rw [Equiv.swap_apply_left] at translatedGroups
  obtain rfl := Codebase.eq_of_ofRoot parsed.shaped codebaseEq
  rw [inferEq] at inferred
  cases inferred
  obtain ⟨entry, typed⟩ := Option.isSome_iff_exists.1 typed
  have isTarget := (Codebase.typedToken?_eq_some.1 typed).2
  obtain ⟨other, otherEq, covers⟩ := exists_covering parsed.shaped
  obtain rfl := Except.ok.inj (inferEq.symm.trans otherEq)
  have same : groups = _ := congrArg Renaming.groups (Except.ok.inj (groupsEq.symm.trans
    (Codebase.renameProperty_eq parsed.shaped inferEq covers (.ofString "a"))))
  have member : token ∈ groups.flatten := by
    rw [same, Codebase.mem_flatten_classGroups]
    exact ⟨entry.1, Codebase.mem_tokensOf.2 ⟨Node.mem_walk.1 inside, isTarget⟩⟩
  exact ⟨root, parseEq, parsed, faithful, root.codebase, translated, inference, groups, codebaseEq,
    translatedEq, inferEq, groupsEq, ⟨token, member⟩, translatedGroups⟩

end Namesake
