import Namesake.Proofs.Tree.Translated

/-!
A scope declares under other names what it declared before, in the same order: names that were
different are still different, so the first declaration of a name is still the first one.
-/

namespace Namesake

def Name.translate (translation : Text → Text) : Name → Name
  | .text spelling => .text (translation spelling)
  | .other value holder => .other (value.translateName translation) holder

def Declaration.translate (translation : Text → Text) (declaration : Declaration) : Declaration :=
  (declaration.1.translate translation, declaration.2)

def Env.translate (translation : Text → Text) (env : Env) : Env :=
  env.map (Declaration.translate translation)

def Scopes.translate (translation : Text → Text) (scopes : Scopes) : Scopes :=
  scopes.map (Prod.map id (Env.translate translation))

variable {translation : Text → Text}

theorem Name.value_translate (name : Name) :
    (name.translate translation).value = name.value.translateName translation := by
  cases name <;> rfl

theorem Name.ofField_translateName (holder : Address) (value : Field) :
    Name.ofField holder (value.translateName translation) =
      (Name.ofField holder value).translate translation := by
  cases value with
  | data value => cases value <;> rfl
  | node child => rfl
  | list items => rfl

theorem Name.translate_eq_text (injective : translation.Injective) {name : Name} {spelling : Text} :
    name.translate translation = .text (translation spelling) ↔ name = .text spelling := by
  cases name with
  | text own =>
    simp only [Name.translate, Name.text.injEq]
    exact injective.eq_iff
  | other value holder => simp [Name.translate]

theorem Field.nameValue?_translate (field : Field) (isKey : Bool) :
    (field.translate translation isKey).nameValue? =
      field.nameValue?.map (Field.translateName translation) := by
  cases field with
  | node child =>
    obtain ⟨kind, fields, location⟩ := child
    cases kind with
    | identifier => rcases fields with _ | ⟨value, _ | ⟨other, rest⟩⟩ <;> rfl
    | _ => rfl
  | _ => rfl

namespace Env

variable (injective : translation.Injective)

include injective

theorem find?_translate (env : Env) (spelling : Text) :
    (env.translate translation).find? (.text (translation spelling)) =
      env.find? (.text spelling) := by
  have same : (fun entry : Declaration => entry.1.same (.text (translation spelling))) ∘
      Declaration.translate translation = fun entry => entry.1.same (.text spelling) := by
    funext entry
    rw [Bool.eq_iff_iff, Function.comp_apply, Name.same_text, Name.same_text]
    exact Name.translate_eq_text injective
  rw [find?, find?, translate, List.find?_map, same, Option.map_map]
  rfl

theorem declare_translate (env : Env) (spelling : Text) (address : Address) :
    (env.translate translation).declare (.text (translation spelling)) address =
      (env.declare (.text spelling) address).translate translation := by
  rw [declare, declare, declares, declares, find?_translate injective]
  split
  · rfl
  · rw [translate, translate, List.map_append]
    rfl

theorem declareAll_translate (env : Env) (declarations : List Declaration)
    (texts : ∀ declaration ∈ declarations, ∃ spelling, declaration.1 = .text spelling) :
    (env.translate translation).declareAll (declarations.map (Declaration.translate translation)) =
      (env.declareAll declarations).translate translation := by
  induction declarations generalizing env with
  | nil => rfl
  | cons declaration rest ih =>
    obtain ⟨⟨spelling, named⟩, others⟩ := List.forall_mem_cons.1 texts
    have first := declare_translate injective env spelling declaration.2
    have name : (declaration.1.translate translation) = .text (translation spelling) := by
      rw [named]
      rfl
    change Env.declareAll ((env.translate translation).declare (declaration.1.translate translation)
      declaration.2) (rest.map (Declaration.translate translation)) =
        Env.translate translation ((env.declare declaration.1 declaration.2).declareAll rest)
    rw [name, first, ih _ others, named]

end Env

namespace Occurrence

variable {root : Node} {place : Occurrence}

theorem name?_translated (place : Occurrence) :
    (place.translated translation root).name? = place.name?.map (Name.translate translation) := by
  unfold name?
  change Option.map _ (Field.translate translation _ (.node place.node)).nameValue? = _
  rw [Field.nameValue?_translate, Option.map_map, Option.map_map]
  congr 1
  funext value
  exact Name.ofField_translateName place.address value

theorem declaration?_translated (place : Occurrence) :
    (place.translated translation root).declaration? =
      place.declaration?.map (Declaration.translate translation) := by
  unfold declaration?
  rw [name?_translated, Option.map_map, Option.map_map]
  rfl

section Arguments

variable (arguments : translation (.ofString "arguments") = .ofString "arguments")

include arguments

theorem declarations_translated (inside : place.IsIn root) :
    (place.translated translation root).declarations =
      place.declarations.map (Declaration.translate translation) := by
  refine carries_translated.declarations (fun _ => declaration?_translated _) inside fun _ => ?_
  unfold Declaration.translate argumentsName Name.translate
  dsimp only
  rw [arguments]
  rfl

theorem scopeEntry?_translated (injective : translation.Injective) (shaped : root.Shaped)
    (inside : place.IsIn root) :
    Occurrence.scopeEntry? (place.translated translation root) =
      place.scopeEntry?.map (Prod.map id (Env.translate translation)) := by
  have texts : ∀ declaration ∈ place.declarations, ∃ spelling, declaration.1 = .text spelling := by
    intro declaration member
    obtain ⟨_, rfl⟩ | ⟨token, tokenIn, declares⟩ := of_mem_declarations inside member
    · exact ⟨_, rfl⟩
    · exact shaped.text_of_name? tokenIn (declaration?_eq_some.1 declares).1
  unfold scopeEntry?
  rw [kind_translated, declarations_translated arguments inside]
  split
  · exact congrArg (fun env => some (place.address, env))
      (Env.declareAll_translate injective [] place.declarations texts)
  · rfl

end Arguments

end Occurrence

theorem Node.scopes_translate (injective : translation.Injective)
    (arguments : translation (.ofString "arguments") = .ofString "arguments") {root : Node}
    (shaped : root.Shaped) :
    (root.translate translation false).scopes = root.scopes.translate translation := by
  unfold Node.scopes Scopes.translate
  rw [Occurrence.walk_translate, List.filterMap_map, List.map_filterMap]
  apply List.filterMap_congr
  intro place member
  exact Occurrence.scopeEntry?_translated arguments injective shaped (Node.mem_walk.1 member)

end Namesake
