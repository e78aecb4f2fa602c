import Namesake.Proofs.Tree.Respelled

/-!
A scope of the new tree has the declarations of the old one, with the new spelling where a token
was respelled.
-/

namespace Namesake

open Occurrence

variable {place : Occurrence}

namespace Occurrence

/-- A declaration with the new spelling, if its token is respelled. -/
def respellDeclaration (tokens : List Address) (spelling : Text) (declaration : Declaration) :
    Declaration :=
  if declaration.2 ∈ tokens then (.text spelling, declaration.2) else declaration

variable {root : Node} {tokens : List Address} {spelling : Text}

section Shaped

variable (shaped : root.Shaped)
  (identifiers : ∀ place : Occurrence, place.IsIn root → place.address ∈ tokens →
    place.node.kind = .identifier)

include shaped identifiers

theorem declaration?_respelled (inside : place.IsIn root) :
    (place.respelled tokens spelling).declaration? =
      place.declaration?.map (respellDeclaration tokens spelling) := by
  unfold declaration?
  by_cases chosen : place.address ∈ tokens
  · have isIdentifier := identifiers place inside chosen
    have inner := shaped.inner inside (by simp [isIdentifier]) (by simp [isIdentifier])
    obtain ⟨own, named, _⟩ := name?_of_inner inner isIdentifier
    rw [name?_respelled_of_mem isIdentifier chosen, named]
    simp [respellDeclaration, chosen]
  · rw [name?_respelled_of_not_mem shaped inside chosen]
    cases place.name? with
    | none => rfl
    | some name => simp [respellDeclaration, chosen]

theorem declarations_respelled (inside : place.IsIn root) :
    (place.respelled tokens spelling).declarations =
      place.declarations.map (respellDeclaration tokens spelling) := by
  refine (carries_respelled shaped).declarations (declaration?_respelled shaped identifiers) inside
    fun isFunction => if_neg fun chosen => ?_
  rw [identifiers place inside chosen] at isFunction
  cases isFunction

end Shaped

end Occurrence

namespace Codebase

variable {root : Node} {tokens : List Address} {spelling : Text} (shaped : root.Shaped)

include shaped

theorem declares_respelled
    (identifiers : ∀ place : Occurrence, place.IsIn root → place.address ∈ tokens → place.node.kind
      = .identifier)
    (inside : place.IsIn root) {name : Text} :
    (root.respell tokens spelling []).codebase.Declares (place.respelled tokens spelling)
        (.text name) ↔
      place.node.kind.isScope = true ∧ ∃ declaration ∈ place.declarations,
        (Occurrence.respellDeclaration tokens spelling declaration).1 = .text name := by
  rw [declares_iff (inside.respelled shaped), kind_respelled,
    declarations_respelled shaped identifiers inside]
  refine and_congr_right fun _ => ?_
  constructor
  · rintro ⟨address, member⟩
    obtain ⟨declaration, declared, same⟩ := List.mem_map.1 member
    exact ⟨declaration, declared, congrArg Prod.fst same⟩
  · rintro ⟨declaration, declared, same⟩
    refine ⟨(Occurrence.respellDeclaration tokens spelling declaration).2, ?_⟩
    rw [← same]
    exact List.mem_map_of_mem declared

theorem isFunctionName_respell (inside : place.IsIn root) :
    (root.respell tokens spelling []).codebase.IsFunctionName place.address ↔
      root.codebase.IsFunctionName place.address := by
  obtain ⟨address, node⟩ := place
  cases address with
  | nil => rfl
  | cons step rest =>
    obtain ⟨parent, parentFound, _⟩ := Node.exists_at?_of_cons inside
    have parentIn : (⟨rest, parent⟩ : Occurrence).IsIn root := parentFound
    have respelledFound : (root.respell tokens spelling []).at? rest =
        some (parent.respell tokens spelling rest) := parentIn.respelled shaped
    refine and_congr_right fun _ => ?_
    simp [Node.codebase, parentFound, respelledFound]

theorem exists_start (inside : place.IsIn root) :
    ∃ start : Occurrence, start.IsIn root ∧ ∀ name,
      root.codebase.declaringScope? place.address name =
        root.codebase.scopeAbove? start.address name ∧
      (root.respell tokens spelling []).codebase.declaringScope? place.address name =
        (root.respell tokens spelling []).codebase.scopeAbove? start.address name := by
  have originalShaped : root.codebase.root.Shaped := shaped
  have respelledShaped : (root.respell tokens spelling []).codebase.root.Shaped := shaped.respell []
  have respelledIn : (place.respelled tokens spelling).IsIn (root.respell tokens spelling []) :=
    inside.respelled shaped
  by_cases isName : root.codebase.IsFunctionName place.address
  · obtain ⟨address, node⟩ := place
    cases address with
    | nil => exact isName.elim
    | cons step rest =>
      obtain ⟨rfl, parent, parentFound, isDeclaration⟩ := isName
      have parentIn : (⟨rest, parent⟩ : Occurrence).IsIn root.codebase.root := parentFound
      have idFound : root.codebase.root.at? (⟨0, none⟩ :: rest) = some node := inside
      refine ⟨⟨rest, parent⟩, parentIn, fun name => ⟨?_, ?_⟩⟩
      · exact declaringScope?_functionName originalShaped parentIn isDeclaration idFound
      · exact declaringScope?_functionName respelledShaped (parentIn.respelled shaped)
          (by simpa using isDeclaration) respelledIn
  · refine ⟨place, inside, fun name => ⟨?_, ?_⟩⟩
    · exact declaringScope?_of_not_functionName originalShaped inside isName
    · refine declaringScope?_of_not_functionName respelledShaped respelledIn ?_
      exact fun respelledName => isName ((isFunctionName_respell shaped inside).1 respelledName)

theorem scopeAbove?_respell {start : Occurrence} (inside : start.IsIn root) (name : Name) :
    (root.respell tokens spelling []).codebase.scopeAbove? start.address name =
      ((root.above start.address).find? fun outer => outer.node.kind.isScope &&
        (root.respell tokens spelling []).codebase.scopes.declares outer.address name).map
        (Occurrence.respelled tokens spelling) := by
  rw [scopeAbove?]
  change ((root.respell tokens spelling []).above start.address).find? _ = _
  rw [above_respell shaped inside, List.find?_map]
  simp only [Function.comp_def, kind_respelled, address_respelled]

omit shaped in
theorem find?_eq_of_fewer {list : List Occurrence} {before after : Occurrence → Bool}
    (fewer : ∀ place ∈ list, after place = true → before place = true)
    (still : ∀ place, list.find? before = some place → after place = true) :
    list.find? after = list.find? before := by
  induction list with
  | nil => rfl
  | cons place rest ih =>
    by_cases wanted : before place = true
    · rw [List.find?_cons_of_pos wanted] at still ⊢
      rw [List.find?_cons_of_pos (still place rfl)]
    · have unwanted : ¬ after place = true := fun now =>
        wanted (fewer place List.mem_cons_self now)
      rw [List.find?_cons_of_neg wanted] at still ⊢
      rw [List.find?_cons_of_neg unwanted]
      exact ih (fun other member => fewer other (List.mem_cons_of_mem _ member)) still

theorem declaringScope?_respelled (inside : place.IsIn root) {old new : Name}
    (fewer : ∀ outer : Occurrence, outer.IsIn root → (root.respell tokens spelling
      []).codebase.Declares (outer.respelled tokens spelling) new → root.codebase.Declares outer
      old) :
    (root.respell tokens spelling []).codebase.declaringScope? place.address new =
        (root.codebase.declaringScope? place.address old).map (Occurrence.respelled tokens spelling) ↔
      ∀ scope, root.codebase.declaringScope? place.address old = some scope →
        (root.respell tokens spelling []).codebase.Declares (scope.respelled tokens spelling) new := by
  constructor
  · intro same scope found
    rw [found] at same
    exact (of_declaringScope? same).2.1
  · intro still
    obtain ⟨start, startIn, lookup⟩ := exists_start shaped inside
    rw [(lookup old).1] at still ⊢
    rw [(lookup new).2, scopeAbove?_respell shaped startIn]
    refine congrArg (Option.map _) (find?_eq_of_fewer ?_ ?_)
    · intro outer member declares
      have outerIn := (of_mem_above member).1
      have declared := fewer outer outerIn (by simpa [Declares] using declares)
      simpa [Declares] using declared
    · intro scope found
      have declares := still scope found
      simpa [Declares] using declares

end Codebase

end Namesake
