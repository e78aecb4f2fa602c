import Namesake.Proofs.Tree.Parsed
import Namesake.Usage

/-!
A name is looked up outwards.  Seen from the outside, the scope of a child follows from that of
its parent.
-/

namespace Namesake

open List Occurrence

variable {node : Node} {place : Occurrence} {step : Step}

namespace Name

@[simp]
theorem same_text (left : Name) (spelling : Text) :
    left.same (.text spelling) = true ↔ left = .text spelling := by
  cases left <;> simp [same]

@[simp]
theorem equals_text (left : Name) (spelling : Text) :
    left.equals (.text spelling) = true ↔ left = .text spelling := by
  cases left <;> simp [equals, same, isNaN]

end Name

namespace Occurrence

theorem isNamed_text {spelling : Text} :
    place.isNamed (.text spelling) = true ↔ place.name? = some (.text spelling) := by
  unfold isNamed
  cases place.name? <;> simp

theorem kind_of_name? {name : Name} (named : place.name? = some name) :
    place.node.kind = .identifier := by
  obtain ⟨value, valueEq, _⟩ := Option.map_eq_some_iff.1 named
  unfold Field.nameValue? at valueEq
  split at valueEq
  · rename_i nodeEq
    rw [Field.node.inj nodeEq]
    rfl
  · cases valueEq

theorem name?_of_inner (inner : place.node.Inner) (isIdentifier : place.node.kind = .identifier) :
    ∃ spelling, place.name? = some (.text spelling) ∧ place.tokenName? = some (.text spelling) := by
  obtain ⟨file, category, _, fits⟩ := inner
  obtain ⟨spelling, location, nodeEq⟩ := fits.identifier isIdentifier
  refine ⟨spelling, ?_, ?_⟩
  · rw [name?, nodeEq]
    rfl
  · rw [tokenName?, nodeEq]
    rfl

theorem children_of_identifier (inner : place.node.Inner)
    (isIdentifier : place.node.kind = .identifier) : place.children = [] := by
  obtain ⟨file, category, _, fits⟩ := inner
  obtain ⟨spelling, location, nodeEq⟩ := fits.identifier isIdentifier
  rw [children, nodeEq]
  rfl

end Occurrence

theorem Kind.nodup_attributes (kind : Kind) : (kind.attributes.map Attribute.name).Nodup := by
  cases kind <;> decide

namespace Node

theorem stepsTo_iff {name : String} {index : Nat}
    (found : (node.kind.attributes.map Attribute.name)[index]? = some name) :
    node.stepsTo name step = true ↔ step = ⟨index, none⟩ := by
  obtain ⟨field, item⟩ := step
  rw [stepsTo, Bool.and_eq_true, Option.isNone_iff_eq_none, decide_eq_true_eq,
    ← List.getElem?_map, Step.mk.injEq, and_comm]
  refine and_congr_left fun _ => ⟨fun same => ?_, fun same => same ▸ found⟩
  obtain ⟨within, _⟩ := List.getElem?_eq_some_iff.1 found
  exact ((List.getElem?_inj within node.kind.nodup_attributes).1 (found.trans same.symm)).symm

theorem stepsTo_id (isDeclaration : node.kind = .functionDeclaration) :
    node.stepsTo "id" step = true ↔ step = ⟨0, none⟩ :=
  stepsTo_iff (by rw [isDeclaration]; rfl)

end Node

theorem Node.Inner.isScope_eq (inner : node.Inner) :
    node.kind.isScope = (node.kind.isFunction || node.kind = .catchClause) := by
  simp [Kind.isScope, inner.kind_ne.1]

theorem Occurrence.children_functionDeclaration (inner : place.node.Inner)
    (isDeclaration : place.node.kind = .functionDeclaration) :
    ∃ id rest, place.children = id :: rest ∧ id.address = ⟨0, none⟩ :: place.address ∧
      place.child? "id" = some id ∧ id.node.kind = .identifier ∧ id.node.Inner := by
  obtain ⟨address, node⟩ := place
  obtain ⟨file, category, _, fits⟩ := inner
  obtain ⟨id, parameters, body, location, rfl, idFits, _⟩ := fits.functionDeclaration isDeclaration
  exact ⟨⟨⟨0, none⟩ :: address, id⟩, _, rfl, rfl, rfl, mem_singleton.1 idFits.kind_mem,
    file, .identifier, by decide, idFits⟩

theorem Node.Shaped.inner_of_name? {root : Node} (shaped : root.Shaped) {token : Occurrence}
    {name : Name} (inside : token.IsIn root) (named : token.name? = some name) :
    token.node.Inner := by
  have isIdentifier := kind_of_name? named
  exact shaped.inner inside (by simp [isIdentifier]) (by simp [isIdentifier])

theorem Node.Shaped.text_of_name? {root : Node} (shaped : root.Shaped) {token : Occurrence}
    {name : Name} (inside : token.IsIn root) (named : token.name? = some name) :
    ∃ spelling, name = .text spelling := by
  obtain ⟨spelling, ownName, _⟩ := Occurrence.name?_of_inner (shaped.inner_of_name? inside named)
    (kind_of_name? named)
  rw [named] at ownName
  exact ⟨spelling, Option.some.inj ownName⟩

namespace Codebase

def scopeAbove? (codebase : Codebase) (address : Address) (name : Name) : Option Occurrence :=
  (codebase.root.above address).find? fun outer =>
    outer.node.kind.isScope && codebase.scopes.declares outer.address name

def Declares (codebase : Codebase) (place : Occurrence) (name : Name) : Prop :=
  place.node.kind.isScope = true ∧ codebase.scopes.declares place.address name = true

def IsFunctionName (codebase : Codebase) : Address → Prop
  | [] => False
  | step :: rest =>
    step = ⟨0, none⟩ ∧ ∃ parent, codebase.root.at? rest = some parent ∧
      parent.kind = .functionDeclaration

variable {codebase : Codebase} {name : Name}
variable {address : Address} {scope : Occurrence}

theorem scopeAbove?_cons_of_declares {parent : Occurrence} (inside : parent.IsIn codebase.root)
    (declares : codebase.Declares parent name) :
    codebase.scopeAbove? (step :: parent.address) name = some parent := by
  rw [scopeAbove?, Node.above_cons inside, List.find?_cons_of_pos]
  simpa [Declares] using declares

theorem scopeAbove?_cons_of_not_declares {parent : Occurrence} (inside : parent.IsIn codebase.root)
    (undeclared : ¬ codebase.Declares parent name) :
    codebase.scopeAbove? (step :: parent.address) name =
      codebase.scopeAbove? parent.address name := by
  rw [scopeAbove?, Node.above_cons inside, List.find?_cons_of_neg]
  · rfl
  · simpa [Declares] using undeclared

theorem of_scopeAbove? (found : codebase.scopeAbove? address name = some scope) :
    scope.IsIn codebase.root ∧ codebase.Declares scope name ∧
      ∃ step path, address = path ++ step :: scope.address := by
  obtain ⟨inside, below⟩ := of_mem_above (mem_of_find?_eq_some found)
  exact ⟨inside, by simpa [Declares] using List.find?_some found, below⟩

theorem of_declaringScope? (found : codebase.declaringScope? address name = some scope) :
    scope.IsIn codebase.root ∧ codebase.Declares scope name ∧
      ∃ step path, address = path ++ step :: scope.address := by
  have inAround : scope ∈ codebase.root.around address := by
    have member := mem_of_find?_eq_some found
    unfold scopesAround at member
    split at member
    · rename_i aroundEq
      rw [aroundEq]
      split at member
      · exact mem_cons_of_mem _ member
      · exact member
    · exact member
  have inAbove : scope ∈ codebase.root.above address := by
    unfold Node.around at inAround
    dsimp only at inAround
    split at inAround
    · cases inAround
    · split at inAround
      · exact mem_reverse.1 ((dropWhile_suffix _).subset (mem_reverse.1 inAround))
      · cases inAround
  obtain ⟨inside, below⟩ := of_mem_above inAbove
  exact ⟨inside, by simpa [Declares] using List.find?_some found, below⟩

section Shaped

variable (shaped : codebase.root.Shaped)

include shaped

theorem find?_around (found : codebase.root.at? address = some node) :
    (codebase.root.around address).find? (fun outer =>
      outer.node.kind.isScope && codebase.scopes.declares outer.address name) =
      codebase.scopeAbove? address name := by
  refine shaped.find?_around found fun outer isCollection => ?_
  rw [isCollection]
  rfl

theorem declaringScope?_functionName {function : Occurrence} (inside : function.IsIn codebase.root)
    (isDeclaration : function.node.kind = .functionDeclaration) {id : Node}
    (idFound : codebase.root.at? (⟨0, none⟩ :: function.address) = some id) :
    codebase.declaringScope? (⟨0, none⟩ :: function.address) name =
      codebase.scopeAbove? function.address name := by
  have notCollection : function.node.kind ≠ .programCollection := by simp [isDeclaration]
  have aroundEq := shaped.around_cons idFound inside notCollection
  have stepsTo := (Node.stepsTo_id isDeclaration).2 rfl
  unfold declaringScope? scopesAround
  rw [aroundEq]
  simp only [isDeclaration, stepsTo, decide_true, Bool.and_true, if_true]
  exact find?_around shaped inside

theorem declaringScope?_of_not_functionName (found : codebase.root.at? address = some node)
    (notName : ¬ codebase.IsFunctionName address) :
    codebase.declaringScope? address name = codebase.scopeAbove? address name := by
  rw [← find?_around shaped found]
  unfold declaringScope? scopesAround
  split
  · rename_i parent outer step rest aroundEq
    split
    · rename_i passed
      rw [Bool.and_eq_true, decide_eq_true_eq] at passed
      obtain ⟨above, aboveFound, _⟩ := Node.exists_at?_of_cons found
      have parentEq : (⟨rest, above⟩ : Occurrence) = parent := by
        by_cases isCollection : above.kind = .programCollection
        · rw [shaped.around found, Node.inside_eq_nil
            (shaped.above_of_collection aboveFound isCollection)] at aroundEq
          cases aroundEq
        · rw [shaped.around_cons found aboveFound isCollection] at aroundEq
          exact (List.cons.inj aroundEq).1
      rw [← parentEq] at passed
      exact absurd ⟨(Node.stepsTo_id passed.1).1 passed.2, above, aboveFound, passed.1⟩ notName
    · rw [aroundEq]
  · rfl

theorem kind_of_isFunctionName (inside : place.IsIn codebase.root)
    (isName : codebase.IsFunctionName place.address) : place.node.kind = .identifier := by
  obtain ⟨address, node⟩ := place
  cases address with
  | nil => exact isName.elim
  | cons step rest =>
    obtain ⟨rfl, parent, parentFound, isDeclaration⟩ := isName
    obtain ⟨_, found, childFound⟩ := Node.exists_at?_of_cons inside
    rw [parentFound] at found
    cases found
    rcases shaped.at? parentFound with ⟨parentShaped, _⟩ | ⟨file, category, _, fits⟩
    · rcases parentShaped.kind_eq with kindEq | kindEq <;> simp [isDeclaration] at kindEq
    · obtain ⟨id, parameters, body, location, rfl, idFits, _⟩ :=
        fits.functionDeclaration isDeclaration
      cases childFound
      exact mem_singleton.1 idFits.kind_mem

theorem declaringScope?_of_not_identifier (inside : place.IsIn codebase.root)
    (notIdentifier : place.node.kind ≠ .identifier) :
    codebase.declaringScope? place.address name = codebase.scopeAbove? place.address name :=
  declaringScope?_of_not_functionName shaped inside fun isName =>
    notIdentifier (kind_of_isFunctionName shaped inside isName)

theorem declaringScope?_child {child : Occurrence} (inside : place.IsIn codebase.root)
    (undeclared : ¬ codebase.Declares place name) (member : child ∈ place.children) :
    codebase.declaringScope? child.address name = codebase.scopeAbove? place.address name := by
  obtain ⟨step, addressEq, _⟩ := mem_children.1 member
  have childIn := inside.child member
  rw [Occurrence.IsIn, addressEq] at childIn
  rw [addressEq]
  by_cases isName : codebase.IsFunctionName (step :: place.address)
  · obtain ⟨rfl, parent, parentFound, isDeclaration⟩ := isName
    rw [inside] at parentFound
    cases parentFound
    exact declaringScope?_functionName shaped inside isDeclaration childIn
  · rw [declaringScope?_of_not_functionName shaped childIn isName,
      scopeAbove?_cons_of_not_declares inside undeclared]

theorem declaringScope?_child_of_declares {child : Occurrence} (inside : place.IsIn codebase.root)
    (declares : codebase.Declares place name) (member : child ∈ place.children)
    (notName : place.node.kind = .functionDeclaration → child.address ≠ ⟨0, none⟩ :: place.address) :
    codebase.declaringScope? child.address name = some place := by
  obtain ⟨step, addressEq, _⟩ := mem_children.1 member
  have childIn := inside.child member
  rw [Occurrence.IsIn, addressEq] at childIn
  rw [addressEq] at notName ⊢
  rw [declaringScope?_of_not_functionName shaped childIn,
    scopeAbove?_cons_of_declares inside declares]
  rintro ⟨rfl, parent, parentFound, isDeclaration⟩
  rw [inside] at parentFound
  cases parentFound
  exact notName isDeclaration rfl

omit shaped in
theorem exists_scopeAbove?_below (scopeIn : scope.IsIn codebase.root)
    (declares : codebase.Declares scope name) {path : Address} (notEmpty : path ≠ [])
    (found : codebase.root.at? (path ++ scope.address) = some node) :
    ∃ inner, codebase.scopeAbove? (path ++ scope.address) name = some inner ∧
      scope.address <:+ inner.address :=
  exists_find?_above scopeIn (by simpa [Declares] using declares) notEmpty found

theorem exists_declaringScope?_below (scopeIn : scope.IsIn codebase.root)
    (placeIn : place.IsIn codebase.root) (declares : codebase.Declares scope name) {path : Address}
    (notEmpty : path ≠ []) (addressEq : place.address = path ++ scope.address)
    (notName : scope.node.kind = .functionDeclaration → path ≠ [⟨0, none⟩]) :
    ∃ inner, codebase.declaringScope? place.address name = some inner ∧
      scope.address <:+ inner.address := by
  rw [Occurrence.IsIn, addressEq] at placeIn
  rw [addressEq]
  by_cases isName : codebase.IsFunctionName (path ++ scope.address)
  · cases path with
    | nil => exact absurd rfl notEmpty
    | cons step path =>
      obtain ⟨rfl, parent, parentFound, isDeclaration⟩ := isName
      have parentIn : (⟨path ++ scope.address, parent⟩ : Occurrence).IsIn codebase.root :=
        parentFound
      rw [cons_append, declaringScope?_functionName shaped parentIn isDeclaration placeIn]
      refine exists_scopeAbove?_below scopeIn declares ?_ parentFound
      rintro rfl
      have same : scope.node = parent := Option.some.inj (scopeIn.symm.trans parentFound)
      exact notName (same ▸ isDeclaration) rfl
  · rw [declaringScope?_of_not_functionName shaped placeIn isName]
    exact exists_scopeAbove?_below scopeIn declares notEmpty placeIn

end Shaped

end Codebase

end Namesake
