import Namesake.Proofs.Scope.Declarations
import Namesake.Renaming

/-!
What a token names follows from the node just around it, and every token has a place in its
file.
-/

namespace Namesake

namespace Node

theorem Shaped.usage? {root parent : Node} (shaped : root.Shaped) {token : Occurrence} {step : Step}
    {rest : Address} (inside : token.IsIn root) (addressEq : token.address = step :: rest)
    (parentFound : root.at? rest = some parent)
    (notCollection : parent.kind ≠ .programCollection) {name : Name}
    (named : token.tokenName? = some name) :
    root.usage? token = .ok (usageIn? root ⟨rest, parent⟩ step token.node.kind name) := by
  have found : root.at? (step :: rest) = some token.node := by
    rw [← addressEq]
    exact inside
  rw [Node.usage?, named, addressEq]
  simp only [shaped.parent? found parentFound notCollection]

theorem usageIn?_variable {root : Node} {parent : Occurrence} {step : Step} {name : Name}
    (plain : parent.node.kind.isScope = true ∨ parent.node.kind = .variableDeclarator) :
    usageIn? root parent step .identifier name = some ⟨.variable, name⟩ := by
  obtain ⟨address, kind, fields, location⟩ := parent
  rcases plain with plain | plain
  all_goals cases kind <;> first | rfl | cases plain

end Node

namespace Codebase

variable (codebase : Codebase)

theorem exists_rangeOf {token : Occurrence} {file : String}
    (located : Located file token.node.location) :
    ∃ range, codebase.rangeOf token = .ok range := by
  obtain ⟨first, last, locationEq⟩ := located
  unfold rangeOf
  rw [locationEq]
  exact ⟨_, rfl⟩

def placeOf (token : Occurrence) : Location :=
  (codebase.rangeOf token).toOption.getD default

theorem groupRanges_eq {group : List Occurrence}
    (located : ∀ token ∈ group, ∃ file, Located file token.node.location) :
    codebase.groupRanges group = .ok (group.map codebase.placeOf) := by
  induction group with
  | nil => rfl
  | cons token rest ih =>
    obtain ⟨⟨file, tokenLocated⟩, restLocated⟩ := List.forall_mem_cons.1 located
    obtain ⟨range, rangeEq⟩ := codebase.exists_rangeOf tokenLocated
    have placeEq : codebase.placeOf token = range := by
      rw [placeOf, rangeEq]
      rfl
    rw [groupRanges, rangeEq, ih restLocated, List.map_cons, placeEq]
    rfl

theorem ranges_eq {groups : List (List Occurrence)}
    (located : ∀ group ∈ groups, ∀ token ∈ group, ∃ file, Located file token.node.location) :
    codebase.ranges groups = .ok (groups.map fun group => group.map codebase.placeOf) := by
  induction groups with
  | nil => rfl
  | cons group rest ih =>
    obtain ⟨groupLocated, restLocated⟩ := List.forall_mem_cons.1 located
    rw [ranges, codebase.groupRanges_eq groupLocated, ih restLocated]
    rfl

theorem exists_ranges {group : List Occurrence}
    (located : ∀ token ∈ group, ∃ file, Located file token.node.location) :
    ∃ places, codebase.ranges [group] = .ok [places] ∧ places.length = group.length := by
  have all : ∀ tokens ∈ [group], ∀ token ∈ tokens, ∃ file, Located file token.node.location :=
    List.forall_mem_singleton.2 located
  exact ⟨_, codebase.ranges_eq all, List.length_map _⟩

/-- Whether a token names a variable and a scope, or none, is the one that declares it. -/
structure Resolves (token : Occurrence) (name : Name) (scope : Option Occurrence) : Prop where
  inside : token ∈ codebase.root.walk
  names : codebase.namesVariable token = true
  named : token.name? = some name
  resolved : codebase.declaringScope? token.address name = scope

variable {codebase}

theorem located_of_inner {token : Occurrence} (inner : token.node.Inner) :
    ∃ file, Located file token.node.location := by
  obtain ⟨file, _, _, fits⟩ := inner
  exact ⟨file, fits.located⟩

def AnyResolved (codebase : Codebase) (name : Name) (holds : Occurrence → Occurrence → Prop) : Prop :=
  ∃ token ∈ codebase.root.walk, token.isNamed name ∧ codebase.namesVariable token ∧
    ∃ scope ∈ codebase.declaringScope? token.address name, holds token scope

instance (codebase : Codebase) (name : Name) (holds : Occurrence → Occurrence → Prop)
    [DecidableRel holds] : Decidable (codebase.AnyResolved name holds) :=
  inferInstanceAs (Decidable (∃ _ ∈ _, _))

theorem AnyResolved.exists {spelling : Text} {holds : Occurrence → Occurrence → Prop}
    (found : codebase.AnyResolved (.text spelling) holds) :
    ∃ token scope, codebase.Resolves token (.text spelling) (some scope) ∧ holds token scope := by
  obtain ⟨token, inside, named, names, scope, resolved, held⟩ := found
  exact ⟨token, scope, ⟨inside, names, Occurrence.isNamed_text.1 named, resolved⟩, held⟩

end Codebase

end Namesake
