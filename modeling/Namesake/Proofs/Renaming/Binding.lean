import Namesake.Proofs.Renaming.Local
import Namesake.Proofs.Scope.Respelled

/-!
Respelling the group of a local variable keeps the scope of every variable exactly if the group
holds a declaration of its own scope, and if every other scope in use for the name keeps a
declaration of it.
-/

namespace Namesake

open Occurrence

namespace Node

variable {tokens : List Address} {spelling : Text}

theorem isTruthy_respellField (address : Address) (index : Nat) (field : Field) :
    (respellField tokens spelling address index field).isTruthy = field.isTruthy := by
  cases field with
  | data value => rfl
  | node child => rfl
  | list items =>
    cases items with
    | nil => rfl
    | cons item rest => cases item <;> rfl

theorem findSome?_respellFields (address : Address) (index : Nat) (attributes : List Attribute)
    (fields : List Field) (name : String) :
    ((attributes.zip (respellFields tokens spelling address index fields)).findSome?
        fun (entry, field) => if entry.name = name then some field else none).map Field.isTruthy =
      ((attributes.zip fields).findSome?
        fun (entry, field) => if entry.name = name then some field else none).map
        Field.isTruthy := by
  induction fields generalizing index attributes with
  | nil => rfl
  | cons field rest ih =>
    cases attributes with
    | nil => rfl
    | cons entry attributes =>
      rw [respellFields, List.zip_cons_cons, List.zip_cons_cons, List.findSome?_cons,
        List.findSome?_cons]
      by_cases same : entry.name = name
      · simp [same, isTruthy_respellField]
      · simp only [same, if_false]
        exact ih (index + 1) attributes

theorem computed_respell {node : Node} {address : Address}
    (notIdentifier : node.kind ≠ .identifier) (name : String) :
    ((node.respell tokens spelling address).field? name).map Field.isTruthy =
      (node.field? name).map Field.isTruthy := by
  rw [field?, field?, kind_respell, fields_respell fun chosen => notIdentifier chosen.1]
  exact findSome?_respellFields address 0 _ _ name

end Node

def Usage.isVariable (usage : Usage) : Bool :=
  match usage.role with
  | .variable => true
  | .property _ => false
  | .label => false

namespace Node

variable {tokens : List Address} {spelling : Text}

theorem usageIn?_respelled {root other : Node} {parent : Occurrence}
    (notIdentifier : parent.node.kind ≠ .identifier) {step : Step} {kind : Kind}
    {old new : Name} :
    (usageIn? other (parent.respelled tokens spelling) step kind new).any Usage.isVariable =
      (usageIn? root parent step kind old).any Usage.isVariable := by
  have computed : ((parent.node.respell tokens spelling parent.address).field? "computed").map
      Field.isTruthy = (parent.node.field? "computed").map Field.isTruthy :=
    computed_respell notIdentifier "computed"
  unfold usageIn? Occurrence.respelled stepsTo
  simp only [kind_respell, computed]
  repeat' split
  all_goals rfl

end Node

namespace Codebase

variable {codebase : Codebase}

theorem namesVariable_eq {usage : Option Usage} (used : codebase.root.usage? token = .ok usage) :
    codebase.namesVariable token = usage.any Usage.isVariable := by
  unfold namesVariable
  rw [used]
  cases usage with
  | none => rfl
  | some usage =>
    obtain ⟨role, name⟩ := usage
    cases role <;> rfl

variable {root : Node} {tokens : List Address} {spelling : Text}
variable {token : Occurrence}

theorem namesVariable_respelled (shaped : root.Shaped) (inside : token.IsIn root) {name : Name}
    (named : token.name? = some name) :
    (root.respell tokens spelling []).codebase.namesVariable (token.respelled tokens spelling) =
      root.codebase.namesVariable token := by
  have isIdentifier := kind_of_name? named
  have inner := shaped.inner inside (by simp [isIdentifier]) (by simp [isIdentifier])
  obtain ⟨step, parent, addressEq, parentIn, member, notCollection⟩ :=
    shaped.exists_parent inside inner
  have notIdentifier : parent.node.kind ≠ .identifier := by
    intro parentIdentifier
    have parentInner := shaped.inner parentIn (by simp [parentIdentifier]) notCollection
    rw [children_of_identifier parentInner parentIdentifier] at member
    cases member
  obtain ⟨old, _, oldName⟩ := Occurrence.name?_of_inner inner isIdentifier
  have respelledInner : (token.respelled tokens spelling).node.Inner := inner.respell _
  obtain ⟨new, _, newName⟩ := Occurrence.name?_of_inner respelledInner (by simp [isIdentifier])
  have used : root.codebase.root.usage? token = _ :=
    shaped.usage? inside addressEq parentIn notCollection oldName
  have respelledUsed :
      (root.respell tokens spelling []).codebase.root.usage? (token.respelled tokens spelling) = _ :=
    (shaped.respell []).usage? (inside.respelled shaped) addressEq (parentIn.respelled shaped)
      (by simpa using notCollection) newName
  rw [namesVariable_eq used, namesVariable_eq respelledUsed, kind_respelled]
  exact Node.usageIn?_respelled notIdentifier

theorem resolves_respelled_iff (shaped : root.Shaped) {own new : Name} {found : Option Occurrence}
    (resolves : root.codebase.Resolves token own found)
    (renamed : (token.respelled tokens spelling).name? = some new)
    (fewer : ∀ outer : Occurrence, outer.IsIn root → (root.respell tokens spelling
      []).codebase.Declares (outer.respelled tokens spelling) new → root.codebase.Declares outer
      own) :
    (root.respell tokens spelling []).codebase.Resolves (token.respelled tokens spelling) new
        (found.map (Occurrence.respelled tokens spelling)) ↔
      ∀ outer, found = some outer →
        (root.respell tokens spelling []).codebase.Declares (outer.respelled tokens spelling)
          new := by
  have inside := Node.mem_walk.1 resolves.inside
  have respelledIn : (token.respelled tokens spelling).IsIn (root.respell tokens spelling []) :=
    inside.respelled shaped
  rw [← resolves.resolved, ← declaringScope?_respelled shaped inside fewer]
  constructor
  · exact fun respelled => respelled.resolved
  · intro resolved
    refine ⟨Node.mem_walk.2 respelledIn, ?_, renamed, resolved⟩
    rw [namesVariable_respelled shaped inside resolves.named]
    exact resolves.names

/-- Whether nothing is called by a name: no token is, and no scope declares it. -/
structure Unused (codebase : Codebase) (name : Name) : Prop where
  tokens : ∀ token ∈ codebase.root.walk, token.name? ≠ some name
  scopes : ∀ scope ∈ codebase.root.walk, ¬ codebase.Declares scope name

instance (codebase : Codebase) (spelling : Text) : Decidable (codebase.Unused (.text spelling)) :=
  decidable_of_iff ((∀ token ∈ codebase.root.walk, ¬ token.isNamed (.text spelling) = true) ∧
      ∀ scope ∈ codebase.root.walk, ¬ (scope.node.kind.isScope = true ∧
        codebase.scopes.declares scope.address (.text spelling) = true)) <| by
    simp only [isNamed_text]
    exact ⟨fun checked => ⟨checked.1, checked.2⟩, fun unused => ⟨unused.tokens, unused.scopes⟩⟩

/-- Whether every variable has the scope that it had before some tokens were respelled. -/
def KeepsScopes (before after : Codebase) (tokens : List Address) (spelling : Text) : Prop :=
  ∀ token name scope, before.Resolves token name scope →
    after.Resolves (token.respelled tokens spelling)
      (if token.address ∈ tokens then .text spelling else name)
      (scope.map (Occurrence.respelled tokens spelling))

section Group

variable {name : Text} {scope : Occurrence} (shaped : root.Shaped)
  (members : ∀ token : Occurrence, token.IsIn root →
    (token.address ∈ tokens ↔ root.codebase.Resolves token (.text name) (some scope)))
variable {outer : Occurrence}

include members

theorem kind_of_mem_tokens (place : Occurrence) (inside : place.IsIn root)
    (chosen : place.address ∈ tokens) : place.node.kind = .identifier :=
  kind_of_name? ((members place inside).1 chosen).named

theorem name_of_mem_declarations (inside : outer.IsIn root) {declaration : Declaration}
    (declared : declaration ∈ outer.declarations)
    (chosen : declaration.2 ∈ tokens) : declaration.1 = .text name := by
  rcases of_mem_declarations inside declared with
    ⟨isFunction, rfl⟩ | ⟨token, tokenIn, declares⟩
  · rw [kind_of_mem_tokens members outer inside chosen] at isFunction
    cases isFunction
  · obtain ⟨named, addressEq⟩ := Occurrence.declaration?_eq_some.1 declares
    rw [← addressEq] at chosen
    have own := ((members token tokenIn).1 chosen).named
    rw [named] at own
    exact Option.some.inj own

theorem not_mem_tokens_of_ne (resolves : root.codebase.Resolves token (.text name) (some outer))
    (different : outer ≠ scope) : token.address ∉ tokens := by
  intro chosen
  have same := ((members token (Node.mem_walk.1 resolves.inside)).1 chosen).resolved
  rw [resolves.resolved] at same
  exact different (Option.some.inj same)

include shaped

theorem declares_kept_iff (inside : outer.IsIn root) {own : Text} (other : own ≠ spelling) :
    (root.respell tokens spelling []).codebase.Declares
        (outer.respelled tokens spelling) (.text own) ↔
      outer.node.kind.isScope = true ∧ ∃ address, (.text own, address) ∈ outer.declarations ∧
        address ∉ tokens := by
  rw [declares_respelled shaped (kind_of_mem_tokens members) inside]
  refine and_congr_right fun _ => ?_
  constructor
  · rintro ⟨⟨ownName, address⟩, declared, same⟩
    by_cases chosen : address ∈ tokens
    · rw [Occurrence.respellDeclaration, if_pos chosen] at same
      exact absurd (Name.text.inj same).symm other
    · rw [Occurrence.respellDeclaration, if_neg chosen] at same
      obtain rfl : ownName = .text own := same
      exact ⟨address, declared, chosen⟩
  · rintro ⟨address, declared, kept⟩
    exact ⟨_, declared, by rw [Occurrence.respellDeclaration, if_neg kept]⟩

theorem declares_new_iff (unused : root.codebase.Unused (.text spelling))
    (inside : outer.IsIn root) :
    (root.respell tokens spelling []).codebase.Declares
        (outer.respelled tokens spelling) (.text spelling) ↔
      outer.node.kind.isScope = true ∧ ∃ address, (.text name, address) ∈ outer.declarations ∧
        address ∈ tokens := by
  rw [declares_respelled shaped (kind_of_mem_tokens members) inside]
  refine and_congr_right fun isScope => ?_
  constructor
  · rintro ⟨⟨ownName, address⟩, declared, same⟩
    by_cases chosen : address ∈ tokens
    · obtain rfl := name_of_mem_declarations members inside declared chosen
      exact ⟨address, declared, chosen⟩
    · rw [Occurrence.respellDeclaration, if_neg chosen] at same
      obtain rfl : ownName = .text spelling := same
      have declares := (declares_iff inside).2 ⟨isScope, address, declared⟩
      exact absurd declares (unused.scopes outer (Node.mem_walk.2 inside))
  · rintro ⟨address, declared, chosen⟩
    exact ⟨_, declared, by rw [Occurrence.respellDeclaration, if_pos chosen]⟩

theorem resolves_iff_of_mem_tokens (unused : root.codebase.Unused (.text spelling))
    (resolves : root.codebase.Resolves token (.text name) (some scope)) :
    (root.respell tokens spelling []).codebase.Resolves (token.respelled tokens spelling)
        (.text spelling) (some (scope.respelled tokens spelling)) ↔
      ∃ address, (.text name, address) ∈ scope.declarations ∧ address ∈ tokens := by
  have inside := Node.mem_walk.1 resolves.inside
  obtain ⟨scopeIn, declares, _⟩ := of_declaringScope? resolves.resolved
  have renamed : (token.respelled tokens spelling).name? = some (.text spelling) :=
    Occurrence.name?_respelled_of_mem (kind_of_name? resolves.named)
      ((members token inside).2 resolves)
  refine (resolves_respelled_iff shaped resolves renamed ?_).trans ?_
  · intro outer outerIn declaresNew
    obtain ⟨isScope, address, declared, _⟩ :=
      (declares_new_iff shaped members unused outerIn).1 declaresNew
    exact (declares_iff outerIn).2 ⟨isScope, address, declared⟩
  · simp only [Option.some.injEq, forall_eq', declares_new_iff shaped members unused scopeIn,
      declares.1, true_and]

theorem resolves_iff_of_not_mem_tokens (unused : root.codebase.Unused (.text spelling))
    (kept : token.address ∉ tokens) {own : Text} {found : Option Occurrence}
    (resolves : root.codebase.Resolves token (.text own) found) :
    (root.respell tokens spelling []).codebase.Resolves (token.respelled tokens spelling)
        (.text own) (found.map (Occurrence.respelled tokens spelling)) ↔
      ∀ outer, found = some outer → ∃ address, (.text own, address) ∈ outer.declarations ∧
        address ∉ tokens := by
  have inside := Node.mem_walk.1 resolves.inside
  have other : own ≠ spelling := by
    rintro rfl
    exact unused.tokens token resolves.inside resolves.named
  have renamed : (token.respelled tokens spelling).name? = some (.text own) :=
    (Occurrence.name?_respelled_of_not_mem shaped inside kept).trans resolves.named
  refine (resolves_respelled_iff shaped resolves renamed ?_).trans ?_
  · intro outer outerIn declaresStill
    obtain ⟨isScope, address, declared, _⟩ :=
      (declares_kept_iff shaped members outerIn other).1 declaresStill
    exact (declares_iff outerIn).2 ⟨isScope, address, declared⟩
  · refine forall₂_congr fun outer foundEq => ?_
    rw [foundEq] at resolves
    obtain ⟨outerIn, declares, _⟩ := of_declaringScope? resolves.resolved
    rw [declares_kept_iff shaped members outerIn other]
    exact and_iff_right declares.1

theorem declarations_of_keepsScopes (unused : root.codebase.Unused (.text spelling))
    (resolves : root.codebase.Resolves token (.text name) (some scope))
    (keeps : root.codebase.KeepsScopes (root.respell tokens spelling []).codebase tokens spelling) :
    (∃ address, (.text name, address) ∈ scope.declarations ∧ address ∈ tokens) ∧
      ∀ other outer, root.codebase.Resolves other (.text name) (some outer) → outer ≠ scope →
        ∃ address, (.text name, address) ∈ outer.declarations ∧ address ∉ tokens := by
  constructor
  · have own := keeps token _ _ resolves
    rw [if_pos ((members token (Node.mem_walk.1 resolves.inside)).2 resolves)] at own
    exact (resolves_iff_of_mem_tokens shaped members unused resolves).1 own
  · intro other outer otherResolves different
    have kept := not_mem_tokens_of_ne members otherResolves different
    have own := keeps other _ _ otherResolves
    rw [if_neg kept] at own
    exact (resolves_iff_of_not_mem_tokens shaped members unused kept otherResolves).1 own outer rfl

theorem keepsScopes_of_declarations (unused : root.codebase.Unused (.text spelling))
    (declared : ∃ address, (.text name, address) ∈ scope.declarations ∧ address ∈ tokens)
    (others : ∀ other outer, root.codebase.Resolves other (.text name) (some outer) →
      outer ≠ scope → ∃ address, (.text name, address) ∈ outer.declarations ∧ address ∉ tokens) :
    root.codebase.KeepsScopes (root.respell tokens spelling []).codebase tokens spelling := by
  intro token own found resolves
  have inside := Node.mem_walk.1 resolves.inside
  by_cases chosen : token.address ∈ tokens
  · have inGroup := (members token inside).1 chosen
    obtain rfl : .text name = own := Option.some.inj (inGroup.named.symm.trans resolves.named)
    obtain rfl : some scope = found := inGroup.resolved.symm.trans resolves.resolved
    rw [if_pos chosen]
    exact (resolves_iff_of_mem_tokens shaped members unused resolves).2 declared
  · rw [if_neg chosen]
    obtain ⟨text, rfl⟩ := shaped.text_of_name? inside resolves.named
    refine (resolves_iff_of_not_mem_tokens shaped members unused chosen resolves).2 ?_
    rintro outer rfl
    by_cases sameName : text = name
    · subst sameName
      refine others token outer resolves ?_
      rintro rfl
      exact chosen ((members token inside).2 resolves)
    · -- A token of the group declares nothing but the name of the group.
      obtain ⟨outerIn, declares, _⟩ := of_declaringScope? resolves.resolved
      obtain ⟨_, address, declaration⟩ := (declares_iff outerIn).1 declares
      refine ⟨address, declaration, fun chosen => sameName ?_⟩
      exact Name.text.inj (name_of_mem_declarations members outerIn declaration chosen)

end Group

end Codebase

/-- Respelling the group of a local variable by a name that is not in use keeps the scope of every
variable, if and only if the group holds a declaration for its own scope, and every other scope
that the name stands for somewhere has a declaration of it outside the group. -/
theorem respell_keeps_scopes_iff {root : Node} (parsed : root.IsParsed) :
    ∃ codebase, Codebase.ofRoot root = .ok codebase ∧ codebase.root = root ∧
      ∀ token name scope spelling, codebase.Resolves token name (some scope) →
        scope.node.isShadowing = true → codebase.Unused (.text spelling) →
        ∃ group tokens after,
          codebase.renameLocal token = .ok { kind := .localVariable, name, groups := [group] } ∧
          tokens = group.map Occurrence.address ∧
          Codebase.ofRoot (root.respell tokens spelling []) = .ok after ∧
          (codebase.KeepsScopes after tokens spelling ↔
            (∃ address, (name, address) ∈ scope.declarations ∧ address ∈ tokens) ∧
            ∀ other outer, codebase.Resolves other name (some outer) → outer ≠ scope →
              ∃ address, (name, address) ∈ outer.declarations ∧ address ∉ tokens) := by
  have shaped : root.codebase.root.Shaped := parsed.shaped
  refine ⟨root.codebase, Codebase.ofRoot_eq shaped, rfl, ?_⟩
  intro token name scope spelling resolves shadowing unused
  obtain ⟨renamed, _, inGroup⟩ := Codebase.renameLocal_spec shaped resolves shadowing
  obtain ⟨text, rfl⟩ := shaped.text_of_name? (Node.mem_walk.1 resolves.inside) resolves.named
  have members := mem_map_address_iff inGroup fun _ resolves => Node.mem_walk.1 resolves.inside
  refine ⟨_, _, _, renamed, rfl, Codebase.ofRoot_eq (parsed.shaped.respell []), ?_, ?_⟩
  · exact Codebase.declarations_of_keepsScopes parsed.shaped members unused resolves
  · rintro ⟨declared, others⟩
    exact Codebase.keepsScopes_of_declarations parsed.shaped members unused declared others

/-- An inner function that has the name of a parameter and declares it again. -/
theorem respell_keeps_scopes_iff_redeclared :
    ∃ root, ((⟨"", "function f(a){function a(a){}}"⟩ : SourceFile).parse false).result = .ok root ∧
      root.IsParsed ∧ ∃ codebase token scope group after, Codebase.ofRoot root = .ok codebase ∧
        codebase.Resolves token (.text (Text.ofString "a")) (some scope) ∧
        scope.node.isShadowing = true ∧ codebase.Unused (.text (Text.ofString "b")) ∧
        codebase.renameLocal token = .ok
          { kind := .localVariable, name := .text (Text.ofString "a"), groups := [group] } ∧
        Codebase.ofRoot (root.respell (group.map Occurrence.address) (Text.ofString "b") []) =
          .ok after ∧
        (codebase.KeepsScopes after (group.map Occurrence.address) (Text.ofString "b") ↔
          (∃ address, (.text (Text.ofString "a"), address) ∈ scope.declarations ∧
            address ∈ group.map Occurrence.address) ∧
          ∀ other outer, codebase.Resolves other (.text (Text.ofString "a")) (some outer) →
            outer ≠ scope → ∃ address, (.text (Text.ofString "a"), address) ∈ outer.declarations ∧
              address ∉ group.map Occurrence.address) := by
  have found : ((⟨"", "function f(a){function a(a){}}"⟩ : SourceFile).parse false).result.toOption.any
      (fun root => root.codebase.AnyResolved (.text (Text.ofString "a"))
        (fun _ scope => scope.node.isShadowing) ∧
          root.codebase.Unused (.text (Text.ofString "b"))) = true := by
    decide +kernel
  obtain ⟨root, parseEq, parsed, found, unused⟩ := Node.exists_isParsed found
  obtain ⟨token, scope, resolves, shadowing⟩ := found.exists
  obtain ⟨codebase, analysed, _, keeps⟩ := respell_keeps_scopes_iff parsed
  obtain rfl := Codebase.eq_of_ofRoot parsed.shaped analysed
  obtain ⟨group, _, after, renamed, rfl, analysedAfter, keepsIff⟩ :=
    keeps token _ scope _ resolves shadowing unused
  exact ⟨root, parseEq, parsed, root.codebase, token, scope, group, after, analysed, resolves,
    shadowing, unused, renamed, analysedAfter, keepsIff⟩

/-- A variable that is declared in a catch clause with a parameter of the same name belongs to the
group of the parameter, although it declares the name for the program.  After the parameter is
respelled, nothing declares the name for the program any more. -/
theorem respell_loses_declaration :
    ∃ root, ((⟨"main.js", "try{}catch(e){var e}e"⟩ : SourceFile).parse true).result = .ok root ∧
      ∃ codebase token scope group after, Codebase.ofRoot root = .ok codebase ∧
        codebase.Resolves token (.text (Text.ofString "e")) (some scope) ∧
        scope.node.isShadowing = true ∧
        (∃ address id, (codebase.scopes.env? scope.address).bind
            (Env.find? · (.text (Text.ofString "e"))) = some address ∧
          root.at? address = some id ∧ id.kind = .identifier) ∧
        codebase.Unused (.text (Text.ofString "m")) ∧
        codebase.renameLocal token = .ok
          { kind := .localVariable, name := .text (Text.ofString "e"), groups := [group] } ∧
        Codebase.ofRoot (root.respell (group.map Occurrence.address) (Text.ofString "m") []) =
          .ok after ∧
        ¬ codebase.KeepsScopes after (group.map Occurrence.address) (Text.ofString "m") := by
  have found : ((⟨"main.js", "try{}catch(e){var e}e"⟩ : SourceFile).parse true).result.toOption.any
      (fun root => root.codebase.AnyResolved (.text (Text.ofString "e")) fun _ scope =>
        scope.node.isShadowing ∧ root.codebase.Unused (.text (Text.ofString "m")) ∧
        (∃ address ∈ (root.codebase.scopes.env? scope.address).bind
          (Env.find? · (.text (Text.ofString "e"))), ∃ id ∈ root.at? address,
            id.kind = .identifier) ∧
        root.codebase.AnyResolved (.text (Text.ofString "e")) fun other _ =>
          other.address ∉ (root.codebase.localGroup scope
            (.text (Text.ofString "e"))).map Occurrence.address ∧
          ((root.respell ((root.codebase.localGroup scope
            (.text (Text.ofString "e"))).map Occurrence.address)
              (Text.ofString "m") []).codebase.declaringScope? other.address
                (.text (Text.ofString "e"))).isNone) = true := by
    decide +kernel
  obtain ⟨root, parseEq, parsed, found⟩ := Node.exists_isParsed found
  obtain ⟨token, scope, resolves, shadowing, unused, ⟨address, declaredAt, id, idFound,
    isIdentifier⟩, found⟩ := found.exists
  obtain ⟨other, outer, otherResolves, outside, none⟩ := found.exists
  have analysed := Codebase.ofRoot_eq parsed.shaped
  have shaped : root.codebase.root.Shaped := parsed.shaped
  obtain ⟨renamed, _, _⟩ := Codebase.renameLocal_spec shaped resolves shadowing
  refine ⟨root, parseEq, root.codebase, token, scope, _, _, analysed, resolves, shadowing,
    ⟨address, id, declaredAt, idFound, isIdentifier⟩, unused, renamed,
    Codebase.ofRoot_eq (parsed.shaped.respell []), ?_⟩
  intro keeps
  have kept := (keeps other _ _ otherResolves).resolved
  rw [if_neg outside, Occurrence.address_respelled, Option.isNone_iff_eq_none.1 none] at kept
  cases kept

end Namesake
