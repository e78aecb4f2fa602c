import Namesake.Proofs.Inference.Separation
import Namesake.Proofs.Inference.Variables

/-!
What a tree demands is about its own nodes and scopes and about properties of the global object
with names that stand in it.
-/

namespace Namesake

open Option

open Infer (inField inItem)

variable {scope : Option Occurrence}

namespace Field

variable {field : Field} {name : Text}

theorem exists_of_stringIn? (spelled : (Infer.stringIn? field).bind text? = some name) :
    ∃ rest location, field = .node (.mk .literal (.data (.text name) :: rest) location) := by
  obtain ⟨value, isString, isText⟩ := bind_eq_some_iff.1 spelled
  unfold Infer.stringIn? at isString
  split at isString
  · cases isString
    cases isText
    exact ⟨_, _, rfl⟩
  · cases isString

theorem exists_of_keySpelling? (spelled : field.keySpelling? = some name) :
    ∃ node, field = .node node ∧
      ∀ address, Occurrence.tokenName? ⟨address, node⟩ = some (.text name) := by
  obtain ⟨value, isKey, isText⟩ := bind_eq_some_iff.1 spelled
  unfold Infer.keyName? at isKey
  split at isKey
  · rename_i own named
    split at isKey
    · cases isKey
    · cases isKey
      obtain ⟨location, rfl⟩ := spelling?_eq_some.1 (bind_eq_some_iff.2 ⟨_, named, isText⟩)
      exact ⟨_, rfl, fun _ => rfl⟩
  · obtain ⟨rest, location, rfl⟩ :=
      exists_of_stringIn? (bind_eq_some_iff.2 ⟨_, isKey, isText⟩)
    exact ⟨_, rfl, fun _ => rfl⟩

end Field

namespace Codebase

def globalNames (codebase : Codebase) : List Text :=
  codebase.root.walk.filterMap fun token =>
    match codebase.root.usage? token with
    | .ok (some ⟨.variable, .text spelling⟩) =>
      if isGlobalScope (codebase.declaringScope? token.address (.text spelling)) then
        some spelling
      else none
    | _ => none

def propertyNames (codebase : Codebase) : List Text :=
  codebase.root.walk.filterMap fun token =>
    match codebase.root.usage? token with
    | .ok (some ⟨.property _, .text spelling⟩) => some spelling
    | _ => none

variable {codebase : Codebase} (shaped : codebase.root.Shaped) {token : Occurrence} {name : Text}

include shaped

theorem resolves_of_usage? (inside : token.IsIn codebase.root)
    (used : codebase.root.usage? token = .ok (some ⟨.variable, .text name⟩)) :
    codebase.Resolves token (.text name) (codebase.declaringScope? token.address (.text name)) := by
  obtain ⟨names, named⟩ := (usage?_variable shaped inside).1 used
  exact ⟨Node.mem_walk.2 inside, names, named, rfl⟩

theorem mem_globalNames (resolves : codebase.Resolves token (.text name) scope)
    (isGlobal : isGlobalScope scope = true) : name ∈ codebase.globalNames := by
  refine List.mem_filterMap.2 ⟨token, resolves.inside, ?_⟩
  rw [(usage?_variable shaped (Node.mem_walk.1 resolves.inside)).2 ⟨resolves.names, resolves.named⟩]
  dsimp only
  rw [resolves.resolved, if_pos isGlobal]

theorem mem_propertyNames {base : Occurrence}
    (isProperty : Occurrence.PropertyOf codebase.root base token)
    (named : token.tokenName? = some (.text name)) : name ∈ codebase.propertyNames := by
  refine List.mem_filterMap.2 ⟨token, Node.mem_walk.2 isProperty.isIn_token, ?_⟩
  rw [isProperty.usage? shaped named]

end Codebase

namespace Node

variable {root : Node} {place : Occurrence} {name : Text}

theorem exists_role (parent : Occurrence) (step : Step) (name : Name) :
    ∃ role, usageIn? root parent step .identifier name = some ⟨role, name⟩ := by
  unfold usageIn?
  dsimp only
  repeat' split
  all_goals first | exact ⟨_, rfl⟩ | contradiction

theorem Fits.usageIn?_of_use? {node : Node} {file : String} {category : Category} {step : Step}
    (fits : node.Fits file category) {use : Use} (reached : (node.useIn? use step).isSome = true)
    (address : Address) (name : Name) :
    usageIn? root ⟨address, node⟩ step .identifier name = some ⟨.variable, name⟩ := by
  obtain ⟨role, used⟩ := @exists_role root ⟨address, node⟩ step name
  cases role with
  | «variable» => exact used
  | label =>
    obtain ⟨holdsLabel, rfl⟩ := of_usageIn?_label used
    obtain ⟨kind, fields, location⟩ := node
    cases kind with
    | breakStatement | continueStatement | labeledStatement => cases reached
    | _ => cases holdsLabel
  | property base =>
    rcases kind_of_usageIn? used with isMember | ⟨isProperty, isKey⟩
    · obtain ⟨object, key, computed, location, rfl, _⟩ := fits.memberExpression isMember
      obtain ⟨rfl, rfl | isLiteral⟩ := of_usageIn?_member used
      · cases reached
      · cases isLiteral
    · obtain ⟨key, value, kind, location, rfl, _⟩ := fits.property isProperty
      obtain rfl : step = ⟨0, none⟩ := (stepsTo_iff (by rfl)).1 isKey
      cases reached

theorem Shaped.resolves_of_use? (shaped : root.Shaped) (inside : place.IsIn root)
    (reached : (root.use? place.address).isSome = true) (unmarked : ¬ name.IsMarked)
    {location : Option Location}
    (nodeEq : place.node = .mk .identifier [.data (.text name)] location) :
    ∃ scope, root.codebase.Resolves place (.text name) scope ∧
      root.resolve place.address name = .declared name scope := by
  have inCodebase : place.IsIn root.codebase.root := inside
  have inner := shaped.inner inside (by simp [nodeEq, kind]) (by simp [nodeEq, kind])
  have tokenName : place.tokenName? = some (.text name) := by
    rw [Occurrence.tokenName?, nodeEq]
    rfl
  obtain ⟨step, parent, addressEq, parentIn, _, notCollection⟩ := shaped.exists_parent inside inner
  obtain ⟨file, category, fits⟩ := shaped.fits parentIn notCollection
  have used : root.usage? place = .ok (some ⟨.variable, .text name⟩) := by
    obtain ⟨_, passed⟩ := isSome_iff_exists.1 reached
    rw [addressEq, use?, show root.at? parent.address = some parent.node from parentIn] at passed
    obtain ⟨use, _, passed⟩ := bind_eq_some_iff.1 passed
    rw [shaped.usage? inside addressEq parentIn notCollection tokenName,
      show place.node.kind = .identifier by rw [nodeEq]; rfl]
    exact congrArg Except.ok (fits.usageIn?_of_use? (isSome_of_mem passed) _ _)
  refine ⟨_, Codebase.resolves_of_usage? shaped inCodebase used, ?_⟩
  rw [Codebase.declaringScope?_of_not_functionName shaped inCodebase
    (not_isFunctionName_of_use? reached), ← shaped.resolve_eq unmarked inside]

theorem Shaped.resolves_of_declared (shaped : root.Shaped) (inside : place.IsIn root)
    (unmarked : ¬ name.IsMarked)
    (isDeclaration : place.node.kind = .functionDeclaration ∨ place.node.kind = .variableDeclarator)
    {location : Option Location}
    (found : place.node.child? ⟨0, none⟩ = some (.mk .identifier [.data (.text name)] location)) :
    ∃ token scope, root.codebase.Resolves token (.text name) scope ∧
      root.resolve place.address name = .declared name scope := by
  have inCodebase : place.IsIn root.codebase.root := inside
  have notCollection : place.node.kind ≠ .programCollection := by
    rcases isDeclaration with kindEq | kindEq <;> simp [kindEq]
  let token : Occurrence :=
    ⟨⟨0, none⟩ :: place.address, .mk .identifier [.data (.text name)] location⟩
  have member : token ∈ place.children := Occurrence.mem_children.2 ⟨_, rfl, found⟩
  have tokenIn : token.IsIn root := inside.child member
  have plain : place.node.kind.isScope = true ∨ place.node.kind = .variableDeclarator :=
    isDeclaration.imp_left fun kindEq => by simp [kindEq, Kind.isScope, Kind.isFunction]
  have used : root.usage? token = .ok (some ⟨.variable, .text name⟩) := by
    rw [shaped.usage? tokenIn rfl inside notCollection rfl]
    exact congrArg Except.ok (usageIn?_variable plain)
  refine ⟨token, _, @Codebase.resolves_of_usage? root.codebase shaped token name tokenIn used, ?_⟩
  rw [shaped.resolve_eq unmarked inside]
  rcases isDeclaration with isFunction | isDeclarator
  · rw [Codebase.declaringScope?_functionName shaped inCodebase isFunction tokenIn]
  · have undeclared : ¬ root.codebase.Declares place (.text name) := by
      rintro ⟨isScope, _⟩
      simp [isDeclarator, Kind.isScope, Kind.isFunction] at isScope
    rw [Codebase.declaringScope?_child shaped inCodebase undeclared member]

theorem IsParsed.of_mem_lookups (parsed : root.IsParsed) (inside : place.IsIn root)
    (reached : (root.use? place.address).isSome = true) (member : name ∈ place.node.lookups) :
    (∃ token scope, root.codebase.Resolves token (.text name) scope ∧
        root.resolve place.address name = .declared name scope) ∨
      place.node.kind = .returnStatement ∧ name = Synthetic.result ∨
      place.node.kind = .thisExpression ∧ name = Synthetic.receiver := by
  have shaped := parsed.shaped
  obtain ⟨address, node⟩ := place
  have declared {id : Field} (spelled : id.spelling? = some name)
      (isDeclaration : node.kind = .functionDeclaration ∨ node.kind = .variableDeclarator)
      (first : node.fields[0]? = some id) :
      ∃ token scope, root.codebase.Resolves token (.text name) scope ∧
        root.resolve address name = .declared name scope := by
    obtain ⟨location, rfl⟩ := Field.spelling?_eq_some.1 spelled
    have found : node.child? ⟨0, none⟩ = some (.mk .identifier [.data (.text name)] location) := by
      rw [child?, first]
    have idIn : Occurrence.IsIn ⟨⟨0, none⟩ :: address, .mk .identifier [.data (.text name)] location⟩
        root := inside.child (Occurrence.mem_children.2 ⟨_, rfl, found⟩)
    exact shaped.resolves_of_declared inside (parsed.not_isMarked idIn rfl) isDeclaration found
  dsimp only at member reached ⊢
  unfold lookups at member
  split at member
  · exact .inr (.inl ⟨rfl, List.mem_singleton.1 member⟩)
  · exact .inl (declared (mem_toList.1 member) (.inl rfl) rfl)
  · exact .inl (declared (mem_toList.1 member) (.inr rfl) rfl)
  · exact .inr (.inr ⟨rfl, List.mem_singleton.1 member⟩)
  · rename_i value _
    split at member
    · cases member
    · obtain rfl : value = .data (.text name) := by
        have isText := mem_toList.1 member
        unfold Field.text? at isText
        split at isText
        · cases isText
          rfl
        · cases isText
      obtain ⟨scope, resolves, same⟩ :=
        shaped.resolves_of_use? inside reached (parsed.not_isMarked inside rfl) rfl
      exact .inl ⟨_, scope, resolves, same⟩
  · cases member

theorem Shaped.exists_propertyOf_of_keys (shaped : root.Shaped) (inside : place.IsIn root)
    (member : name ∈ place.node.keys) :
    ∃ base token, Occurrence.PropertyOf root base token ∧
      token.tokenName? = some (.text name) ∧ base.address = place.node.keyOwner place.address := by
  obtain ⟨address, node⟩ := place
  dsimp only at member
  unfold keys at member
  split at member
  · rename_i items location
    obtain ⟨item, itemMember, isKey⟩ := List.mem_filterMap.1 member
    unfold Field.propertyKey? at isKey
    split at isKey
    · rename_i key value kind propertyLocation
      obtain ⟨index, found⟩ := List.getElem?_of_mem itemMember
      obtain ⟨token, rfl, named⟩ := Field.exists_of_keySpelling? isKey
      exact ⟨_, _, .key inside found, named _, rfl⟩
    · cases isKey
  · obtain ⟨_, _, _, fits⟩ := shaped.inner inside (by simp [kind]) (by simp [kind])
    obtain ⟨object, key, computed, location, nodeEq, _⟩ := fits.memberExpression rfl
    cases nodeEq
    have named := mem_toList.1 member
    cases computed with
    | false =>
      obtain ⟨_, keyEq⟩ := Field.spelling?_eq_some.1 named
      cases keyEq
      exact ⟨_, _, .member inside (.inl rfl), rfl, rfl⟩
    | true =>
      obtain ⟨_, _, keyEq⟩ := Field.exists_of_stringIn? named
      cases keyEq
      exact ⟨_, _, .member inside (.inr rfl), rfl, rfl⟩
  · cases member

theorem Shaped.mem_propertyNames (shaped : root.Shaped) (inside : place.IsIn root)
    (member : name ∈ place.node.keys) : name ∈ root.codebase.propertyNames := by
  obtain ⟨_, _, isProperty, named, _⟩ := shaped.exists_propertyOf_of_keys inside member
  exact @Codebase.mem_propertyNames root.codebase shaped _ _ _ isProperty named

end Node

/-- Whether a tree shares a name with other trees: that of a global variable or a property, or one
that inference makes up. -/
def Codebase.Shares (codebase : Codebase) (name : Text) : Prop :=
  name.IsMarked ∨ name ∈ codebase.globalNames ∨ name ∈ codebase.propertyNames

theorem TypeName.declared_of_local (name : Text) (isLocal : Codebase.isGlobalScope scope = false) :
    ∃ address, declared name scope = .bound address name := by
  cases scope with
  | none => cases isLocal
  | some scope => exact ⟨_, if_neg (by simpa [Codebase.isGlobalScope] using isLocal)⟩

theorem TypeName.isGlobal_of_declared {name : Text}
    (isGlobal : declared name scope = .property .global name) :
    Codebase.isGlobalScope scope = true := by
  by_contra isLocal
  obtain ⟨address, same⟩ := declared_of_local name (Bool.eq_false_of_not_eq_true isLocal)
  rw [isGlobal] at same
  cases same

theorem Node.resolve_cases (root : Node) (address : Address) (name : Text) :
    (∃ scope ∈ root.shadowing address, scope.binds name = true ∧
        root.resolve address name = .bound scope.address name) ∨
      (∀ scope ∈ root.shadowing address, scope.binds name = false) ∧
        root.resolve address name =
          if name = Synthetic.receiver then .global else .property .global name := by
  unfold resolve
  cases found : (root.shadowing address).find? fun scope => scope.binds name with
  | none => exact .inr ⟨by simpa using found, rfl⟩
  | some scope =>
    have binds := List.find?_some found
    exact .inl ⟨scope, List.mem_of_find?_eq_some found, binds, rfl⟩

namespace Node.IsParsed

variable {root : Node} (parsed : root.IsParsed) {constraint : Constraint}

include parsed

theorem native_demands {own : Address → Prop}
    (holds : ∀ place : Occurrence, place.IsIn root → place.node.kind ≠ .programCollection →
      ∀ path, own (path ++ place.address))
    (demanded : root.Demands constraint) :
    constraint.Over (TypeName.Native own root.codebase.Shares) := by
  have shaped := parsed.shaped
  refine over_of_demands demanded fun place use inside notCollection used => ?_
  have below := holds place inside notCollection
  refine
    { own := below []
      ofItem := fun field item => below [⟨field, some item⟩]
      ofValue := fun item => below [⟨1, none⟩, ⟨0, some item⟩]
      ofField := fun field _ => below [⟨field, none⟩]
      ofInner := fun _ _ _ => below [⟨0, none⟩, ⟨0, none⟩]
      ofBound := fun path _ => below path
      ofMarked := fun _ _ marked ofOwner =>
        ⟨ofOwner, .inl (Synthetic.isMarked _ (mem_names_of_marks marked))⟩
      ofKey := fun name isKey ofOwner =>
        ⟨ofOwner, .inr (.inr (shaped.mem_propertyNames inside isKey))⟩
      ofLookup := ?_
      ofGlobal := fun _ => trivial }
  intro name isLookup
  rcases root.resolve_cases place.address name with ⟨scope, isScope, _, same⟩ | ⟨_, same⟩
  · obtain ⟨isAbove, isShadowing⟩ := List.mem_filter.1 isScope
    rw [same]
    exact holds scope (Occurrence.of_mem_above isAbove).1 (kind_ne_of_isShadowing isShadowing).2 []
  · have reached : (root.use? place.address).isSome = true := by
      rw [used]
      rfl
    rcases parsed.of_mem_lookups inside reached isLookup with
      ⟨token, scope, resolves, declared⟩ | ⟨_, rfl⟩ | ⟨_, rfl⟩
    · rw [same]
      split
      · trivial
      · rename_i notReceiver
        rw [same, if_neg notReceiver] at declared
        exact ⟨trivial, .inr (.inl (Codebase.mem_globalNames shaped resolves
          (TypeName.isGlobal_of_declared declared.symm)))⟩
    · rw [same]
      exact ⟨trivial, .inl rfl⟩
    · rw [same]
      exact trivial

end Node.IsParsed

/-- Whether a tree has nothing to do with another one: it does not reach the global object, by `this`,
by a `return` outside of functions or by a plain call of a function right where it stands, and none
of its global variables has the name of a global variable or a property of the other tree. -/
@[mk_iff]
structure Node.Unrelated (program root : Node) : Prop where
  noReceiver : ∀ place ∈ program.walk, place.node.kind ≠ .thisExpression
  noReturn : ∀ place ∈ program.walk, place.node.kind = .returnStatement →
    ∃ outer ∈ program.above place.address, outer.node.kind.isFunction = true
  noCall : ∀ place ∈ program.walk, place.node.callsFunction = false
  noName : ∀ name ∈ program.codebase.globalNames,
    name ∉ root.codebase.globalNames ∧ name ∉ root.codebase.propertyNames

instance (program root : Node) : Decidable (program.Unrelated root) :=
  decidable_of_iff' _ (Node.unrelated_iff program root)

namespace Node.Unrelated

variable {program root : Node}

theorem not_shares (unrelated : program.Unrelated root) (parsed : program.IsParsed)
    {token : Occurrence} {name : Text}
    (resolves : program.codebase.Resolves token (.text name) scope)
    (isGlobal : Codebase.isGlobalScope scope = true) : ¬ root.codebase.Shares name := by
  obtain ⟨notGlobal, notProperty⟩ := unrelated.noName name
    (Codebase.mem_globalNames parsed.shaped resolves isGlobal)
  rintro (isMarked | isShared | isShared)
  · exact parsed.not_isMarked (mem_walk.1 resolves.inside) resolves.named isMarked
  · exact notGlobal isShared
  · exact notProperty isShared

theorem foreign_demands (unrelated : program.Unrelated root) (parsed : program.IsParsed)
    {constraint : Constraint} (demanded : program.Demands constraint) :
    constraint.Over (TypeName.Foreign (fun _ => False) root.codebase.Shares) := by
  refine over_of_demands demanded fun place use inside _ used => ?_
  have inWalk := mem_walk.2 inside
  refine
    { own := id
      ofItem := fun _ _ => id
      ofValue := fun _ => id
      ofField := fun _ _ => id
      ofInner := fun _ _ _ => id
      ofBound := fun _ _ => id
      ofMarked := fun _ _ _ ofOwner => .inl ofOwner
      ofKey := fun _ _ ofOwner => .inl ofOwner
      ofLookup := ?_
      ofGlobal := fun calls => ?_ }
  · intro name isLookup
    have reached : (program.use? place.address).isSome = true := by
      rw [used]
      rfl
    rcases parsed.of_mem_lookups inside reached isLookup with
      ⟨token, scope, resolves, declared⟩ | ⟨isReturn, rfl⟩ | ⟨isThis, _⟩
    · rw [declared]
      cases isGlobal : Codebase.isGlobalScope scope with
      | true =>
        rw [TypeName.declared_of_global isGlobal]
        exact .inr ⟨rfl, unrelated.not_shares parsed resolves isGlobal⟩
      | false =>
        obtain ⟨own, same⟩ := TypeName.declared_of_local name isGlobal
        rw [same]
        exact id
    · obtain ⟨function, isAbove, isFunction⟩ := unrelated.noReturn place inWalk isReturn
      rcases program.resolve_cases place.address Synthetic.result with ⟨_, _, _, same⟩ | ⟨unbound, _⟩
      · rw [same]
        exact id
      · have isShadowing : function.node.isShadowing = true := by
          simp [isShadowing, isFunction]
        have binds := Occurrence.binds_iff.2 (.inl ⟨isFunction, .inr rfl⟩)
        rw [unbound function (List.mem_filter.2 ⟨isAbove, isShadowing⟩)] at binds
        cases binds
    · exact absurd isThis (unrelated.noReceiver place inWalk)
  · rw [unrelated.noCall place inWalk] at calls
    cases calls

end Node.Unrelated

end Namesake
