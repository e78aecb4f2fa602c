import Namesake.Proofs.Renaming.Target
import Namesake.Proofs.Scope.Counterparts

/-!
What a token names is read off the nodes around it, so it is the same in both trees.
-/

namespace Namesake

open Option Codebase

def Role.carry (carry : Occurrence → Occurrence) : Role → Role
  | .variable => .variable
  | .property base => .property (base.map carry)
  | .label => .label

theorem Occurrence.isNamed_move (moved : Address → Address) (place : Occurrence) (spelling : Text) :
    Occurrence.isNamed ⟨moved place.address, place.node⟩ (.text spelling) =
      place.isNamed (.text spelling) := by
  rw [Bool.eq_iff_iff, isNamed_text, isNamed_text]
  unfold name?
  cases Field.nameValue? (.node place.node) with
  | none => exact Iff.rfl
  | some value =>
    rw [map_some, map_some, Option.some.injEq, Option.some.injEq,
      Name.ofField_moved, Name.move_eq_text]

namespace Transfer

variable {left right : Node} {transfer : Transfer left right}
variable {spelling : Text}
variable {token : Occurrence}

theorem isGlobalScope_map (scope : Option Occurrence) :
    Codebase.isGlobalScope (scope.map transfer.carry) = Codebase.isGlobalScope scope := by
  cases scope <;> rfl

def carryUsage (transfer : Transfer left right) (usage : Usage) : Usage :=
  ⟨usage.role.carry transfer.carry, usage.name.move transfer.move⟩

theorem tokenName?_carry (token : Occurrence) :
    (transfer.carry token).tokenName? = token.tokenName?.map (Name.move transfer.move) := by
  unfold Occurrence.tokenName?
  rw [node_carry]
  split
  · split
    · rfl
    · exact congrArg some (Name.ofField_moved transfer.move token.address _)
  · rfl
  · rfl

theorem usageIn?_carry {parent : Occurrence} (inside : parent.IsIn left)
    (holds : transfer.Holds parent.address) (step : Step) (kind : Kind) (name : Name) :
    right.usageIn? (transfer.carry parent) step kind (name.move transfer.move) =
      (left.usageIn? parent step kind name).map transfer.carryUsage := by
  have fallback : (if kind = .identifier then some ⟨.variable, name.move transfer.move⟩ else none) =
      (if kind = .identifier then some (⟨.variable, name⟩ : Usage) else none).map
        transfer.carryUsage := by
    split <;> rfl
  unfold Node.usageIn?
  dsimp only
  rw [node_carry, fallback, address_carry]
  split
  · split
    · refine congrArg (fun base => some (Usage.mk (.property base) _)) ?_
      rw [map_map]
      refine map_congr fun object _ => ?_
      have moved := transfer.move_cons holds (parent.node.stepTo "object")
      exact congrArg (fun address => (⟨address, object⟩ : Occurrence)) moved.symm
    · rfl
  · split
    · rw [parent?_move holds inside]
      rfl
    · rfl
  all_goals
    split
    · rfl
    · rfl

theorem usage?_carry (inside : token.IsIn left) (holds : transfer.Holds token.address) :
    right.usage? (transfer.carry token) =
      (left.usage? token).map (Option.map transfer.carryUsage) := by
  obtain ⟨address, node⟩ := token
  unfold Node.usage?
  rw [tokenName?_carry]
  cases named : (⟨address, node⟩ : Occurrence).tokenName? with
  | none => rfl
  | some name =>
    have inner := transfer.leftShaped.inner_of_tokenName? inside named
    obtain ⟨step, parent, addressEq, parentIn, _, notCollection⟩ :=
      transfer.leftShaped.exists_parent inside inner
    obtain rfl : address = step :: parent.address := addressEq
    have found : left.parent? (step :: parent.address) = some parent :=
      transfer.leftShaped.parent? inside parentIn notCollection
    have parentHolds := holds_parent holds inside parentIn notCollection
    have movedFound := parent?_move holds inside
    rw [found, transfer.move_cons parentHolds step] at movedFound
    simp only [map_some, address_carry, node_carry, found,
      transfer.move_cons parentHolds step, movedFound]
    exact congrArg Except.ok (usageIn?_carry parentIn parentHolds step node.kind name)

theorem usage?_carry_eq_some (inside : token.IsIn left) (holds : transfer.Holds token.address)
    {role : Role} :
    right.usage? (transfer.carry token) = .ok (some ⟨role, .text spelling⟩) ↔
      ∃ own, left.usage? token = .ok (some ⟨own, .text spelling⟩) ∧
        own.carry transfer.carry = role := by
  rw [usage?_carry inside holds]
  constructor
  · intro used
    rcases found : left.usage? token with fault | _ | ⟨own, name⟩
    · rw [found] at used
      cases used
    · rw [found] at used
      cases used
    · rw [found] at used
      obtain ⟨roleEq, nameEq⟩ := Usage.mk.inj (Option.some.inj (Except.ok.inj used))
      obtain rfl : name = .text spelling := Name.move_eq_text.1 nameEq
      exact ⟨own, rfl, roleEq⟩
  · rintro ⟨own, used, rfl⟩
    rw [used]
    rfl

theorem isLabelled_carry (place : Occurrence) (spelling : Text) :
    Codebase.isLabelled (.text spelling) (transfer.carry place) =
      Codebase.isLabelled (.text spelling) place := by
  unfold Codebase.isLabelled Occurrence.child?
  rw [node_carry, map_map, map_map]
  refine congrArg (fun label => _ && Option.getD label false) (map_congr fun child _ => ?_)
  exact Occurrence.isNamed_move (fun _ => place.node.stepTo "label" :: transfer.move place.address)
    ⟨place.node.stepTo "label" :: place.address, child⟩ spelling

theorem labelled?_carry {places : List Occurrence}
    (hold : ∀ place ∈ places, transfer.Holds place.address) (spelling : Text) :
    Codebase.labelled? (.text spelling) (places.map transfer.carry) =
        (Codebase.labelled? (.text spelling) places).map transfer.carry ∧
      ∀ statement ∈ Codebase.labelled? (.text spelling) places,
        transfer.Holds statement.address := by
  induction places with
  | nil => exact ⟨rfl, nofun⟩
  | cons place rest ih =>
    obtain ⟨placeHolds, restHold⟩ := List.forall_mem_cons.1 hold
    rw [List.map_cons, Codebase.labelled?, Codebase.labelled?, isLabelled_carry, node_carry]
    split
    · exact ⟨rfl, by simpa using placeHolds⟩
    · split
      · exact ⟨rfl, nofun⟩
      · exact ih restHold

theorem labelDeclaration?_carry (inside : token.IsIn left) (holds : transfer.Holds token.address)
    (spelling : Text) :
    right.codebase.labelDeclaration? (transfer.carry token) (.text spelling) =
        (left.codebase.labelDeclaration? token (.text spelling)).map transfer.carry ∧
      ∀ statement ∈ left.codebase.labelDeclaration? token (.text spelling),
        transfer.Holds statement.address := by
  obtain ⟨around, hold⟩ := around_move holds inside
  have labelled := labelled?_carry hold spelling
  rw [← around] at labelled
  exact labelled

/-- Whether typings of two trees say the same of the nodes that stand in both: the same nodes have
types, they are divided into the same classes, and the same class is that of the global object. -/
structure Agrees (transfer : Transfer left right) (first second : Typing) : Prop where
  typed : ∀ address, transfer.Holds address →
    (second.type? (transfer.move address)).isSome = (first.type? address).isSome
  classes : ∀ address other, transfer.Holds address → transfer.Holds other →
    (second.class? (transfer.move address) = second.class? (transfer.move other) ↔
      first.class? address = first.class? other)
  global : ∀ address, transfer.Holds address →
    second.isGlobalAt (transfer.move address) = first.isGlobalAt address

inductive SameTarget (transfer : Transfer left right) (first second : Typing) :
    Target → Target → Prop
  | bound {scope : Address} (holds : transfer.Holds scope) :
      SameTarget transfer first second (.bound scope) (.bound (transfer.move scope))
  | global : SameTarget transfer first second .global .global
  | label {statement : Address} (holds : transfer.Holds statement) :
      SameTarget transfer first second (.label statement) (.label (transfer.move statement))
  | jump {function : Address} (holds : transfer.Holds function) :
      SameTarget transfer first second (.jump (some function)) (.jump (some (transfer.move function)))
  | property {address : Address} {type other : TypeId} (holds : transfer.Holds address)
      (isClass : first.class? address = some type)
      (otherIsClass : second.class? (transfer.move address) = some other) :
      SameTarget transfer first second (.property type) (.property other)

section Typings

variable {first second : Typing} {token : Occurrence} (inside : token.IsIn left)
  (holds : transfer.Holds token.address)
variable {target : Target}

include inside holds

theorem holds_of_usage? {object : Occurrence} {name : Name}
    (used : left.usage? token = .ok (some ⟨.property (some object), name⟩)) :
    transfer.Holds object.address := by
  obtain ⟨_, _, same, isProperty⟩ := (transfer.leftShaped.usage?_property inside).1 used
  cases same
  cases isProperty with
  | member memberIn _ =>
    exact transfer.holds_cons (holds_parent holds inside memberIn (by simp [Node.kind])) _
  | key objectIn found =>
    have propertyIn := Occurrence.isIn_item objectIn 0 rfl found
    have propertyHolds := holds_parent holds inside propertyIn (by simp [Node.kind])
    exact holds_parent propertyHolds propertyIn objectIn (by simp [Node.kind])

theorem targetOf?_carry_bound {scope : Address} (scopeHolds : transfer.Holds scope) :
    right.codebase.targetOf? second (transfer.carry token) (.text spelling) .variable =
        some (.bound (transfer.move scope)) ↔
      left.codebase.targetOf? first token (.text spelling) .variable = some (.bound scope) := by
  obtain ⟨declared, hold⟩ := declaringScope?_move holds inside spelling
  rw [Codebase.targetOf?_variable_eq_bound, Codebase.targetOf?_variable_eq_bound, address_carry,
    declared]
  constructor
  · rintro ⟨_, found, notProgram, same⟩
    obtain ⟨place, placeFound, rfl⟩ := map_eq_some_iff.1 found
    exact ⟨place, placeFound, notProgram,
      transfer.move_injective (hold place placeFound) scopeHolds same⟩
  · rintro ⟨place, found, notProgram, rfl⟩
    rw [found]
    exact ⟨_, rfl, notProgram, rfl⟩

theorem targetOf?_carry_label {statement : Address} (statementHolds : transfer.Holds statement) :
    right.codebase.targetOf? second (transfer.carry token) (.text spelling) .label =
        some (.label (transfer.move statement)) ↔
      left.codebase.targetOf? first token (.text spelling) .label = some (.label statement) := by
  obtain ⟨declared, hold⟩ := labelDeclaration?_carry inside holds spelling
  rw [Codebase.targetOf?_label_eq_label, Codebase.targetOf?_label_eq_label, declared]
  constructor
  · rintro ⟨_, found, same⟩
    obtain ⟨place, placeFound, rfl⟩ := map_eq_some_iff.1 found
    exact ⟨place, placeFound, transfer.move_injective (hold place placeFound) statementHolds same⟩
  · rintro ⟨place, found, rfl⟩
    rw [found]
    exact ⟨_, rfl, rfl⟩

theorem targetOf?_carry_jump {function : Address} (functionHolds : transfer.Holds function) :
    right.codebase.targetOf? second (transfer.carry token) (.text spelling) .label =
        some (.jump (some (transfer.move function))) ↔
      left.codebase.targetOf? first token (.text spelling) .label = some (.jump (some function)) := by
  obtain ⟨declared, _⟩ := labelDeclaration?_carry inside holds spelling
  obtain ⟨enclosing, hold⟩ := enclosingFunction?_move holds inside
  rw [Codebase.targetOf?_label_eq_jump, Codebase.targetOf?_label_eq_jump, declared, map_eq_none_iff]
  refine and_congr_right fun _ => ?_
  change (right.enclosingFunction? (transfer.move token.address)).map _ = _ ↔
    (left.enclosingFunction? token.address).map _ = _
  rw [enclosing, map_map, map_eq_some_iff, map_eq_some_iff]
  constructor
  · rintro ⟨place, found, same⟩
    exact ⟨place, found, transfer.move_injective (hold place found) functionHolds same⟩
  · rintro ⟨place, found, rfl⟩
    exact ⟨place, found, rfl⟩

theorem targetOf?_carry_iff (agrees : transfer.Agrees first second) {other : Target}
    (same : transfer.SameTarget first second target other) {role : Role}
    (used : left.usage? token = .ok (some ⟨role, .text spelling⟩)) :
    right.codebase.targetOf? second (transfer.carry token) (.text spelling)
        (role.carry transfer.carry) = some other ↔
      left.codebase.targetOf? first token (.text spelling) role = some target := by
  cases role with
  | «variable» =>
    cases same with
    | bound scopeHolds => exact targetOf?_carry_bound inside holds scopeHolds
    | global =>
      have declared := (declaringScope?_move holds inside spelling).1
      rw [Role.carry, Codebase.targetOf?_variable_eq_global,
        Codebase.targetOf?_variable_eq_global, address_carry, declared, isGlobalScope_map]
    | label | jump | property =>
      refine iff_of_false (fun found => ?_) fun found => ?_
      all_goals simpa [Role.carry] using of_targetOf? found
  | label =>
    cases same with
    | label statementHolds => exact targetOf?_carry_label inside holds statementHolds
    | jump functionHolds => exact targetOf?_carry_jump inside holds functionHolds
    | bound | global | property =>
      refine iff_of_false (fun found => ?_) fun found => ?_
      all_goals simpa [Role.carry] using of_targetOf? found
  | property base =>
    obtain ⟨_, object, rfl, _⟩ := (transfer.leftShaped.usage?_property inside).1 used
    have objectHolds := holds_of_usage? inside holds used
    have global := agrees.global object.address objectHolds
    cases same with
    | global =>
      rw [Role.carry, Codebase.targetOf?_property_eq_global, Codebase.targetOf?_property_eq_global]
      simp only [map_some, Option.some.injEq, exists_eq_left', address_carry, global]
    | @property address type other addressHolds isClass otherIsClass =>
      have classes := agrees.classes object.address address objectHolds addressHolds
      have ofGlobal := agrees.global address addressHolds
      rw [isClass, otherIsClass] at classes
      rw [Typing.isGlobalAt, Typing.isGlobalAt, isClass, otherIsClass, decide_eq_decide,
        Option.some.injEq, Option.some.injEq] at ofGlobal
      rw [Role.carry, Codebase.targetOf?_property_eq_property,
        Codebase.targetOf?_property_eq_property]
      simp only [map_some, Option.some.injEq, exists_eq_left', address_carry, classes, Ne, ofGlobal]
    | bound | label | jump =>
      refine iff_of_false (fun found => ?_) fun found => ?_
      all_goals simpa [Role.carry] using of_targetOf? found

theorem target?_carry_iff (agrees : transfer.Agrees first second) {other : Target}
    (same : transfer.SameTarget first second target other) :
    right.codebase.target? second (transfer.carry token) = some (other, spelling) ↔
      left.codebase.target? first token = some (target, spelling) := by
  rw [Codebase.target?_eq_some, Codebase.target?_eq_some]
  constructor
  · rintro ⟨_, used, ofRole⟩
    obtain ⟨role, ownUsed, rfl⟩ := (usage?_carry_eq_some inside holds).1 used
    exact ⟨role, ownUsed, (targetOf?_carry_iff inside holds agrees same ownUsed).1 ofRole⟩
  · rintro ⟨role, used, ofRole⟩
    exact ⟨_, (usage?_carry_eq_some inside holds).2 ⟨role, used, rfl⟩,
      (targetOf?_carry_iff inside holds agrees same used).2 ofRole⟩

theorem exists_sameTarget (agrees : transfer.Agrees first second)
    (found : left.codebase.target? first token = some (target, spelling)) :
    ∃ other, transfer.SameTarget first second target other := by
  have named := Codebase.tokenName?_of_target? transfer.leftShaped inside found
  obtain ⟨role, used, ofRole⟩ := Codebase.target?_eq_some.1 found
  cases target with
  | bound scope =>
    obtain rfl : role = .variable := of_targetOf? ofRole
    obtain ⟨place, declared, _, rfl⟩ := Codebase.targetOf?_variable_eq_bound.1 ofRole
    exact ⟨_, .bound ((declaringScope?_move holds inside spelling).2 place declared)⟩
  | global => exact ⟨_, .global⟩
  | label statement =>
    obtain rfl : role = .label := of_targetOf? ofRole
    obtain ⟨place, declared, rfl⟩ := Codebase.targetOf?_label_eq_label.1 ofRole
    exact ⟨_, .label ((labelDeclaration?_carry inside holds spelling).2 place declared)⟩
  | jump function =>
    obtain rfl : role = .label := of_targetOf? ofRole
    obtain ⟨_, enclosing⟩ := Codebase.targetOf?_label_eq_jump.1 ofRole
    have inner := transfer.leftShaped.inner_of_tokenName? inside named
    obtain ⟨place, placeFound⟩ := transfer.leftShaped.exists_enclosingFunction inside inner
    rw [show left.codebase.root.enclosingFunction? token.address = some place from placeFound]
      at enclosing
    cases enclosing
    exact ⟨_, .jump ((enclosingFunction?_move holds inside).2 place placeFound)⟩
  | property type =>
    obtain ⟨base, rfl⟩ : ∃ base, role = .property base := of_targetOf? ofRole
    obtain ⟨object, rfl, isClass, _⟩ := Codebase.targetOf?_property_eq_property.1 ofRole
    have objectHolds := holds_of_usage? inside holds used
    have typed := agrees.typed object.address objectHolds
    obtain ⟨own, ownFound, _⟩ := map_eq_some_iff.1 isClass
    rw [ownFound, isSome_some] at typed
    obtain ⟨other, otherFound⟩ := isSome_iff_exists.1 typed
    exact ⟨_, .property objectHolds isClass (by rw [Typing.class?, otherFound]; rfl)⟩

theorem placeOf_carry :
    right.codebase.placeOf (transfer.carry token) = left.codebase.placeOf token := by
  have range : right.codebase.rangeOf (transfer.carry token) = left.codebase.rangeOf token := by
    unfold Codebase.rangeOf
    rw [show right.codebase.root.fileOf? (transfer.carry token) = _ from
      fileOf?_carry inside holds]
    rfl
  rw [Codebase.placeOf, Codebase.placeOf, range]

end Typings

end Transfer

end Namesake
