import Namesake.Proofs.Renaming.Token

/-!
A token names a property of an object in two places: in a member, where it is the name after the
dot or a string in brackets, and in an object literal, where it is a key.
-/

namespace Namesake

variable {kind : Kind} {name : Name} {parent : Occurrence} {step : Step}

/-- Whether a token names a property of the object that an expression stands for. -/
inductive Occurrence.PropertyOf (root : Node) : Occurrence → Occurrence → Prop
  | member {address : Address} {object key : Node} {computed : Bool} {location : Option Location}
      (inside : (⟨address, .mk .memberExpression
        [.node object, .node key, .data (.bool computed)] location⟩ : Occurrence).IsIn root)
      (named : computed = false ∨ key.kind = .literal) :
      PropertyOf root ⟨⟨0, none⟩ :: address, object⟩ ⟨⟨1, none⟩ :: address, key⟩
  | key {address : Address} {items : List Field} {location : Option Location} {place : Nat}
      {key : Node} {value kind : Field} {propertyLocation : Option Location}
      (inside : (⟨address, .mk .objectExpression [.list items] location⟩ : Occurrence).IsIn root)
      (found : items[place]? =
        some (.node (.mk .property [.node key, value, kind] propertyLocation))) :
      PropertyOf root ⟨address, .mk .objectExpression [.list items] location⟩
        ⟨⟨0, none⟩ :: ⟨0, some place⟩ :: address, key⟩

namespace Occurrence

theorem tokenName?_eq_name? {token : Occurrence} (inner : token.node.Inner)
    (isIdentifier : token.node.kind = .identifier) : token.tokenName? = token.name? := by
  obtain ⟨_, ownName, tokenName⟩ := name?_of_inner inner isIdentifier
  rw [ownName, tokenName]

theorem kind_of_tokenName? {token : Occurrence} (named : token.tokenName? = some name) :
    token.node.kind = .identifier ∨ token.node.kind = .literal := by
  unfold tokenName? at named
  split at named
  · rename_i nodeEq
    rw [nodeEq]
    exact .inl rfl
  · rename_i nodeEq
    rw [nodeEq]
    exact .inr rfl
  · cases named

end Occurrence

namespace Node

variable {root : Node} {token : Occurrence}

theorem Shaped.inner_of_tokenName? (shaped : root.Shaped) (inside : token.IsIn root)
    (named : token.tokenName? = some name) : token.node.Inner := by
  rcases Occurrence.kind_of_tokenName? named with kindEq | kindEq
  · exact shaped.inner inside (by simp [kindEq]) (by simp [kindEq])
  · exact shaped.inner inside (by simp [kindEq]) (by simp [kindEq])

theorem name_of_usageIn? {usage : Usage} (used : usageIn? root parent step kind name = some usage) :
    usage.name = name := by
  unfold usageIn? at used
  dsimp only at used
  split at used <;> (repeat' split at used) <;> cases used
  all_goals rfl

theorem Shaped.exists_usageIn? (shaped : root.Shaped) (inside : token.IsIn root) {usage : Usage}
    (used : root.usage? token = .ok (some usage)) :
    token.tokenName? = some usage.name ∧ ∃ (step : Step) (parent : Occurrence),
      token.address = step :: parent.address ∧ parent.IsIn root ∧ token ∈ parent.children ∧
        usageIn? root parent step token.node.kind usage.name = some usage := by
  cases named : token.tokenName? with
  | none => simp [Node.usage?, named] at used
  | some name =>
    obtain ⟨step, parent, addressEq, parentIn, member, notCollection⟩ :=
      shaped.exists_parent inside (shaped.inner_of_tokenName? inside named)
    rw [shaped.usage? inside addressEq parentIn notCollection named, Except.ok.injEq] at used
    rw [name_of_usageIn? used]
    exact ⟨rfl, step, parent, addressEq, parentIn, member, used⟩

theorem Shaped.exists_usage? (shaped : root.Shaped) (inside : token.IsIn root) :
    ∃ usage, root.usage? token = .ok usage := by
  cases named : token.tokenName? with
  | none => exact ⟨none, by simp [Node.usage?, named]⟩
  | some name =>
    obtain ⟨step, parent, addressEq, parentIn, _, notCollection⟩ :=
      shaped.exists_parent inside (shaped.inner_of_tokenName? inside named)
    exact ⟨_, shaped.usage? inside addressEq parentIn notCollection named⟩

end Node

def Kind.holdsLabel (kind : Kind) : Bool :=
  kind = .breakStatement || kind = .continueStatement || kind = .labeledStatement

theorem Kind.eq_objectExpression (kind : Kind) :
    ∀ slots ∈ kind.signatures, ∀ slot ∈ slots, slot.category? = some .property →
      kind = .objectExpression := by
  cases kind <;> decide

theorem Category.eq_property (category : Category) (member : .property ∈ category.kinds) :
    category = .property := by
  cases category <;> first | rfl | simp [kinds] at member

namespace Node

variable {root : Node} {token : Occurrence}

theorem Fits.objectExpression {node child : Node} {file : String} {category : Category}
    (fits : node.Fits file category) (found : node.child? step = some child)
    (isProperty : child.kind = .property) :
    ∃ items location place, node = .mk .objectExpression [.list items] location ∧
      step = ⟨0, some place⟩ ∧ items[place]? = some (.node child) := by
  obtain ⟨slots, member, slot, inner, slotFound, isInner, childFits, fit⟩ := fits.childSlot found
  obtain rfl : inner = .property := Category.eq_property inner (isProperty ▸ childFits.kind_mem)
  have isObject := Kind.eq_objectExpression _ slots member slot (List.mem_of_getElem? slotFound) isInner
  obtain ⟨kind, fields, location⟩ := node
  obtain rfl : kind = .objectExpression := isObject
  obtain ⟨_, rfl, itemsFit⟩ := (fits.allFit_of rfl).one
  obtain ⟨children, rfl, _⟩ := Field.fits_many.1 itemsFit
  obtain ⟨place, rfl, itemFound⟩ : ∃ place, step = ⟨0, some place⟩ ∧
      (children.map Field.node)[place]?.bind Field.node? = some child := by
    have member := mem_steps.2 found
    simp only [steps, fields, fieldChildren, List.zipIdx_singleton, List.flatMap_singleton,
      mem_itemChildren] at member
    exact member
  obtain ⟨item, itemEq, nodeEq⟩ := Option.bind_eq_some_iff.1 itemFound
  obtain ⟨other, _, rfl⟩ := List.mem_map.1 (List.mem_of_getElem? itemEq)
  cases nodeEq
  exact ⟨_, location, place, rfl, rfl, itemEq⟩

end Node

namespace Occurrence

variable {root : Node} {base token : Occurrence}

theorem PropertyOf.isIn_token (isProperty : PropertyOf root base token) : token.IsIn root := by
  cases isProperty with
  | member inside _ => exact isIn_field inside 1 rfl
  | key inside found => exact isIn_field (isIn_item inside 0 rfl found) 0 rfl

theorem PropertyOf.usage? (shaped : root.Shaped) (isProperty : PropertyOf root base token)
    (named : token.tokenName? = some name) :
    root.usage? token = .ok (some ⟨.property (some base), name⟩) := by
  have tokenIn := isProperty.isIn_token
  cases isProperty with
  | @member address object key computed location inside isNamed =>
    rw [shaped.usage? tokenIn rfl inside (by simp [Node.kind]) named]
    rcases isNamed with rfl | isLiteral
    · rfl
    · rw [isLiteral]
      cases computed <;> rfl
  | @key address items location place key value kind propertyLocation inside found =>
    have propertyIn := isIn_item inside 0 rfl found
    rw [shaped.usage? tokenIn rfl propertyIn (by simp [Node.kind]) named]
    have parentEq := shaped.parent? propertyIn inside (by simp [Node.kind])
    exact congrArg (fun parent => Except.ok (some (⟨.property parent, name⟩ : Usage))) parentEq

end Occurrence

namespace Node

variable {root : Node} {token : Occurrence}
variable {base : Option Occurrence}

theorem kind_of_usageIn?
    (used : usageIn? root parent step kind name = some ⟨.property base, name⟩) :
    parent.node.kind = .memberExpression ∨
      parent.node.kind = .property ∧ parent.node.stepsTo "key" step = true := by
  unfold usageIn? at used
  dsimp only at used
  split at used
  · exact .inl ‹_›
  · refine .inr ⟨‹_›, ?_⟩
    split at used
    · assumption
    · split at used <;> cases used
  all_goals repeat' split at used
  all_goals cases used

theorem of_usageIn?_member {address : Address} {object key : Node} {computed : Bool}
    {location : Option Location}
    (used : usageIn? root ⟨address, .mk .memberExpression [.node object, .node key, .data (.bool
      computed)] location⟩ step kind name = some ⟨.property base, name⟩) :
    step = ⟨1, none⟩ ∧ (computed = false ∨ kind = .literal) := by
  unfold usageIn? at used
  dsimp only [Node.kind] at used
  split at used
  · rename_i isKey
    rw [Bool.and_eq_true] at isKey
    refine ⟨(stepsTo_iff (by rfl)).1 isKey.1, ?_⟩
    cases computed
    · exact .inl rfl
    · exact .inr (of_decide_eq_true isKey.2)
  · split at used <;> cases used

theorem Shaped.exists_propertyOf (shaped : root.Shaped) (inside : token.IsIn root)
    (used : root.usage? token = .ok (some ⟨.property base, name⟩)) :
    ∃ object, Occurrence.PropertyOf root object token := by
  obtain ⟨_, step, ⟨address, parent⟩, addressEq, parentIn, _, usedIn⟩ :=
    shaped.exists_usageIn? inside used
  obtain ⟨tokenAddress, node⟩ := token
  obtain rfl : tokenAddress = step :: address := addressEq
  rcases kind_of_usageIn? usedIn with isMember | ⟨isProperty, isKey⟩
  · obtain ⟨_, _, _, fits⟩ := shaped.inner parentIn (by simp [isMember]) (by simp [isMember])
    obtain ⟨object, key, computed, location, rfl, _⟩ := fits.memberExpression isMember
    obtain ⟨rfl, isNamed⟩ := of_usageIn?_member usedIn
    have keyIn := Occurrence.isIn_field parentIn 1 rfl
    obtain rfl : key = node := congrArg Occurrence.node (keyIn.eq_of_address inside rfl)
    exact ⟨_, .member parentIn isNamed⟩
  · have inner := shaped.inner parentIn (by simp [isProperty]) (by simp [isProperty])
    obtain ⟨outerStep, ⟨outerAddress, outer⟩, rfl, outerIn, member, notCollection⟩ :=
      shaped.exists_parent parentIn inner
    obtain ⟨_, _, _, fits⟩ := inner
    obtain ⟨key, value, kind, location, rfl, _⟩ := fits.property isProperty
    obtain rfl : step = ⟨0, none⟩ := (stepsTo_iff (by rfl)).1 isKey
    have keyIn := Occurrence.isIn_field parentIn 0 rfl
    obtain rfl : key = node := congrArg Occurrence.node (keyIn.eq_of_address inside rfl)
    obtain ⟨_, _, outerFits⟩ := shaped.fits outerIn notCollection
    obtain ⟨other, addressEq, found⟩ := Occurrence.mem_children.1 member
    obtain ⟨items, _, place, rfl, rfl, itemFound⟩ := outerFits.objectExpression found rfl
    cases addressEq
    exact ⟨_, .key outerIn itemFound⟩

theorem Shaped.usage?_property (shaped : root.Shaped) (inside : token.IsIn root) :
    root.usage? token = .ok (some ⟨.property base, name⟩) ↔ token.tokenName? = some name ∧
        ∃ object, base = some object ∧ Occurrence.PropertyOf root object token := by
  constructor
  · intro used
    obtain ⟨named, _⟩ := shaped.exists_usageIn? inside used
    obtain ⟨object, isProperty⟩ := shaped.exists_propertyOf inside used
    rw [isProperty.usage? shaped named] at used
    cases used
    exact ⟨named, object, rfl, isProperty⟩
  · rintro ⟨named, object, rfl, isProperty⟩
    exact isProperty.usage? shaped named

theorem kind_of_usageIn?_variable
    (used : usageIn? root parent step kind name = some ⟨.variable, name⟩) : kind = .identifier := by
  unfold usageIn? at used
  dsimp only at used
  repeat' split at used
  all_goals first | assumption | cases used

theorem of_usageIn?_label (used : usageIn? root parent step kind name = some ⟨.label, name⟩) :
    parent.node.kind.holdsLabel = true ∧ step = ⟨0, none⟩ := by
  unfold usageIn? at used
  dsimp only at used
  split at used
  case h_3 | h_4 | h_5 =>
    rename_i kindEq
    split at used
    · rename_i isLabel
      refine ⟨by rw [kindEq]; rfl, (stepsTo_iff ?_).1 isLabel⟩
      rw [kindEq]
      rfl
    · split at used <;> cases used
  all_goals repeat' split at used
  all_goals cases used

theorem usageIn?_label (holdsLabel : parent.node.kind.holdsLabel = true) :
    usageIn? root parent ⟨0, none⟩ kind name = some ⟨.label, name⟩ := by
  obtain ⟨address, parentKind, fields, location⟩ := parent
  cases parentKind <;> first | rfl | cases holdsLabel

theorem Fits.kind_of_label {node label : Node} {file : String} {category : Category}
    (fits : node.Fits file category) (holdsLabel : node.kind.holdsLabel = true)
    (found : node.child? ⟨0, none⟩ = some label) : label.kind = .identifier := by
  obtain ⟨slots, member, slot, inner, slotFound, isInner, labelFits, _⟩ := fits.childSlot found
  obtain ⟨kind, fields, location⟩ := node
  cases kind with
  | breakStatement | continueStatement | labeledStatement =>
    cases List.mem_singleton.1 member
    cases slotFound
    cases isInner
    exact List.mem_singleton.1 labelFits.kind_mem
  | _ => cases holdsLabel

theorem Shaped.usage?_label (shaped : root.Shaped) (inside : token.IsIn root) :
    root.usage? token = .ok (some ⟨.label, name⟩) ↔
      token.tokenName? = some name ∧ ∃ parent : Occurrence, parent.IsIn root ∧
        parent.node.kind.holdsLabel = true ∧ token.address = ⟨0, none⟩ :: parent.address := by
  constructor
  · intro used
    obtain ⟨named, step, parent, addressEq, parentIn, _, usedIn⟩ :=
      shaped.exists_usageIn? inside used
    obtain ⟨holdsLabel, rfl⟩ := of_usageIn?_label usedIn
    exact ⟨named, parent, parentIn, holdsLabel, addressEq⟩
  · rintro ⟨named, parent, parentIn, holdsLabel, addressEq⟩
    have notCollection : parent.node.kind ≠ .programCollection := by
      intro isCollection
      rw [isCollection] at holdsLabel
      cases holdsLabel
    rw [shaped.usage? inside addressEq parentIn notCollection named]
    exact congrArg Except.ok (usageIn?_label holdsLabel)

theorem Shaped.kind_of_usage?_label (shaped : root.Shaped) (inside : token.IsIn root)
    (used : root.usage? token = .ok (some ⟨.label, name⟩)) : token.node.kind = .identifier := by
  obtain ⟨_, parent, parentIn, holdsLabel, addressEq⟩ := (shaped.usage?_label inside).1 used
  have notCollection : parent.node.kind ≠ .programCollection := by
    intro isCollection
    rw [isCollection] at holdsLabel
    cases holdsLabel
  obtain ⟨_, _, fits⟩ := shaped.fits parentIn notCollection
  refine fits.kind_of_label holdsLabel ?_
  rw [Occurrence.IsIn, addressEq, at?_cons, parentIn] at inside
  exact inside

theorem Shaped.text_of_tokenName? (shaped : root.Shaped) (inside : token.IsIn root)
    (named : token.tokenName? = some name) : ∃ spelling, name = .text spelling := by
  rcases Occurrence.kind_of_tokenName? named with isIdentifier | isLiteral
  · obtain ⟨spelling, _, ownName⟩ :=
      Occurrence.name?_of_inner (shaped.inner_of_tokenName? inside named) isIdentifier
    exact ⟨spelling, Option.some.inj (named.symm.trans ownName)⟩
  · unfold Occurrence.tokenName? at named
    split at named
    · rename_i nodeEq
      rw [nodeEq] at isLiteral
      cases isLiteral
    · cases named
      exact ⟨_, rfl⟩
    · cases named

end Node

theorem Codebase.usage?_variable {codebase : Codebase} (shaped : codebase.root.Shaped)
    {token : Occurrence} (inside : token.IsIn codebase.root) :
    codebase.root.usage? token = .ok (some ⟨.variable, name⟩) ↔
      codebase.namesVariable token = true ∧ token.name? = some name := by
  have own_name {own : Name} (used : codebase.root.usage? token = .ok (some ⟨.variable, own⟩)) :
      token.name? = some own := by
    obtain ⟨named, _, _, _, _, _, usedIn⟩ := shaped.exists_usageIn? inside used
    obtain ⟨spelling, ownName, tokenName⟩ :=
      Occurrence.name?_of_inner (shaped.inner_of_tokenName? inside named)
        (Node.kind_of_usageIn?_variable usedIn)
    rw [ownName, ← tokenName, named]
  constructor
  · intro used
    refine ⟨?_, own_name used⟩
    rw [namesVariable, used]
  · rintro ⟨names, named⟩
    unfold namesVariable at names
    split at names
    · rename_i own used
      rw [used, Option.some.inj (named.symm.trans (own_name used))]
    · cases names

end Namesake
