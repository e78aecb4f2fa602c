import Namesake.Proofs.Inference.Constraint

/-!
A node has a type if some constraint is about it.  So the name of a function declaration has
none.
-/

namespace Namesake

open List

open Infer (inField inItem)

variable {constraint : Constraint}

def Text.IsMarked (text : Text) : Prop :=
  text.points.head? = some '@'.toNat

namespace Synthetic

def names : List Text :=
  [receiver, result, element, owner]

theorem isMarked : ∀ name ∈ names, name.IsMarked :=
  forall_mem_cons.2 ⟨rfl, forall_mem_cons.2 ⟨rfl, forall_mem_cons.2 ⟨rfl,
    forall_mem_singleton.2 rfl⟩⟩⟩

end Synthetic

def Field.propertyKey? : Field → Option Text
  | .node (.mk .property [key, _, _] _) => key.keySpelling?
  | _ => none

namespace Node

def keys : Node → List Text
  | .mk .objectExpression [.list items] _ => items.filterMap Field.propertyKey?
  | .mk .memberExpression [_, property, computed] _ =>
    (Constraint.memberName? property computed.isTruthy).toList
  | _ => []

def keyOwner (address : Address) : Node → Address
  | .mk .memberExpression _ _ => inField address 0
  | _ => address

def marks (address : Address) : Node → List (Address × Text)
  | .mk .functionDeclaration _ _ => [(address, Synthetic.receiver), (address, Synthetic.result)]
  | .mk .functionExpression _ _ => [(address, Synthetic.receiver), (address, Synthetic.result)]
  | .mk .arrayExpression _ _ => [(address, Synthetic.element)]
  | .mk .callExpression (.node (.mk .memberExpression (_ :: _) _) :: _) _ =>
    [(inField address 0, Synthetic.receiver)]
  | .mk .newExpression _ _ => [(inField address 0, Synthetic.receiver)]
  | .mk .memberExpression [_, property, computed] _ =>
    if (Constraint.memberName? property computed.isTruthy).isNone then
      [(inField address 1, Synthetic.owner)]
    else []
  | _ => []

def lookups : Node → List Text
  | .mk .returnStatement [.node _] _ => [Synthetic.result]
  | .mk .functionDeclaration [id, _, _] _ => id.spelling?.toList
  | .mk .variableDeclarator [id, _] _ => id.spelling?.toList
  | .mk .thisExpression _ _ => [Synthetic.receiver]
  | .mk .identifier [name] _ => if name.isWord "undefined" then [] else name.text?.toList
  | _ => []

theorem mem_names_of_marks {node : Node} {address owner : Address} {name : Text}
    (marked : (owner, name) ∈ node.marks address) : name ∈ Synthetic.names := by
  have each : ∀ entry ∈ node.marks address, entry.2 ∈ Synthetic.names := by
    unfold marks
    split
    all_goals try split
    all_goals simp [Synthetic.names]
  exact each _ marked

/-- Whether a node is a plain call of a function right where the function stands. -/
def callsFunction : Node → Bool
  | .mk .callExpression (.node callee :: _) _ => callee.kind = .functionExpression
  | _ => false

end Node

namespace Constraint

def Over (allowed : TypeName → Prop) (constraint : Constraint) : Prop :=
  ∀ type ∈ constraint.types, allowed type

variable {allowed : TypeName → Prop}
variable {function : Address}

@[simp] theorem over_same {left right : TypeName} :
    (same left right).Over allowed ↔ allowed left ∧ allowed right := by
  simp [Over, types]

@[simp] theorem over_marked {type : TypeName} : (marked type).Over allowed ↔ allowed type := by
  simp [Over, types]

@[simp] theorem over_method {base receiver : TypeName} :
    (method base receiver).Over allowed ↔ allowed base ∧ allowed receiver := by
  simp [Over, types]

theorem mem_nodes {address : Address} :
    address ∈ constraint.nodes ↔ ∃ type ∈ constraint.types, address ∈ type.nodes := by
  cases constraint <;> simp [nodes, types]

theorem over_named {name : Option Text} {demand : Text → List Constraint}
    (each : ∀ text ∈ name, ∀ constraint ∈ demand text, constraint.Over allowed) :
    ∀ constraint ∈ named name demand, constraint.Over allowed := by
  cases name with
  | none => exact forall_mem_nil _
  | some text => exact each text rfl

theorem over_ofParameters (ofItem : ∀ place, allowed (.node (inItem function 1 place)))
    (ofBound : ∀ name, allowed (.bound function name)) (place : Nat) (parameters : List Field) :
    ∀ constraint ∈ ofParameters function place parameters, constraint.Over allowed := by
  induction parameters generalizing place with
  | nil => exact forall_mem_nil _
  | cons parameter rest ih =>
    refine forall_mem_append.2 ⟨over_named fun name _ => ?_, ih (place + 1)⟩
    simpa using ⟨ofItem place, ofBound name⟩

theorem over_ofFunction (ofItem : ∀ place, allowed (.node (inItem function 1 place)))
    (ofBound : ∀ name, allowed (.bound function name))
    (ofReceiver : allowed (.property (.node function) Synthetic.receiver))
    (ofResult : allowed (.property (.node function) Synthetic.result))
    (params : Field) : ∀ constraint ∈ ofFunction function params, constraint.Over allowed := by
  refine forall_mem_append.2 ⟨over_ofParameters ofItem ofBound 0 _, ?_⟩
  simpa using ⟨⟨ofReceiver, ofBound _⟩, ofResult, ofBound _⟩

theorem over_ofElements {array : Address}
    (ofItem : ∀ place, allowed (.node (inItem array 0 place)))
    (ofElement : allowed (.property (.node array) Synthetic.element)) (place : Nat)
    (items : List Field) :
    ∀ constraint ∈ ofElements array place items, constraint.Over allowed := by
  induction items generalizing place with
  | nil => exact forall_mem_nil _
  | cons item rest ih =>
    refine forall_mem_append.2 ⟨?_, ih (place + 1)⟩
    split
    · exact forall_mem_nil _
    · simpa using ⟨ofElement, ofItem place⟩

theorem over_ofAccessor {owner : TypeName} {name : Text} (ofOwner : allowed owner)
    (ofProperty : allowed (.property owner name))
    (ofBound : ∀ bound, allowed (.bound function bound)) (isGetter : Bool) (value : Field) :
    ∀ constraint ∈ ofAccessor owner function isGetter value name, constraint.Over allowed := by
  refine forall_mem_append.2 ⟨?_, by simpa using ⟨ofOwner, ofBound _⟩⟩
  split
  · simpa using ⟨ofProperty, ofBound _⟩
  · split
    · refine over_named fun bound _ => ?_
      simpa using ⟨ofProperty, ofBound bound⟩
    · exact forall_mem_nil _

theorem over_ofProperties {object : Address} (own : allowed (.node object))
    (ofValue : ∀ place, allowed (.node (inField (inItem object 0 place) 1)))
    (ofBound : ∀ place name, allowed (.bound (inField (inItem object 0 place) 1) name))
    (place : Nat) (items : List Field)
    (ofKey : ∀ name ∈ items.filterMap Field.propertyKey?, allowed (.property (.node object) name)) :
    ∀ constraint ∈ ofProperties object place items, constraint.Over allowed := by
  fun_induction ofProperties object place items with
  | case1 place key value kind location rest ih =>
    rw [forall_mem_filterMap] at ofKey
    obtain ⟨ofFirst, ofRest⟩ := forall_mem_cons.1 ofKey
    refine forall_mem_append.2 ⟨over_named fun name spelled => ?_,
      ih (forall_mem_filterMap.2 ofRest)⟩
    have ofProperty := ofFirst name spelled
    split
    · simpa using ⟨ofProperty, ofValue place⟩
    · exact over_ofAccessor own ofProperty (ofBound place) _ _
  | case2 => exact forall_mem_nil _

theorem over_ofArguments {call : Address} (ofItem : ∀ place, allowed (.node (inItem call 1 place)))
    (ofBound : ∀ name, allowed (.bound function name)) (place : Nat)
    (arguments parameters : List Field) :
    ∀ constraint ∈ ofArguments call function place arguments parameters,
      constraint.Over allowed := by
  fun_induction ofArguments call function place arguments parameters with
  | case1 place _ arguments parameter parameters ih =>
    refine forall_mem_append.2 ⟨over_named fun name _ => ?_, ih⟩
    simpa using ⟨ofItem place, ofBound name⟩
  | case2 => exact forall_mem_nil _

theorem over_ofConstructor {address : Address} {field : Field} (own : allowed (.node address))
    (ofObject : ∀ object rest location,
      field = .node (.mk .memberExpression (object :: rest) location) →
        allowed (.node (inField address 0))) :
    ∀ constraint ∈ ofConstructor address field, constraint.Over allowed := by
  refine forall_mem_cons.2 ⟨over_marked.2 own, ?_⟩
  split
  · simpa using ofObject _ _ _ rfl
  · exact forall_mem_nil _

end Constraint

namespace Node

open Constraint

variable {root : Node}

/-- Whether some types are all that a node can demand something about: the types of the node and
its children, of what its scopes bind and of the names that it looks up, and in two cases of what
is one step further below. -/
structure Admits (allowed : TypeName → Prop) (lookup : Text → TypeName) (use : Use)
    (address : Address) (node : Node) : Prop where
  own : allowed (.node address)
  ofItem : ∀ field place, allowed (.node (inItem address field place))
  ofValue : ∀ place, allowed (.node (inField (inItem address 0 place) 1))
  ofField : ∀ field, (field = 0 → node.kind ≠ .functionDeclaration ∧
    (node.kind = .functionExpression → use ≠ .accessor)) → allowed (.node (inField address field))
  ofInner : ∀ member, node.child? ⟨0, none⟩ = some member → member.kind = .memberExpression →
    allowed (.node (inField (inField address 0) 0))
  ofBound : ∀ path name, allowed (.bound (path ++ address) name)
  ofMarked : ∀ owner name, (owner, name) ∈ node.marks address → allowed (.node owner) →
    allowed (.property (.node owner) name)
  ofKey : ∀ name ∈ node.keys, allowed (.node (node.keyOwner address)) →
    allowed (.property (.node (node.keyOwner address)) name)
  ofLookup : ∀ name ∈ node.lookups, allowed (lookup name)
  ofGlobal : node.callsFunction = true → allowed .global

namespace Admits

variable {allowed : TypeName → Prop} {lookup : Text → TypeName} {use : Use} {address : Address}
  {node : Node}
variable {location : Option Location}

theorem ofChild (admits : node.Admits allowed lookup use address)
    (notDeclaration : node.kind ≠ .functionDeclaration)
    (notExpression : node.kind ≠ .functionExpression) (field : Nat) :
    allowed (.node (inField address field)) :=
  admits.ofField field fun _ =>
    ⟨notDeclaration, fun isExpression => absurd isExpression notExpression⟩

theorem ofObject {kind : Kind} {object : Field} {fields : List Field}
    (admits : (Node.mk kind (object :: fields) location).Admits allowed lookup use address)
    (key : Field) (rest : List Field) (memberLocation : Option Location)
    (isMember : object = .node (.mk .memberExpression (key :: rest) memberLocation)) :
    allowed (.node (inField (inField address 0) 0)) := by
  subst isMember
  exact admits.ofInner _ rfl rfl

theorem over_call {callee arguments : Field} {isNew : Bool}
    (admits : (Node.mk (if isNew then .newExpression else .callExpression) [callee, arguments]
      location).Admits allowed lookup use address) :
    ∀ constraint ∈ ofCall address isNew callee arguments, constraint.Over allowed := by
  have ofCallee := admits.ofChild (by cases isNew <;> simp [kind]) (by cases isNew <;> simp [kind]) 0
  have ofBound := admits.ofBound [⟨0, none⟩]
  refine forall_mem_append.2 ⟨?_, forall_mem_append.2 ⟨?_, ?_⟩⟩
  · unfold Constraint.ofCallee
    dsimp only
    split
    · refine forall_mem_append.2 ⟨over_ofArguments (admits.ofItem 1) ofBound 0 _ _, ?_⟩
      cases isNew with
      | true => simpa using ⟨⟨admits.own, ofBound _⟩, ofBound _, admits.own⟩
      | false => simpa using ⟨⟨admits.own, ofBound _⟩, ofBound _, admits.ofGlobal rfl⟩
    · cases isNew with
      | true => simpa using ⟨admits.own, admits.ofMarked _ _ mem_cons_self ofCallee⟩
      | false => exact forall_mem_nil _
  · unfold ofMethod
    split
    · have ofReceiver := admits.ofMarked (inField address 0) Synthetic.receiver
        (by cases isNew <;> exact mem_cons_self) ofCallee
      simpa using ⟨admits.ofObject _ _ _ rfl, ofReceiver⟩
    · exact forall_mem_nil _
  · split
    · exact over_ofConstructor ofCallee admits.ofObject
    · exact forall_mem_nil _

theorem over_member {object property computed : Field}
    (admits : (Node.mk .memberExpression [object, property, computed] location).Admits allowed
      lookup use address) :
    ∀ constraint ∈ ofMember address object property computed.isTruthy, constraint.Over allowed := by
  have ofField := admits.ofChild (by simp [kind]) (by simp [kind])
  unfold ofMember
  split
  · rename_i unnamed
    have marked : (inField address 1, Synthetic.owner) ∈
        (Node.mk .memberExpression [object, property, computed] location).marks address := by
      simp [marks, unnamed]
    simpa using ⟨admits.ofMarked _ _ marked (ofField 1), ofField 0⟩
  · rename_i name named
    have ofProperty := admits.ofKey name (by simp [keys, named]) (ofField 0)
    refine forall_mem_cons.2 ⟨by simpa using ⟨admits.own, ofProperty⟩, ?_⟩
    split
    · exact over_ofConstructor (ofField 0) admits.ofObject
    · exact forall_mem_nil _

theorem of_addresses {within : Address → Prop} (unbound : ∀ name, (lookup name).nodes = [])
    (own : within address) (ofItem : ∀ field place, within (inItem address field place))
    (ofValue : ∀ place, within (inField (inItem address 0 place) 1))
    (ofField : ∀ field, (field = 0 → node.kind ≠ .functionDeclaration ∧
      (node.kind = .functionExpression → use ≠ .accessor)) → within (inField address field))
    (ofInner : ∀ member, node.child? ⟨0, none⟩ = some member → member.kind = .memberExpression →
      within (inField (inField address 0) 0)) :
    node.Admits (fun type => ∀ inner ∈ type.nodes, within inner) lookup use address where
  own := forall_mem_singleton.2 own
  ofItem field place := forall_mem_singleton.2 (ofItem field place)
  ofValue place := forall_mem_singleton.2 (ofValue place)
  ofField field passed := forall_mem_singleton.2 (ofField field passed)
  ofInner member found isMember := forall_mem_singleton.2 (ofInner member found isMember)
  ofBound _ _ := forall_mem_nil _
  ofMarked _ _ _ ofOwner := ofOwner
  ofKey _ _ ofOwner := ofOwner
  ofLookup name _ := by
    rw [unbound name]
    exact forall_mem_nil _
  ofGlobal _ := forall_mem_nil _

end Admits

theorem over_constraints {allowed : TypeName → Prop} {lookup : Text → TypeName} {use : Use}
    {address : Address} {node : Node} (admits : node.Admits allowed lookup use address) :
    ∀ constraint ∈ node.constraints lookup use address, constraint.Over allowed := by
  have ofBound := admits.ofBound []
  have ofMarked (name : Text) (isMarked : (address, name) ∈ node.marks address) :=
    admits.ofMarked address name isMarked admits.own
  unfold constraints
  split
  case h_1 =>
    have ofLookup := admits.ofLookup _ mem_cons_self
    simpa using ⟨admits.ofChild (by simp [kind]) (by simp [kind]) 0, ofLookup⟩
  case h_2 =>
    refine over_named fun name _ => ?_
    simpa using ⟨admits.ofChild (by simp [kind]) (by simp [kind]) 0, ofBound name⟩
  case h_3 =>
    refine forall_mem_append.2
      ⟨over_ofFunction (admits.ofItem 1) ofBound (ofMarked _ (by simp [marks]))
        (ofMarked _ (by simp [marks])) _, over_named fun name spelled => ?_⟩
    simpa using ⟨admits.own, admits.ofLookup name (Option.mem_toList.2 spelled)⟩
  case h_4 =>
    have ofChild := admits.ofChild (by simp [kind]) (by simp [kind])
    refine over_named fun name spelled => ?_
    have ofLookup := admits.ofLookup name (Option.mem_toList.2 spelled)
    refine forall_mem_append.2 ⟨?_, by simpa using ⟨ofChild 0, ofLookup⟩⟩
    split
    · simpa using ⟨ofLookup, ofChild 1⟩
    · exact forall_mem_nil _
  case h_5 =>
    refine forall_mem_append.2 ⟨?_, over_ofFunction (admits.ofItem 1) ofBound
      (ofMarked _ (by simp [marks])) (ofMarked _ (by simp [marks])) _⟩
    split
    · exact forall_mem_nil _
    · rename_i notAccessor
      have ofName := admits.ofField 0 fun _ => ⟨by simp [kind], fun _ => notAccessor⟩
      refine over_named fun name _ => ?_
      simpa using ⟨⟨admits.own, ofBound name⟩, ofName, admits.own⟩
  case h_6 => simpa using ⟨admits.own, admits.ofLookup _ mem_cons_self⟩
  case h_7 =>
    have ofElement := ofMarked Synthetic.element (by simp [marks])
    exact forall_mem_cons.2 ⟨by simpa using ofElement, over_ofElements (admits.ofItem 0)
      ofElement 0 _⟩
  case h_8 =>
    refine forall_mem_cons.2 ⟨by simpa using admits.own, ?_⟩
    exact over_ofProperties admits.own admits.ofValue
      (fun place => admits.ofBound [⟨1, none⟩, ⟨0, some place⟩]) 0 _
      fun name member => admits.ofKey name member admits.own
  case h_9 => simpa using ⟨admits.own, admits.ofItem 0 _⟩
  case h_10 =>
    have ofChild := admits.ofChild (by simp [kind]) (by simp [kind])
    split
    · simp [admits.own, ofChild]
    · exact forall_mem_nil _
  case h_11 =>
    have ofChild := admits.ofChild (by simp [kind]) (by simp [kind])
    split
    · simpa using ⟨admits.own, ofChild 2⟩
    · split
      · exact forall_mem_nil _
      · simp [admits.own, ofChild]
  case h_12 =>
    have ofChild := admits.ofChild (by simp [kind]) (by simp [kind])
    split
    · exact forall_mem_nil _
    · simp [admits.own, ofChild]
  case h_13 => exact @Admits.over_call _ _ _ _ _ _ _ false admits
  case h_14 => exact @Admits.over_call _ _ _ _ _ _ _ true admits
  case h_15 => exact admits.over_member
  case h_16 =>
    split
    · exact forall_mem_nil _
    · rename_i notWord
      refine over_named fun name spelled => ?_
      have ofLookup := admits.ofLookup name (by simpa [lookups, notWord] using spelled)
      simpa using ⟨admits.own, ofLookup⟩
  case h_17 => exact forall_mem_nil _

theorem kind_of_constraintsAt {place : Occurrence}
    (demanded : constraint ∈ root.constraintsAt place) : place.node.kind ≠ .programCollection := by
  obtain ⟨address, kind, fields, location⟩ := place
  rintro rfl
  unfold constraintsAt at demanded
  cases used : root.use? address <;> rw [used] at demanded <;> cases demanded

theorem over_of_demands {allowed : TypeName → Prop} (demanded : root.Demands constraint)
    (admits : ∀ (place : Occurrence) use, place.IsIn root → place.node.kind ≠ .programCollection →
      root.use? place.address = some use → place.node.Admits allowed (root.resolve place.address)
      use place.address) :
    constraint.Over allowed := by
  obtain ⟨place, inside, member⟩ := demanded
  have notCollection := kind_of_constraintsAt member
  unfold constraintsAt at member
  cases used : root.use? place.address with
  | none =>
    rw [used] at member
    cases member
  | some use =>
    rw [used] at member
    exact over_constraints (admits place use inside notCollection used) constraint member

theorem nodes_resolve (root : Node) (address : Address) (name : Text) :
    (root.resolve address name).nodes = [] := by
  unfold resolve
  split
  · rfl
  · split <;> rfl

theorem useIn?_function {node : Node} (isFunction : node.kind.isFunction = true) (use : Use)
    {step : Step} (notBody : step.field ≠ 2) : node.useIn? use step = none := by
  obtain ⟨kind, fields, location⟩ := node
  unfold Kind.isFunction at isFunction
  cases kind with
  | functionDeclaration | functionExpression => exact if_neg notBody
  | _ => cases isFunction

theorem not_mentions_functionName {function : Occurrence} (inside : function.IsIn root)
    (isFunction : function.node.kind.isFunction = true)
    (passedOver : function.node.kind = .functionDeclaration ∨ root.use? function.address = some
      .accessor) :
    ¬ Mentions root.Demands (inField function.address 0) := by
  rintro ⟨constraint, demanded, isAbout⟩
  obtain ⟨type, isType, isAbout⟩ := Constraint.mem_nodes.1 isAbout
  suffices allowed : constraint.Over fun type => ∀ inner ∈ type.nodes,
      inner ≠ inField function.address 0 from allowed type isType _ isAbout rfl
  refine over_of_demands demanded fun place use placeIn _ used => ?_
  have sameKind (same : place.address = function.address) :
      place.node.kind = function.node.kind := by
    rw [placeIn.eq_of_address inside same]
  refine .of_addresses (root.nodes_resolve place.address) ?_ ?_ ?_ ?_ ?_
  · intro same
    rw [same, inField, use?, inside] at used
    obtain ⟨_, _, isSome⟩ := Option.bind_eq_some_iff.1 used
    rw [Option.bind_some, useIn?_function isFunction _ (by simp)] at isSome
    cases isSome
  · intro field item same
    cases same
  · intro item same
    cases same
  · intro field ofName same
    injection same with stepEq addressEq
    injection stepEq with fieldEq
    obtain ⟨notDeclaration, notAccessor⟩ := ofName fieldEq
    rw [sameKind addressEq] at notDeclaration notAccessor
    rcases passedOver with isDeclaration | isAccessor
    · exact notDeclaration isDeclaration
    · rw [addressEq, isAccessor] at used
      refine notAccessor ?_ (Option.some.inj used).symm
      simpa [Kind.isFunction, notDeclaration] using isFunction
  · intro member found isMember same
    injection same with _ addressEq
    have memberIn : root.at? (⟨0, none⟩ :: place.address) = some member := by
      rw [at?_cons, placeIn]
      exact found
    rw [show (⟨0, none⟩ :: place.address : Address) = function.address from addressEq, inside]
      at memberIn
    cases memberIn
    rw [isMember] at isFunction
    cases isFunction

end Node

theorem mentions_of_withReceivers {constraints : Constraint → Prop} {address : Address}
    (mentions : Mentions (WithReceivers constraints) address) : Mentions constraints address := by
  obtain ⟨constraint, demanded | ⟨base, receiver, rfl, demanded, _⟩, isAbout⟩ := mentions
  · exact ⟨constraint, demanded, isAbout⟩
  · exact ⟨.method base receiver, demanded, isAbout⟩

end Namesake
