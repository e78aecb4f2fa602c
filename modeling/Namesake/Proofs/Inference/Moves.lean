import Namesake.Proofs.Inference.Mention

/-!
What a node demands depends on its address only through the names of types, so it moves along
with the node.
-/

namespace Namesake

open List

def TypeName.move (moved : Address → Address) : TypeName → TypeName
  | global => global
  | node address => node (moved address)
  | bound scope name => bound (moved scope) name
  | property owner name => property (owner.move moved) name

def Constraint.move (moved : Address → Address) : Constraint → Constraint
  | same left right => same (left.move moved) (right.move moved)
  | marked type => marked (type.move moved)
  | method base receiver => method (base.move moved) (receiver.move moved)

/-- Whether all that is below an address moves along with it. -/
def Address.MovesBy (moved : Address → Address) (address : Address) : Prop :=
  ∀ path, moved (path ++ address) = path ++ moved address

namespace Constraint

open Infer

variable {moved : Address → Address} {address : Address}

theorem movesBy_below (moves : Address.MovesBy moved address) (step : Step) :
    Address.MovesBy moved (step :: address) := by
  intro path
  have far := moves (path ++ [step])
  have near := moves [step]
  rw [append_assoc] at far
  rw [singleton_append] at near
  rw [near]
  simpa using far

theorem moved_inField (moves : Address.MovesBy moved address) (field : Nat) :
    moved (inField address field) = inField (moved address) field :=
  moves [⟨field, none⟩]

theorem moved_inItem (moves : Address.MovesBy moved address) (field place : Nat) :
    moved (inItem address field place) = inItem (moved address) field place :=
  moves [⟨field, some place⟩]

theorem map_named (name : Option Text) (demand : Text → List Constraint) :
    (named name demand).map (move moved) = named name fun text => (demand text).map (move moved) := by
  cases name <;> rfl

theorem map_ofParameters (moves : Address.MovesBy moved address) (place : Nat)
    (parameters : List Field) :
    (ofParameters address place parameters).map (move moved) =
      ofParameters (moved address) place parameters := by
  induction parameters generalizing place with
  | nil => rfl
  | cons parameter rest ih =>
    rw [ofParameters, ofParameters, map_append, map_named, ih]
    simp only [map_cons, map_nil, move, TypeName.move, moved_inItem moves]

theorem map_ofFunction (moves : Address.MovesBy moved address) (params : Field) :
    (ofFunction address params).map (move moved) = ofFunction (moved address) params := by
  rw [ofFunction, ofFunction, map_append, map_ofParameters moves]
  rfl

theorem map_ofOwnName (moves : Address.MovesBy moved address) (id : Field) :
    (ofOwnName address id).map (move moved) = ofOwnName (moved address) id := by
  rw [ofOwnName, ofOwnName, map_named]
  simp only [map_cons, map_nil, move, TypeName.move, moved_inField moves]

theorem map_ofElements (moves : Address.MovesBy moved address) (place : Nat) (items : List Field) :
    (ofElements address place items).map (move moved) = ofElements (moved address) place items := by
  induction items generalizing place with
  | nil => rfl
  | cons item rest ih =>
    rw [ofElements, ofElements, map_append, ih]
    split
    · rfl
    · simp only [map_cons, map_nil, move, TypeName.move, moved_inItem moves]

theorem map_ofAccessor (owner : TypeName) (function : Address) (isGetter : Bool) (value : Field)
    (name : Text) :
    (ofAccessor owner function isGetter value name).map (move moved) =
      ofAccessor (owner.move moved) (moved function) isGetter value name := by
  unfold ofAccessor
  rw [map_append]
  refine congrArg₂ (· ++ ·) ?_ rfl
  split
  · rfl
  · split
    · rw [map_named]
      rfl
    · rfl

theorem map_ofProperties (moves : Address.MovesBy moved address) (place : Nat) (items : List Field) :
    (ofProperties address place items).map (move moved) =
      ofProperties (moved address) place items := by
  fun_induction ofProperties address place items with
  | case1 place key value kind location rest ih =>
    have inner : moved (inField (inItem address 0 place) 1) =
        inField (inItem (moved address) 0 place) 1 :=
      moves [⟨1, none⟩, ⟨0, some place⟩]
    rw [ofProperties, map_append, map_named, ih]
    refine congrArg (· ++ _) (congrArg (named _) (funext fun name => ?_))
    dsimp only
    rw [← inner]
    split
    · rfl
    · exact map_ofAccessor (.node address) _ _ value name
  | case2 place items other =>
    rw [ofProperties.eq_2 _ _ _ other]
    rfl

theorem map_ofConstructor (moves : Address.MovesBy moved address) (field : Field) :
    (ofConstructor address field).map (move moved) = ofConstructor (moved address) field := by
  unfold ofConstructor
  rw [map_cons]
  refine congrArg₂ (· :: ·) rfl ?_
  split
  · simp only [map_cons, map_nil, move, TypeName.move, moved_inField moves]
  · rfl

theorem map_ofArguments {function : Address} (moves : Address.MovesBy moved address) (place : Nat)
    (arguments parameters : List Field) :
    (ofArguments address function place arguments parameters).map (move moved) =
      ofArguments (moved address) (moved function) place arguments parameters := by
  induction arguments generalizing place parameters with
  | nil => rfl
  | cons argument arguments ih =>
    cases parameters with
    | nil => rfl
    | cons parameter parameters =>
      rw [ofArguments, ofArguments, map_append, map_named, ih]
      simp only [map_cons, map_nil, move, TypeName.move, moved_inItem moves]

theorem map_ofCallee (moves : Address.MovesBy moved address) (isNew : Bool)
    (callee arguments : Field) :
    (ofCallee address isNew callee arguments).map (move moved) =
      ofCallee (moved address) isNew callee arguments := by
  have function := moved_inField moves 0
  unfold ofCallee
  dsimp only
  split
  · rw [map_append, map_ofArguments moves, function]
    refine congrArg (_ ++ ·) ?_
    cases isNew <;> simp only [map_cons, map_nil, move, TypeName.move, function] <;> rfl
  · cases isNew
    · rfl
    · simp only [if_pos, map_cons, map_nil, move, TypeName.move, function]

theorem map_ofMethod (moves : Address.MovesBy moved address) (callee : Field) :
    (ofMethod address callee).map (move moved) = ofMethod (moved address) callee := by
  unfold ofMethod
  split
  · simp only [map_cons, map_nil, move, TypeName.move, moved_inField moves]
  · rfl

theorem map_ofCall (moves : Address.MovesBy moved address) (isNew : Bool)
    (callee arguments : Field) :
    (ofCall address isNew callee arguments).map (move moved) =
      ofCall (moved address) isNew callee arguments := by
  have below : Address.MovesBy moved (inField address 0) := movesBy_below moves _
  rw [ofCall, ofCall, map_append, map_append, map_ofCallee moves, map_ofMethod below,
    ← moved_inField moves]
  cases isNew
  · rfl
  · exact congrArg (fun rest => _ ++ (_ ++ rest)) (map_ofConstructor below callee)

theorem map_ofMember (moves : Address.MovesBy moved address) (object property : Field)
    (computed : Bool) :
    (ofMember address object property computed).map (move moved) =
      ofMember (moved address) object property computed := by
  have below : Address.MovesBy moved (inField address 0) := movesBy_below moves _
  unfold ofMember
  split
  · simp only [map_cons, map_nil, move, TypeName.move, moved_inField moves]
  · rw [map_cons, ← moved_inField moves]
    split
    · rw [map_ofConstructor below]
      rfl
    · rfl

end Constraint

open Constraint Infer in
theorem Node.map_constraints {moved : Address → Address} {address : Address}
    (moves : Address.MovesBy moved address) (lookup : Text → TypeName) (use : Use) (node : Node) :
    (node.constraints lookup use address).map (Constraint.move moved) =
      node.constraints (fun name => (lookup name).move moved) use (moved address) := by
  fun_cases Node.constraints lookup use address node
  case case4 id init location =>
    simp only [Node.constraints, map_named, map_append]
    refine congrArg (named _) (funext fun name => ?_)
    split
    · simp only [map_cons, map_nil, move, TypeName.move, moved_inField moves]
    · simp only [map_cons, map_nil, move, TypeName.move, moved_inField moves]
  case case5 id params body location =>
    simp only [Node.constraints, map_append, map_ofFunction moves]
    refine congrArg (· ++ _) ?_
    split
    · rfl
    · exact map_ofOwnName moves id
  all_goals
    simp only [Node.constraints, map_append, map_cons, map_nil, map_named, move,
      TypeName.move, moved_inField moves, moved_inItem moves, map_ofFunction moves,
      map_ofElements moves, map_ofProperties moves, map_ofCall moves, map_ofMember moves, if_pos,
      Bool.false_eq_true, if_false, *]

namespace TypeName

variable {moved : Address → Address}

theorem nodes_move (type : TypeName) : (type.move moved).nodes = type.nodes.map moved := by
  induction type with
  | global => rfl
  | node address => rfl
  | bound scope name => rfl
  | property owner name ih => exact ih

theorem move_id (type : TypeName) : type.move id = type := by
  induction type with
  | global => rfl
  | node address => rfl
  | bound scope name => rfl
  | property owner name ih => exact congrArg (property · name) ih

end TypeName

namespace Constraint

variable {moved : Address → Address}

theorem nodes_move (constraint : Constraint) :
    (constraint.move moved).nodes = constraint.nodes.map moved := by
  cases constraint <;> simp only [move, nodes, TypeName.nodes_move, map_append]

theorem move_id : Constraint.move id = id := by
  funext constraint
  cases constraint <;> simp only [move, TypeName.move_id, id]

theorem Over.move {allowed other : TypeName → Prop} {constraint : Constraint}
    (within : constraint.Over allowed) (moves : ∀ type, allowed type → other (type.move moved)) :
    (constraint.move moved).Over other := by
  have types : (constraint.move moved).types = constraint.types.map (TypeName.move moved) := by
    cases constraint <;> rfl
  rw [Over, types, forall_mem_map]
  exact fun type member => moves type (within type member)

end Constraint

section Moved

variable {constraints more : Constraint → Prop} {moved : Address → Address}
  (forth : ∀ constraint, constraints constraint → more (constraint.move moved))

include forth

theorem Entails.move {left right : TypeName} (entails : Entails constraints left right) :
    Entails more (left.move moved) (right.move moved) := by
  induction entails with
  | refl type => exact .refl _
  | symm _ ih => exact ih.symm
  | trans _ _ first second => exact first.trans second
  | given member => exact .given (forth _ member)
  | property name _ ih => exact .property name ih

theorem IsNamespace.move {type : TypeName} (isNamespace : IsNamespace constraints type) :
    IsNamespace more (type.move moved) := by
  obtain ⟨other, demanded, entails⟩ := isNamespace
  exact ⟨other.move moved, forth _ demanded, entails.move forth⟩

theorem Mentions.move {address : Address} (mentions : Mentions constraints address) :
    Mentions more (moved address) := by
  obtain ⟨constraint, demanded, isAbout⟩ := mentions
  refine ⟨constraint.move moved, forth _ demanded, ?_⟩
  rw [Constraint.nodes_move]
  exact mem_map_of_mem isAbout

end Moved

/-- Whether the constraints on one side are those on the other side at other addresses, there and
back. -/
structure Matches (constraints more : Constraint → Prop) (moved returned : Address → Address) :
    Prop where
  forth : ∀ constraint, constraints constraint → more (constraint.move moved)
  back : ∀ constraint, more constraint → constraints (constraint.move returned)
  returns : ∀ constraint, constraints constraint → (constraint.move moved).move returned = constraint
  departs : ∀ constraint, more constraint → (constraint.move returned).move moved = constraint

namespace Matches

variable {constraints more : Constraint → Prop} {moved returned : Address → Address}

theorem symm (both : Matches constraints more moved returned) :
    Matches more constraints returned moved :=
  ⟨both.back, both.forth, both.departs, both.returns⟩

theorem entails_iff (both : Matches constraints more moved returned) {left right : TypeName}
    (leftReturns : (left.move moved).move returned = left)
    (rightReturns : (right.move moved).move returned = right) :
    Entails more (left.move moved) (right.move moved) ↔ Entails constraints left right := by
  constructor
  · intro entails
    have returnedEntails := entails.move both.back
    rwa [leftReturns, rightReturns] at returnedEntails
  · exact Entails.move both.forth

theorem isNamespace_iff (both : Matches constraints more moved returned) {type : TypeName}
    (returns : (type.move moved).move returned = type) :
    IsNamespace more (type.move moved) ↔ IsNamespace constraints type := by
  constructor
  · intro isNamespace
    have returnedNamespace := isNamespace.move both.back
    rwa [returns] at returnedNamespace
  · exact IsNamespace.move both.forth

theorem mentions_iff (both : Matches constraints more moved returned) {address : Address}
    (returns : returned (moved address) = address) :
    Mentions more (moved address) ↔ Mentions constraints address := by
  constructor
  · intro mentions
    have returnedMentions := mentions.move both.back
    rwa [returns] at returnedMentions
  · exact Mentions.move both.forth

theorem withReceivers_move (both : Matches constraints more moved returned)
    {constraint : Constraint} (demanded : WithReceivers constraints constraint) :
    WithReceivers more (constraint.move moved) ∧
      (constraint.move moved).move returned = constraint := by
  rcases demanded with demanded | ⟨base, receiver, rfl, demanded, notBase, notReceiver⟩
  · exact ⟨.inl (both.forth _ demanded), both.returns _ demanded⟩
  · obtain ⟨baseReturns, receiverReturns⟩ := Constraint.method.inj (both.returns _ demanded)
    refine ⟨.inr ⟨base.move moved, receiver.move moved, rfl, both.forth _ demanded, ?_, ?_⟩, ?_⟩
    · rwa [both.isNamespace_iff baseReturns]
    · rwa [both.isNamespace_iff receiverReturns]
    · exact congrArg₂ Constraint.same baseReturns receiverReturns

theorem withReceivers (both : Matches constraints more moved returned) :
    Matches (WithReceivers constraints) (WithReceivers more) moved returned where
  forth _ demanded := (both.withReceivers_move demanded).1
  back _ demanded := (both.symm.withReceivers_move demanded).1
  returns _ demanded := (both.withReceivers_move demanded).2
  departs _ demanded := (both.symm.withReceivers_move demanded).2

end Matches

end Namesake
