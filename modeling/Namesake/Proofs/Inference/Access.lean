import Namesake.Proofs.Inference.Counterparts

/-!
However the types of two objects came to be one, inference has then made one of the types of
their properties as well.
-/

namespace Namesake

open Infer (inField inItem)

/-- Whether the expression at an address has the value of a property of the object that the
expression at another address stands for. -/
inductive Node.Accesses (root : Node) (name : Text) : (base value : Address) → Prop where
  /-- A member with a name after a dot, or with a string in brackets. -/
  | member {address : Address} {object key : Node} {computed : Bool} {location : Option Location}
      (inside : (⟨address, .mk .memberExpression
        [.node object, .node key, .data (.bool computed)] location⟩ : Occurrence).IsIn root)
      (isKey : key.kind = if computed then .literal else .identifier)
      (named : (⟨inField address 1, key⟩ : Occurrence).tokenName? = some (.text name)) :
      Accesses root name (inField address 0) address
  /-- An object literal with a value for the property. -/
  | literal {address : Address} {items : List Field} {location : Option Location} {place : Nat}
      {key value : Node} {kind : Field} {propertyLocation : Option Location}
      (inside : (⟨address, .mk .objectExpression [.list items] location⟩ : Occurrence).IsIn root)
      (found : items[place]? =
        some (.node (.mk .property [.node key, .node value, kind] propertyLocation)))
      (isInit : kind.isWord "init" = true)
      (named : (⟨inField (inItem address 0 place) 0, key⟩ : Occurrence).tokenName? =
        some (.text name)) :
      Accesses root name address (inField (inItem address 0 place) 1)

/-- Whether a node is a member with a given name after a dot. -/
def Node.isMember (name : Text) : Node → Bool
  | .mk .memberExpression [.node _, .node (.mk .identifier [.data (.text own)] _),
      .data (.bool false)] _ => own = name
  | _ => false

theorem Node.Accesses.of_isMember {root : Node} {name : Text} {place : Occurrence}
    (inside : place.IsIn root) (isMember : place.node.isMember name = true) :
    root.Accesses name (inField place.address 0) place.address := by
  obtain ⟨address, node⟩ := place
  unfold Node.isMember at isMember
  split at isMember
  · rename_i object own ownLocation location nodeEq
    obtain rfl : node = _ := nodeEq
    obtain rfl := of_decide_eq_true isMember
    exact .member inside rfl rfl
  · cases isMember

theorem Occurrence.cases_of_tokenName? {token : Occurrence} {name : Text}
    (named : token.tokenName? = some (.text name)) :
    (∃ location, token.node = .mk .identifier [.data (.text name)] location) ∨
      ∃ rest location, token.node = .mk .literal (.data (.text name) :: rest) location := by
  unfold tokenName? at named
  split at named
  · rename_i value location nodeEq
    split at named
    · cases named
    · unfold Name.ofField at named
      split at named
      · cases named
        exact .inl ⟨location, nodeEq⟩
      · cases named
  · rename_i spelling rest location nodeEq
    cases named
    exact .inr ⟨rest, location, nodeEq⟩
  · cases named

theorem Occurrence.keySpelling?_eq {token : Occurrence} {name : Text}
    (named : token.tokenName? = some (.text name)) :
    (Field.node token.node).keySpelling? = some name := by
  rcases cases_of_tokenName? named with ⟨location, nodeEq⟩ | ⟨rest, location, nodeEq⟩
  · rw [nodeEq]
    rfl
  · rw [nodeEq]
    rfl

namespace Constraint

theorem memberName?_eq {token : Occurrence} {name : Text} {computed : Bool}
    (named : token.tokenName? = some (.text name))
    (isKey : token.node.kind = if computed then .literal else .identifier) :
    memberName? (.node token.node) computed = some name := by
  rcases Occurrence.cases_of_tokenName? named with ⟨location, nodeEq⟩ | ⟨rest, location, nodeEq⟩
  all_goals
    rw [nodeEq] at isKey ⊢
    cases computed
  · rfl
  · cases isKey
  · cases isKey
  · rfl

theorem mem_ofProperties (object : Address) {items : List Field} {place : Nat}
    {key value kind : Field} {location : Option Location} {name : Text}
    (properties : ∀ item ∈ items, ∃ key value kind location,
      item = .node (.mk .property [key, value, kind] location))
    (found : items[place]? = some (.node (.mk .property [key, value, kind] location)))
    (isInit : kind.isWord "init" = true) (named : key.keySpelling? = some name) (start : Nat) :
    same (.property (.node object) name) (.node (inField (inItem object 0 (start + place)) 1)) ∈
      ofProperties object start items := by
  induction items generalizing place start with
  | nil => cases found
  | cons first rest ih =>
    obtain ⟨⟨ownKey, ownValue, ownKind, ownLocation, rfl⟩, others⟩ :=
      List.forall_mem_cons.1 properties
    cases place with
    | zero =>
      cases found
      rw [ofProperties, Constraint.named, named, Option.elim_some, if_pos isInit]
      exact List.mem_cons_self
    | succ place =>
      have later := ih others found (start + 1)
      rw [Nat.add_right_comm start 1 place] at later
      exact List.mem_append_right _ later

end Constraint

namespace Node

variable {root : Node} {name : Text} {base value : Address}

theorem Shaped.properties_of_objectExpression (shaped : root.Shaped) {address : Address}
    {items : List Field} {location : Option Location}
    (inside : (⟨address, .mk .objectExpression [.list items] location⟩ : Occurrence).IsIn root) :
    ∀ item ∈ items, ∃ key value kind location,
      item = .node (.mk .property [key, value, kind] location) := by
  obtain ⟨_, _, _, fits⟩ := shaped.inner inside (by simp [Node.kind]) (by simp [Node.kind])
  obtain ⟨_, fieldsEq, itemsFit⟩ := (fits.allFit_of rfl).one
  obtain ⟨children, childrenEq, fit⟩ := Field.fits_many.1 itemsFit
  cases fieldsEq
  obtain rfl : items = children.map .node := Field.list.inj childrenEq
  intro item member
  obtain ⟨child, childMember, rfl⟩ := List.mem_map.1 member
  have childFits := fit child childMember
  obtain ⟨key, value, kind, propertyLocation, rfl, _⟩ :=
    childFits.property (List.mem_singleton.1 childFits.kind_mem)
  exact ⟨_, _, _, _, rfl⟩

/-- What has the value of a property has its type. -/
theorem Accesses.demanded (accesses : root.Accesses name base value) (shaped : root.Shaped) :
    root.Demands (.same (.node value) (.property (.node base) name)) ∨
      root.Demands (.same (.property (.node base) name) (.node value)) := by
  cases accesses with
  | @member _ object key computed location inside isKey named =>
    obtain ⟨use, used⟩ := Option.isSome_iff_exists.1
      (shaped.isSome_use? inside (by simp [Node.kind]) (by simp [Node.kind]))
    refine .inl (demands_of_mem inside used ?_)
    have nameEq : Constraint.memberName? (.node key) computed = some name :=
      Constraint.memberName?_eq named isKey
    change _ ∈ Constraint.ofMember value (.node object) (.node key) computed
    rw [Constraint.ofMember, nameEq]
    exact List.mem_cons_self
  | literal inside found isInit named =>
    obtain ⟨use, used⟩ := Option.isSome_iff_exists.1
      (shaped.isSome_use? inside (by simp [Node.kind]) (by simp [Node.kind]))
    refine .inr (demands_of_mem inside used (List.mem_cons_of_mem _ ?_))
    have member := Constraint.mem_ofProperties base
      (shaped.properties_of_objectExpression inside) found isInit
      (Occurrence.keySpelling?_eq named) 0
    rw [Nat.zero_add] at member
    exact member

theorem Accesses.mentions (accesses : root.Accesses name base value) (shaped : root.Shaped) :
    Mentions (WithReceivers root.Demands) base ∧ Mentions (WithReceivers root.Demands) value := by
  rcases accesses.demanded shaped with demanded | demanded
  all_goals
    exact ⟨⟨_, .inl demanded, by simp [Constraint.nodes, TypeName.nodes]⟩,
      ⟨_, .inl demanded, by simp [Constraint.nodes, TypeName.nodes]⟩⟩

theorem Accesses.entails (accesses : root.Accesses name base value) (shaped : root.Shaped) :
    Entails (WithReceivers root.Demands) (.node value) (.property (.node base) name) := by
  rcases accesses.demanded shaped with demanded | demanded
  · exact .given (.inl demanded)
  · exact .symm (.given (.inl demanded))

end Node

/-- Types respect properties.  All that gets at a property has a type, and so has its object; what
gets at one property of objects of one class is of one class; and what gets at a property of the
global object has the class of the global variable of that name, unless it is `undefined`. -/
theorem class?_of_accesses {root : Node} (parsed : root.IsParsed) :
    ∃ codebase inference, Codebase.ofRoot root = .ok codebase ∧ codebase.root = root ∧
      codebase.infer = .ok inference ∧
      ∀ name base value, root.Accesses name base value →
        (inference.typing.class? base).isSome = true ∧
        (inference.typing.class? value).isSome = true ∧
        (∀ otherBase otherValue, root.Accesses name otherBase otherValue →
          inference.typing.class? base = inference.typing.class? otherBase →
          inference.typing.class? value = inference.typing.class? otherValue) ∧
        (inference.typing.isGlobalAt base = true → name ≠ Text.ofString "undefined" →
          ∀ token scope, codebase.Resolves token (.text name) scope →
            Codebase.isGlobalScope scope = true →
            (inference.typing.type? token.address).isSome = true →
            inference.typing.class? token.address = inference.typing.class? value) := by
  have shaped := parsed.shaped
  obtain ⟨inference, world, inferEq, typingEq, inferred⟩ := exists_inferred shaped
  refine ⟨root.codebase, inference, Codebase.ofRoot_eq shaped, rfl, inferEq, ?_⟩
  rw [← typingEq]
  intro name base value accesses
  obtain ⟨baseMentions, valueMentions⟩ := accesses.mentions shaped
  obtain ⟨_, baseEq, _⟩ := inferred.exists_type baseMentions
  obtain ⟨_, valueEq, _⟩ := inferred.exists_type valueMentions
  refine ⟨by rw [baseEq]; rfl, by rw [valueEq]; rfl, ?_, ?_⟩
  · intro otherBase otherValue others sameBase
    obtain ⟨_, otherValueMentions⟩ := others.mentions shaped
    have bases := (inferred.class?_eq_iff.1 sameBase).2 baseMentions
    refine inferred.class?_eq_iff.2 ⟨iff_of_true valueMentions otherValueMentions, fun _ => ?_⟩
    exact (accesses.entails shaped).trans
      ((Entails.property name bases).trans (others.entails shaped).symm)
  · intro isGlobal notUndefined token scope resolves isGlobalScope typed
    have unmarked : ¬ name.IsMarked :=
      parsed.not_isMarked (Node.mem_walk.1 resolves.inside) resolves.named
    have mentions := inferred.isSome_type?_iff.1 typed
    have ofVariable := shaped.entails_variable unmarked resolves notUndefined
      (mentions_of_withReceivers mentions)
    rw [TypeName.declared_of_global isGlobalScope] at ofVariable
    obtain ⟨_, ofBase⟩ := inferred.isGlobalAt_iff.1 isGlobal
    refine inferred.class?_eq_iff.2 ⟨iff_of_true mentions valueMentions, fun _ => ?_⟩
    exact (ofVariable.mono fun _ => Or.inl).trans
      ((Entails.property name ofBase).symm.trans (accesses.entails shaped).symm)

/-- Two members that read one property of the global object, and the global variable of that
name. -/
theorem class?_of_accesses_global :
    ∃ root, ((⟨"", "this.a;a;this.a"⟩ : SourceFile).parse false).result = .ok root ∧
      root.IsParsed ∧ ∃ codebase inference base value otherBase otherValue token,
        Codebase.ofRoot root = .ok codebase ∧ codebase.infer = .ok inference ∧
        root.Accesses (Text.ofString "a") base value ∧
        root.Accesses (Text.ofString "a") otherBase otherValue ∧ value ≠ otherValue ∧
        codebase.Resolves token (.text (Text.ofString "a")) none ∧
        inference.typing.class? value = inference.typing.class? otherValue ∧
        inference.typing.class? token.address = inference.typing.class? value := by
  have found : ((⟨"", "this.a;a;this.a"⟩ : SourceFile).parse false).result.toOption.any
      (fun root => ∃ inference ∈ root.codebase.infer.toOption, ∃ first ∈ root.walk,
        ∃ second ∈ root.walk, ∃ token ∈ root.walk, first.node.isMember (Text.ofString "a") ∧
          second.node.isMember (Text.ofString "a") ∧ first.address ≠ second.address ∧
          inference.typing.isGlobalAt (inField first.address 0) ∧
          inference.typing.isGlobalAt (inField second.address 0) ∧
          token.isNamed (.text (Text.ofString "a")) ∧ root.codebase.namesVariable token ∧
          (root.codebase.declaringScope? token.address (.text (Text.ofString "a"))).isNone ∧
          (inference.typing.type? token.address).isSome) = true := by
    decide +kernel
  obtain ⟨root, parseEq, parsed, inference, inferred, first, firstIn, second, secondIn, token, tokenIn, isFirst,
    isSecond, apart, firstGlobal, secondGlobal, named, names, none, typed⟩ :=
    Node.exists_isParsed found
  obtain ⟨codebase, _, analysed, _, inferEq, accessed⟩ := class?_of_accesses parsed
  obtain rfl := Codebase.eq_of_ofRoot parsed.shaped analysed
  rw [inferEq] at inferred
  cases inferred
  have ofFirst := Node.Accesses.of_isMember (Node.mem_walk.1 firstIn) isFirst
  have ofSecond := Node.Accesses.of_isMember (Node.mem_walk.1 secondIn) isSecond
  obtain ⟨_, _, congruent, ofGlobal⟩ := accessed _ _ _ ofFirst
  have bases := (of_decide_eq_true firstGlobal).trans (of_decide_eq_true secondGlobal).symm
  have resolves : root.codebase.Resolves token (.text (Text.ofString "a")) Option.none :=
    ⟨tokenIn, names, Occurrence.isNamed_text.1 named, Option.isNone_iff_eq_none.1 none⟩
  exact ⟨root, parseEq, parsed, root.codebase, inference, _, _, _, _, token, analysed, inferEq,
    ofFirst, ofSecond, apart, resolves, congruent _ _ ofSecond bases,
    ofGlobal firstGlobal (by decide) token Option.none resolves rfl typed⟩

end Namesake
