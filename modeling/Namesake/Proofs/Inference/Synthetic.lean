import Namesake.Proofs.Inference.Access
import Namesake.Proofs.Inference.Lookups

/-!
No identifier is spelled like a name that inference makes up: the receiver and the result of a
function, the elements of an array, the object that a computed key belongs to.
-/

namespace Namesake

open Infer (inField inItem)

/-- Whether some node makes up a property of the type of a node or, if there is none, of the global
object. -/
inductive Node.MakesUp (root : Node) : Option Address → Text → Prop where
  | own {place : Occurrence} {owner : Address} {name : Text} (inside : place.IsIn root)
      (marked : (owner, name) ∈ place.node.marks place.address) : MakesUp root (some owner) name
  | returned {address : Address} {value : Node} {location : Option Location}
      (inside : (⟨address, .mk .returnStatement [.node value] location⟩ : Occurrence).IsIn root)
      (outside : ∀ outer ∈ root.above address, outer.node.kind.isFunction = false) :
      MakesUp root none Synthetic.result

def TypeName.ofOwner : Option Address → TypeName
  | none => .global
  | some address => .node address

def Typing.classOf? (typing : Typing) : Option Address → Option TypeId
  | none => some (typing.graph.root Typing.globalType)
  | some address => typing.class? address

namespace Node

variable {root : Node} {name : Text}

theorem IsParsed.kind_of_marked (parsed : root.IsParsed) {token : Occurrence}
    (inside : token.IsIn root) (named : token.tokenName? = some (.text name))
    (isMarked : name.IsMarked) : token.node.kind = .literal := by
  obtain ⟨address, node⟩ := token
  rcases Occurrence.cases_of_tokenName? named with ⟨location, rfl⟩ | ⟨rest, location, rfl⟩
  · exact absurd isMarked (parsed.not_isMarked inside rfl)
  · rfl

theorem IsParsed.binds_iff_of_mem_names (parsed : root.IsParsed) {scope : Occurrence}
    (inside : scope.IsIn root) (synthetic : name ∈ Synthetic.names) :
    scope.binds name = true ↔ scope.node.kind.isFunction = true ∧
      (name = Synthetic.receiver ∨ name = Synthetic.result) := by
  have isMarked := Synthetic.isMarked name synthetic
  rw [Occurrence.binds_iff]
  refine or_iff_left ?_
  rintro ⟨address, declared⟩
  rcases Occurrence.of_mem_declarations inside declared with ⟨_, same⟩ | ⟨token, tokenIn, isOwn⟩
  · cases same
    cases isMarked
  · exact parsed.not_isMarked tokenIn (Occurrence.declaration?_eq_some.1 isOwn).1 isMarked

theorem exists_value_of_lookups {node : Node} (isReturn : node.kind = .returnStatement)
    (member : name ∈ node.lookups) :
    ∃ value location, node = .mk .returnStatement [.node value] location := by
  unfold lookups at member
  split at member
  · exact ⟨_, _, rfl⟩
  all_goals first | cases isReturn | cases member

theorem isFunction_above_of_unbound {address : Address}
    (unbound : ∀ scope ∈ root.shadowing address, scope.binds Synthetic.result = false) :
    ∀ outer ∈ root.above address, outer.node.kind.isFunction = false := by
  intro outer isAbove
  by_contra isFunction
  rw [Bool.not_eq_false] at isFunction
  have isShadowing : outer.node.isShadowing = true := by simp [Node.isShadowing, isFunction]
  have binds : outer.binds Synthetic.result = true :=
    Occurrence.binds_iff.2 (.inl ⟨isFunction, .inr rfl⟩)
  rw [unbound outer (List.mem_filter.2 ⟨isAbove, isShadowing⟩)] at binds
  cases binds

theorem IsParsed.cases_of_requests (parsed : root.IsParsed) {owner : TypeName}
    (requested : Requests root.Demands (.property owner name))
    (synthetic : name ∈ Synthetic.names) :
    (∃ address, owner = .ofOwner address ∧ root.MakesUp address name) ∨
      ∃ place : Occurrence, place.IsIn root ∧ name ∈ place.node.keys ∧
        owner = .node (place.node.keyOwner place.address) := by
  obtain ⟨constraint, demanded, isType⟩ := requested
  have each : constraint.Over fun type => ∀ owner name, type = .property owner name →
      name ∈ Synthetic.names →
      (∃ address, owner = .ofOwner address ∧ root.MakesUp address name) ∨
        ∃ place : Occurrence, place.IsIn root ∧ name ∈ place.node.keys ∧
          owner = .node (place.node.keyOwner place.address) := by
    refine over_of_demands demanded fun place use inside _ used => ?_
    refine
      { own := nofun
        ofItem := nofun
        ofValue := nofun
        ofField := nofun
        ofInner := nofun
        ofBound := nofun
        ofGlobal := nofun
        ofMarked := ?_
        ofKey := ?_
        ofLookup := ?_ }
    · rintro address name marked _ _ _ ⟨⟩ _
      exact .inl ⟨some address, rfl, .own inside marked⟩
    · rintro name isKey _ _ _ ⟨⟩ _
      exact .inr ⟨place, inside, isKey, rfl⟩
    · intro looked isLookup owner name resolved synthetic
      have isMarked := Synthetic.isMarked name synthetic
      rcases root.resolve_cases place.address looked with ⟨_, _, _, same⟩ | ⟨unbound, same⟩
      · rw [same] at resolved
        cases resolved
      · rw [same] at resolved
        split at resolved
        · cases resolved
        · cases resolved
          have reached : (root.use? place.address).isSome = true := by
            rw [used]
            rfl
          rcases parsed.of_mem_lookups inside reached isLookup with
            ⟨token, scope, resolves, _⟩ | ⟨isReturn, rfl⟩ | ⟨_, rfl⟩
          · exact absurd isMarked
              (parsed.not_isMarked (mem_walk.1 resolves.inside) resolves.named)
          · obtain ⟨address, node⟩ := place
            obtain ⟨value, location, rfl⟩ := exists_value_of_lookups isReturn isLookup
            exact .inl ⟨none, rfl, .returned inside (isFunction_above_of_unbound unbound)⟩
          · contradiction
  exact each _ isType owner name rfl synthetic

end Node

namespace World.Inferred

variable {root : Node} {world : World} (inferred : world.Inferred root) {name : Text}

include inferred

theorem requests_of_lookup {id target : TypeId}
    (found : (world.typing.graph.node (world.typing.graph.root id)).properties.lookup name =
      some target) :
    ∃ owner type, Requests root.Demands (.property owner name) ∧ world.Denotes owner type ∧
      world.typing.graph.root type = world.typing.graph.root id := by
  have tracks := TypeGraph.tracks_of_run inferred.good.run
  obtain ⟨asked, answer, member, same, _⟩ :=
    tracks.propertyRelated _ name target (TypeGraph.mem_of_lookup found)
  obtain ⟨owner, ⟨constraint, demanded, isType⟩, denotes⟩ :=
    inferred.good.asked asked name answer member
  have classEq := (tracks.root_eq_iff_related inferred.settled asked id).2
    (same.trans (tracks.rootRelated id).symm)
  refine ⟨owner, asked, ?_, denotes, classEq⟩
  rcases demanded with demanded | ⟨base, receiver, rfl, demanded, _⟩
  · exact ⟨constraint, demanded, isType⟩
  · exact ⟨_, demanded, isType⟩

theorem classOf?_eq {owner : Option Address} {type : TypeId}
    (denotes : world.Denotes (.ofOwner owner) type) :
    world.typing.classOf? owner = some (world.typing.graph.root type) := by
  have tracks := TypeGraph.tracks_of_run inferred.good.run
  cases owner with
  | none =>
    exact congrArg some ((tracks.root_eq_iff_related inferred.settled _ _).2 denotes)
  | some address =>
    obtain ⟨own, found, related⟩ := denotes
    have classEq := (tracks.root_eq_iff_related inferred.settled _ _).2 related
    rw [Typing.classOf?, Typing.class?, found, ← classEq]
    rfl

end World.Inferred

/-- Names that inference makes up never stand for what a program calls so, string keys apart.  A
token that names a variable or a property is called so only if it is a string that stands as a key.
The environment of a scope has the receiver and the result if it is that of a function, and no other
synthetic name.  A class has a property of such a name only if a node makes it up for a type of the
class, or a string of that value is a key of an object of the class. -/
theorem synthetic_of_parsed {root : Node} (parsed : root.IsParsed) :
    ∃ codebase inference, Codebase.ofRoot root = .ok codebase ∧ codebase.root = root ∧
      codebase.infer = .ok inference ∧
      (∀ token ∈ root.walk, ∀ usage, root.usage? token = .ok (some usage) → usage.role ≠ .label →
        ∀ name ∈ Synthetic.names, usage.name = .text name →
          token.node.kind = .literal ∧ ∃ base, Occurrence.PropertyOf root base token) ∧
      (∀ scope ∈ root.walk, scope.node.isShadowing = true →
        ∃ env, inference.typing.env? scope.address = some env ∧
          ∀ name ∈ Synthetic.names, (env.lookup name).isSome = true ↔
            scope.node.kind.isFunction = true ∧
              (name = Synthetic.receiver ∨ name = Synthetic.result)) ∧
      ∀ name ∈ Synthetic.names, ∀ id,
        ((inference.typing.graph.node
            (inference.typing.graph.root id)).properties.lookup name).isSome = true →
          (∃ owner, root.MakesUp owner name ∧
            inference.typing.classOf? owner = some (inference.typing.graph.root id)) ∨
          ∃ base token, Occurrence.PropertyOf root base token ∧ token.node.kind = .literal ∧
            token.tokenName? = some (.text name) ∧
            inference.typing.class? base.address = some (inference.typing.graph.root id) := by
  have shaped := parsed.shaped
  obtain ⟨inference, world, inferEq, typingEq, inferred⟩ := exists_inferred shaped
  refine ⟨root.codebase, inference, Codebase.ofRoot_eq shaped, rfl, inferEq, ?_⟩
  rw [← typingEq]
  refine ⟨?_, ?_, fun name synthetic id isSome => ?_⟩
  · rintro token member ⟨role, own⟩ used notLabel name synthetic rfl
    have inside := Node.mem_walk.1 member
    obtain ⟨named, _⟩ := shaped.exists_usageIn? inside used
    refine ⟨parsed.kind_of_marked inside named (Synthetic.isMarked name synthetic), ?_⟩
    cases role with
    | label => exact absurd rfl notLabel
    | property base => exact shaped.exists_propertyOf inside used
    | «variable» =>
      have inCodebase : root.codebase.root.Shaped := shaped
      obtain ⟨_, isNamed⟩ := (Codebase.usage?_variable inCodebase inside).1 used
      exact absurd (Synthetic.isMarked name synthetic) (parsed.not_isMarked inside isNamed)
  · intro scope member isShadowing
    have inside := Node.mem_walk.1 member
    have notLeaf : scope.node.kind ≠ .identifier ∧ scope.node.kind ≠ .literal := by
      constructor <;> intro kindEq <;>
        simp [Node.isShadowing, kindEq, Kind.isFunction] at isShadowing
    obtain ⟨env, found, binds⟩ := inferred.scopes scope inside isShadowing
      (shaped.isSome_use? inside notLeaf.1 notLeaf.2)
    refine ⟨env, found, fun name synthetic => ?_⟩
    rw [binds.names, parsed.binds_iff_of_mem_names inside synthetic]
  · obtain ⟨target, found⟩ := Option.isSome_iff_exists.1 isSome
    obtain ⟨owner, type, requested, denotes, classEq⟩ := inferred.requests_of_lookup found
    rw [← classEq]
    rcases parsed.cases_of_requests requested synthetic with
      ⟨address, rfl, makesUp⟩ | ⟨place, inside, isKey, rfl⟩
    · exact .inl ⟨address, makesUp, inferred.classOf?_eq denotes⟩
    · obtain ⟨base, token, isProperty, named, baseEq⟩ :=
        shaped.exists_propertyOf_of_keys inside isKey
      refine .inr ⟨base, token, isProperty, ?_, named, ?_⟩
      · exact parsed.kind_of_marked isProperty.isIn_token named (Synthetic.isMarked name synthetic)
      · rw [baseEq]
        exact inferred.classOf?_eq (show world.Denotes (.ofOwner (some _)) type from denotes)

/-- The receiver and the result of a function are in its environment, and no elements. -/
theorem synthetic_of_parsed_returned :
    ∃ root, ((⟨"", "f=function(){return[this]}"⟩ : SourceFile).parse false).result = .ok root ∧
      root.IsParsed ∧ ∃ codebase inference, ∃ scope ∈ root.walk, ∃ env,
        Codebase.ofRoot root = .ok codebase ∧ codebase.infer = .ok inference ∧
        scope.node.kind.isFunction = true ∧ inference.typing.env? scope.address = some env ∧
        (env.lookup Synthetic.result).isSome = true ∧
        ¬ (env.lookup Synthetic.element).isSome = true := by
  have checked : ((⟨"", "f=function(){return[this]}"⟩ : SourceFile).parse
      false).result.toOption.any (fun root =>
        ∃ scope ∈ root.walk, scope.node.kind.isFunction) = true := by
    decide +kernel
  obtain ⟨root, parseEq, parsed, scope, member, isFunction⟩ := Node.exists_isParsed checked
  obtain ⟨codebase, inference, analysed, _, inferEq, _, scopes, _⟩ := synthetic_of_parsed parsed
  obtain ⟨env, envEq, names⟩ := scopes scope member (by simp [Node.isShadowing, isFunction])
  refine ⟨root, parseEq, parsed, codebase, inference, scope, member, env, analysed, inferEq,
    isFunction, envEq, ?_, ?_⟩
  · exact (names _ (by simp [Synthetic.names])).2 ⟨isFunction, .inr rfl⟩
  · rw [names _ (by simp [Synthetic.names])]
    exact mt And.right (by decide)

/-- A property that is called by the synthetic name of elements is taken for the elements. -/
theorem key_shares_elements :
    ((⟨"", "[p]['@array'].x;p.x"⟩ : SourceFile).parse false).result.toOption.any (fun root =>
      root.codebase.infer.toOption.any fun inference =>
        root.walk.any fun member => root.walk.any fun array =>
          member.node.kind = .memberExpression &&
            member.node.keys = [Text.ofString "@array"] && array.node.kind = .arrayExpression &&
            (inference.typing.class? member.address).isSome &&
            inference.typing.class? member.address =
              inference.typing.class? (inItem array.address 0 0)) = true := by
  decide +kernel

end Namesake
