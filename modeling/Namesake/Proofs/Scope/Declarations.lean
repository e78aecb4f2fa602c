import Namesake.Proofs.Scope.Resolution

/-!
The scopes of a program are collected in one pass that changes environments as it goes.  Here
each scope gets its declarations directly, and the pass comes to exactly these.
-/

namespace Namesake

open Occurrence List

variable {field : Nat} {place : Occurrence}

abbrev Declaration := Name × Address

namespace Env

def declareAll (env : Env) (declarations : List Declaration) : Env :=
  declarations.foldl (fun env declaration => env.declare declaration.1 declaration.2) env

def ofDeclarations (declarations : List Declaration) : Env :=
  declareAll [] declarations

theorem declareAll_append (env : Env) (first second : List Declaration) :
    env.declareAll (first ++ second) = (env.declareAll first).declareAll second :=
  foldl_append

theorem ofDeclarations_append (first second : List Declaration) :
    ofDeclarations (first ++ second) = (ofDeclarations first).declareAll second :=
  declareAll_append [] first second

end Env

namespace Occurrence

def declaration? (place : Occurrence) : Option Declaration :=
  place.name?.map fun name => (name, place.address)

def inField (place : Occurrence) (field : Nat) : List Occurrence :=
  (Node.fieldChildren field (place.node.fields[field]?.getD (.data .null))).map
    fun (step, child) => ⟨step :: place.address, child⟩

def declarationsIn (place : Occurrence) (field : Nat) : List Declaration :=
  (place.inField field).filterMap declaration?

def ownDeclarations (place : Occurrence) : List Declaration :=
  match place.node.kind with
  | .functionDeclaration => place.declarationsIn 1 ++ [(argumentsName, place.address)]
  | .functionExpression =>
    place.declarationsIn 1 ++ [(argumentsName, place.address)] ++ place.declarationsIn 0
  | .catchClause => place.declarationsIn 0
  | _ => []

/-- The declaration that a node makes in the function or program around it. -/
def outerDeclarations (place : Occurrence) : List Declaration :=
  if place.node.kind = .functionDeclaration || place.node.kind = .variableDeclarator then
    place.declarationsIn 0
  else []

/-- The search for declarations in the function or program around a node does not go into inner
functions. -/
def lookForDeclarations (_ : Unit) (place : Occurrence) : Look Unit Declaration where
  found := place.outerDeclarations
  below := if place.node.kind.isFunction || place.node.kind = .program then none else some ()

def hoisted (place : Occurrence) : List Declaration :=
  place.gather lookForDeclarations ()

def declarations (place : Occurrence) : List Declaration :=
  place.ownDeclarations ++
    if place.node.kind = .catchClause then [] else place.children.flatMap hoisted

def scopeEntry? (place : Occurrence) : Option (Address × Env) :=
  if place.node.kind.isScope then some (place.address, .ofDeclarations place.declarations)
  else none

end Occurrence

namespace Scopes

variable {scopes : Scopes} {scope : Address}

def declareAll (scopes : Scopes) (scope : Address) (declarations : List Declaration) : Scopes :=
  declarations.foldl (fun scopes declaration =>
    scopes.declare scope declaration.1 declaration.2) scopes

theorem declareAll_append (scopes : Scopes) (scope : Address)
    (first second : List Declaration) :
    scopes.declareAll scope (first ++ second) =
      (scopes.declareAll scope first).declareAll scope second :=
  foldl_append

theorem append_declareAll (left right : Scopes) (scope : Address)
    (declarations : List Declaration) :
    declareAll (left ++ right) scope declarations =
      left.declareAll scope declarations ++ right.declareAll scope declarations := by
  induction declarations generalizing left right with
  | nil => rfl
  | cons declaration rest ih =>
    simp only [declareAll, foldl_cons, declare, map_append] at ih ⊢
    exact ih _ _

theorem keys_declareAll (scopes : Scopes) (scope : Address) (declarations : List Declaration) :
    (scopes.declareAll scope declarations).map Prod.fst = scopes.map Prod.fst := by
  induction declarations generalizing scopes with
  | nil => rfl
  | cons declaration rest ih =>
    rw [declareAll, foldl_cons]
    refine (ih _).trans ?_
    rw [declare, map_map]
    refine map_congr_left fun entry _ => ?_
    simp only [Function.comp_apply]
    split <;> rfl

theorem declareAll_of_not_mem (absent : scope ∉ scopes.map Prod.fst)
    (declarations : List Declaration) :
    scopes.declareAll scope declarations = scopes := by
  induction declarations with
  | nil => rfl
  | cons declaration rest ih =>
    rw [declareAll, foldl_cons]
    have same : scopes.declare scope declaration.1 declaration.2 = scopes := by
      refine (map_congr_left fun entry member => ?_).trans (map_id scopes)
      have different : entry.1 ≠ scope := fun same =>
        absent (same ▸ mem_map_of_mem member)
      simp [different]
    rw [same]
    exact ih

theorem declareAll_singleton (scope : Address) (env : Env) (declarations : List Declaration) :
    declareAll [(scope, env)] scope declarations = [(scope, env.declareAll declarations)] := by
  induction declarations generalizing env with
  | nil => rfl
  | cons declaration rest ih =>
    rw [declareAll, foldl_cons, declare, map_singleton, if_pos rfl]
    exact ih _

variable {file : String} {category : Category}

theorem declaredName_of_identifier {child : Node} (fits : child.Fits file .identifier)
    (address : Address) :
    ∃ spelling, (Field.node child).declaredName address = .ok (.text spelling) ∧
      Occurrence.declaration? ⟨address, child⟩ = some (.text spelling, address) := by
  obtain ⟨spelling, location, rfl⟩ := fits.identifier (mem_singleton.1 fits.kind_mem)
  exact ⟨spelling, rfl, rfl⟩

theorem parameters_eq {function : Address} {nodes : List Node}
    (fit : ∀ node ∈ nodes, node.Fits file .identifier) (start : Nat) (env : Env) :
    parameters function field start (nodes.map .node) env =
      .ok (env.declareAll ((((nodes.map Field.node).zipIdx start).filterMap fun (item, index) =>
        item.node?.map fun child => ((⟨field, some index⟩ : Step), child)).filterMap
          fun (step, child) => Occurrence.declaration? ⟨step :: function, child⟩)) := by
  induction nodes generalizing start env with
  | nil => rfl
  | cons node nodes ih =>
    simp only [mem_cons, forall_eq_or_imp] at fit
    obtain ⟨spelling, nameEq, declarationEq⟩ :=
      declaredName_of_identifier fit.1 (⟨field, some start⟩ :: function)
    simp only [map_cons, parameters, nameEq]
    refine (ih fit.2 (start + 1) _).trans ?_
    simp only [zipIdx_cons, filterMap_cons, Field.node?, Option.map_some, declarationEq]
    rfl

theorem functionEnv_eq {nodes : List Node} (fit : ∀ node ∈ nodes, node.Fits file .identifier)
    (address : Address) (kind : Kind) (id : Field) (rest : List Field)
    (location : Option Location) :
    functionEnv address (.list (nodes.map .node)) = .ok (.ofDeclarations (Occurrence.declarationsIn
        ⟨address, .mk kind (id :: .list (nodes.map .node) :: rest) location⟩ 1 ++
          [(argumentsName, address)])) := by
  have declared : Occurrence.declarationsIn
        ⟨address, .mk kind (id :: .list (nodes.map .node) :: rest) location⟩ 1 =
      ((((nodes.map Field.node).zipIdx 0).filterMap fun (item, index) =>
        item.node?.map fun child => ((⟨1, some index⟩ : Step), child)).filterMap
          fun (step, child) => Occurrence.declaration? ⟨step :: address, child⟩) := by
    simp only [Occurrence.declarationsIn, Occurrence.inField, Node.fields, List.getElem?_cons_succ,
      List.getElem?_cons_zero, Option.getD_some, Node.fieldChildren, Node.itemChildren,
      filterMap_map]
    rfl
  simp only [functionEnv, Field.elements?, parameters_eq fit 0 [], ← declared]
  rw [Env.ofDeclarations_append]
  rfl

theorem declarationsIn_zero_node (address : Address) (kind : Kind) (child : Node)
    (rest : List Field) (location : Option Location) :
    Occurrence.declarationsIn ⟨address, .mk kind (.node child :: rest) location⟩ 0 =
      (Occurrence.declaration? ⟨⟨0, none⟩ :: address, child⟩).toList := by
  change [(⟨⟨0, none⟩ :: address, child⟩ : Occurrence)].filterMap Occurrence.declaration? = _
  cases declared : Occurrence.declaration? ⟨⟨0, none⟩ :: address, child⟩ <;> simp [declared]

def innerScope (scope : Address) (place : Occurrence) : Address :=
  if place.node.kind.isFunction || place.node.kind = .program then place.address else scope

def startEntry (place : Occurrence) : Scopes :=
  if place.node.kind.isScope then [(place.address, .ofDeclarations place.ownDeclarations)] else []

theorem visit_other {kind : Kind} (notScope : kind.isScope = false)
    (notDeclarator : kind ≠ .variableDeclarator) (scopes : Scopes) (scope address : Address)
    (fields : List Field) : visit scopes scope address kind fields = .ok (scopes, scope) := by
  unfold visit
  split <;> first | rfl | exact absurd rfl notDeclarator | cases notScope

theorem visit_eq (fits : place.node.Fits file category) (scopes : Scopes) (scope : Address) :
    visit scopes scope place.address place.node.kind place.node.fields =
      .ok (scopes.declareAll scope place.outerDeclarations ++ startEntry place,
        innerScope scope place) := by
  obtain ⟨address, node⟩ := place
  dsimp only at fits ⊢
  by_cases isProgram : node.kind = .program
  · obtain ⟨kind, fields, location⟩ := node
    obtain rfl : kind = .program := isProgram
    rfl
  by_cases isDeclaration : node.kind = .functionDeclaration
  · obtain ⟨id, parameters, body, location, rfl, idFits, parametersFit, _⟩ :=
      fits.functionDeclaration isDeclaration
    obtain ⟨spelling, nameEq, declarationEq⟩ :=
      declaredName_of_identifier idFits (⟨0, none⟩ :: address)
    have env := functionEnv_eq parametersFit address .functionDeclaration (.node id) [.node body]
      location
    have outer := declarationsIn_zero_node address .functionDeclaration id
      [.list (parameters.map .node), .node body] location
    rw [declarationEq] at outer
    simp only [Node.kind, Node.fields, visit, nameEq, env, Occurrence.outerDeclarations, outer]
    rfl
  by_cases isExpression : node.kind = .functionExpression
  · obtain ⟨id, parameters, body, location, rfl, idFits, parametersFit, _⟩ :=
      fits.function isExpression rfl
    have env := functionEnv_eq parametersFit address .functionExpression id [.node body] location
    rcases Field.fits_optional.1 idFits with rfl | ⟨child, rfl, childFits⟩
    · have own : Occurrence.ownDeclarations ⟨address, .mk .functionExpression
          [.data .null, .list (parameters.map .node), .node body] location⟩ = _ :=
        append_nil _
      simp only [Node.kind, Node.fields, visit, env, startEntry, own]
      rfl
    · obtain ⟨spelling, nameEq, declarationEq⟩ :=
        declaredName_of_identifier childFits (⟨0, none⟩ :: address)
      have name := declarationsIn_zero_node address .functionExpression child
        [.list (parameters.map .node), .node body] location
      rw [declarationEq] at name
      simp only [Node.kind, Node.fields, visit, env, nameEq, startEntry,
        Occurrence.ownDeclarations, name]
      rw [Env.ofDeclarations_append (_ ++ _)]
      rfl
  by_cases isClause : node.kind = .catchClause
  · obtain ⟨parameter, body, location, rfl, parameterFits, _⟩ := fits.nodes isClause rfl
    obtain ⟨spelling, nameEq, declarationEq⟩ :=
      declaredName_of_identifier parameterFits (⟨0, none⟩ :: address)
    have own := declarationsIn_zero_node address .catchClause parameter [.node body] location
    rw [declarationEq] at own
    simp only [Node.kind, Node.fields, visit, nameEq, startEntry, Occurrence.ownDeclarations, own]
    rfl
  by_cases isDeclarator : node.kind = .variableDeclarator
  · obtain ⟨id, init, location, rfl, idFits, _⟩ := fits.variableDeclarator isDeclarator
    obtain ⟨spelling, nameEq, declarationEq⟩ :=
      declaredName_of_identifier idFits (⟨0, none⟩ :: address)
    have outer := declarationsIn_zero_node address .variableDeclarator id [init] location
    rw [declarationEq] at outer
    simp only [Node.kind, Node.fields, visit, nameEq, Occurrence.outerDeclarations, outer]
    exact congrArg (fun declared => Except.ok (declared, scope)) (append_nil _).symm
  have notScope : node.kind.isScope = false := by
    simp [Kind.isScope, Kind.isFunction, isProgram, isDeclaration, isExpression, isClause]
  rw [visit_other notScope isDeclarator]
  simp [Occurrence.outerDeclarations, startEntry, innerScope, notScope, isDeclaration,
    isDeclarator, isExpression, isProgram, Kind.isFunction, declareAll]

theorem ofNode_eq (scopes : Scopes) (scope : Address) (place : Occurrence) :
    ofNode scopes scope place.address place.node = (do
      let (scopes, inner) ← visit scopes scope place.address place.node.kind place.node.fields
      place.children.foldlM (fun scopes child =>
        ofNode scopes inner child.address child.node) scopes) := by
  obtain ⟨address, kind, fields, location⟩ := place
  have recursion (inner : Address) : Node.Recursion (fun first next scopes => first scopes >>= next)
      pure (fun step child scopes => ofNode scopes inner (step :: address) child)
      (fun index fields scopes => ofFields scopes inner address index fields)
      (fun index field scopes => ofField scopes inner address index field)
      (fun index place items scopes => ofItems scopes inner address index place items) := by
    constructor <;> intros <;> rfl
  refine bind_congr fun (scopes, inner) => ?_
  dsimp only
  rw [Occurrence.children, foldlM_map]
  let visitAll (entries : List (Step × Node)) (scopes : Scopes) : Except Fault Scopes :=
    entries.foldlM (fun scopes entry => ofNode scopes inner (entry.1 :: address) entry.2) scopes
  exact congrFun ((recursion inner).eq_ofSteps visitAll (fun _ _ => funext fun _ => foldlM_append)
    (fun _ _ => funext fun _ => bind_pure _) (.mk kind fields location)) scopes

def below (place : Occurrence) : Scopes :=
  place.walk.filterMap Occurrence.scopeEntry?

def FreshAt (scopes : Scopes) (address : Address) : Prop :=
  ∀ key ∈ scopes.map Prod.fst, ¬ address <:+ key

theorem suffix_of_mem_below {key : Address} (member : key ∈ (below place).map Prod.fst) :
    place.address <:+ key := by
  obtain ⟨entry, entryMember, rfl⟩ := mem_map.1 member
  obtain ⟨inner, innerMember, entryEq⟩ := mem_filterMap.1 entryMember
  unfold Occurrence.scopeEntry? at entryEq
  split at entryEq
  · cases entryEq
    exact suffix_of_mem_walk place inner innerMember
  · cases entryEq

theorem foldlM_ofNode {inner : Address} {places : List Occurrence}
    (apart : places.Pairwise fun left right => left.address ≠ right.address) {length : Nat}
    (sameLength : ∀ place ∈ places, place.address.length = length)
    (outside : ∀ place ∈ places, ¬ place.address <:+ inner)
    (each : ∀ place ∈ places, ∀ scopes : Scopes, scopes.FreshAt place.address →
      ofNode scopes inner place.address place.node =
        .ok (scopes.declareAll inner place.hoisted ++ below place))
    (fresh : ∀ place ∈ places, scopes.FreshAt place.address) :
    places.foldlM (fun scopes place => ofNode scopes inner place.address place.node) scopes =
      .ok (scopes.declareAll inner (places.flatMap Occurrence.hoisted) ++
        places.flatMap below) := by
  induction places generalizing scopes with
  | nil =>
    simp only [foldlM_nil, flatMap_nil, append_nil]
    rfl
  | cons place places ih =>
    rw [pairwise_cons] at apart
    simp only [mem_cons, forall_eq_or_imp] at sameLength outside each fresh
    rw [foldlM_cons, each.1 scopes fresh.1]
    have freshAfter : ∀ other ∈ places,
        FreshAt (scopes.declareAll inner place.hoisted ++ below place) other.address := by
      intro other member key keyMember suffix
      rw [map_append, keys_declareAll, mem_append] at keyMember
      rcases keyMember with keyMember | keyMember
      · exact fresh.2 other member key keyMember suffix
      · have own := suffix_of_mem_below keyMember
        refine apart.1 other member ?_
        refine (suffix_of_suffix_length_le own suffix ?_).eq_of_length ?_
        all_goals rw [sameLength.1, sameLength.2 other member]
    refine (ih apart.2 sameLength.2 outside.2 each.2 freshAfter).trans ?_
    have apartFrom : inner ∉ (below place).map Prod.fst := fun member =>
      outside.1 (suffix_of_mem_below member)
    rw [append_declareAll, declareAll_of_not_mem apartFrom, flatMap_cons,
      declareAll_append, flatMap_cons, append_assoc]

theorem below_eq (place : Occurrence) :
    below place = place.scopeEntry?.toList ++ place.children.flatMap below := by
  rw [below, walk_eq, filterMap_cons, filterMap_flatMap]
  cases place.scopeEntry? <;> rfl

theorem hoisted_eq (place : Occurrence) :
    place.hoisted = place.outerDeclarations ++
      if place.node.kind.isFunction || place.node.kind = .program then []
      else place.children.flatMap Occurrence.hoisted := by
  rw [Occurrence.hoisted, gather_eq]
  by_cases keeps : (place.node.kind.isFunction || place.node.kind = .program) = true
  · simp only [Occurrence.lookForDeclarations, keeps, if_true]
  · simp only [Occurrence.lookForDeclarations, keeps]
    rfl

theorem declareAll_startEntry {place : Occurrence}
    (outside : place.node.kind = .program ∨ ¬ place.address <:+ scope)
    (fresh : scopes.FreshAt place.address) :
    declareAll (scopes.declareAll scope place.outerDeclarations ++ startEntry place)
        (innerScope scope place) (place.children.flatMap Occurrence.hoisted) =
      scopes.declareAll scope place.hoisted ++ place.scopeEntry?.toList := by
  rw [append_declareAll, hoisted_eq]
  by_cases keeps : (place.node.kind.isFunction || place.node.kind = .program) = true
  · have isScope : place.node.kind.isScope = true := by
      rw [Kind.isScope, Bool.or_comm (decide _), keeps]
      rfl
    have notClause : place.node.kind ≠ .catchClause := by
      intro isClause
      rw [isClause] at keeps
      cases keeps
    have absent : place.address ∉
        (scopes.declareAll scope place.outerDeclarations).map Prod.fst := by
      rw [keys_declareAll]
      exact fun member => fresh place.address member (suffix_refl _)
    simp only [innerScope, startEntry, Occurrence.scopeEntry?, Occurrence.declarations, keeps,
      isScope, notClause, if_true, if_false, append_nil]
    rw [declareAll_of_not_mem absent, declareAll_singleton, Env.ofDeclarations_append]
    rfl
  · have different : scope ≠ place.address := by
      rintro rfl
      rcases outside with isProgram | apart
      · simp [isProgram] at keeps
      · exact apart (suffix_refl _)
    have entryEq : startEntry place = place.scopeEntry?.toList := by
      unfold startEntry Occurrence.scopeEntry?
      split
      · rename_i isScope
        have isClause : place.node.kind = .catchClause := by
          simp only [Kind.isScope, Bool.or_eq_true, decide_eq_true_eq] at isScope keeps
          tauto
        simp [Occurrence.declarations, isClause]
      · rfl
    have absent : scope ∉ (startEntry place).map Prod.fst := by
      unfold startEntry
      split
      · simpa using different
      · simp
    simp only [innerScope, keeps, Bool.false_eq_true, if_false]
    rw [declareAll_of_not_mem absent, entryEq, declareAll_append]

theorem ofNode_eq_ok (place : Occurrence) (fits : place.node.Fits file category)
    (outside : place.node.kind = .program ∨ ¬ place.address <:+ scope)
    (fresh : scopes.FreshAt place.address) :
    ofNode scopes scope place.address place.node =
      .ok (scopes.declareAll scope place.hoisted ++ below place) := by
  induction place using Occurrence.induct generalizing category scope scopes with
  | step place ih =>
    have shorter {child : Occurrence} (member : child ∈ place.children) :
        child.address.length = place.address.length + 1 := by
      obtain ⟨_, addressEq, _⟩ := mem_children.1 member
      rw [addressEq, length_cons]
    have notAbove {child : Occurrence} (member : child ∈ place.children) :
        ¬ child.address <:+ place.address := by
      intro suffix
      have atMost := suffix.length_le
      rw [shorter member] at atMost
      exact absurd atMost (Nat.not_succ_le_self _)
    have childOutside {child : Occurrence} (member : child ∈ place.children) :
        ¬ child.address <:+ innerScope scope place := by
      unfold innerScope
      split
      · exact notAbove member
      · rename_i notFunction
        rcases outside with isProgram | apart
        · simp [isProgram] at notFunction
        · obtain ⟨_, addressEq, _⟩ := mem_children.1 member
          rw [addressEq]
          exact fun suffix => apart ((suffix_cons _ _).trans suffix)
    have childFresh : ∀ child ∈ place.children,
        FreshAt (scopes.declareAll scope place.outerDeclarations ++ startEntry place)
          child.address := by
      intro child member key keyMember suffix
      rw [map_append, keys_declareAll, mem_append] at keyMember
      rcases keyMember with keyMember | keyMember
      · obtain ⟨_, addressEq, _⟩ := mem_children.1 member
        rw [addressEq] at suffix
        exact fresh key keyMember ((suffix_cons _ _).trans suffix)
      · unfold startEntry at keyMember
        split at keyMember
        · obtain rfl : key = place.address := mem_singleton.1 keyMember
          exact notAbove member suffix
        · cases keyMember
    rw [ofNode_eq, visit_eq fits]
    refine (foldlM_ofNode place.pairwise_children (fun child member => shorter member)
      (fun child member => childOutside member) (fun child member other otherFresh => ?_)
      childFresh).trans ?_
    · obtain ⟨_, _, found⟩ := mem_children.1 member
      obtain ⟨inner, _, childFits⟩ := fits.child found
      exact ih child member childFits (.inr (childOutside member)) otherFresh
    · rw [below_eq, ← append_assoc]
      refine congrArg (fun kept => Except.ok (kept ++ _)) ?_
      exact declareAll_startEntry outside fresh

theorem ofProgram_eq {program : Occurrence} (fits : program.node.Fits file .program) :
    ofProgram program = .ok (below program) := by
  have isProgram : program.node.kind = .program := mem_singleton.1 fits.kind_mem
  have fresh : FreshAt [] program.address := by
    intro key member
    cases member
  have nothing : program.hoisted = [] := by
    rw [hoisted_eq]
    simp [Occurrence.outerDeclarations, isProgram]
  rw [ofProgram, ofNode_eq_ok program fits (.inl isProgram) fresh, nothing]
  rfl

theorem ofPrograms_append {first second : List Occurrence} {left right : Scopes}
    (firstEq : ofPrograms first = .ok left) (secondEq : ofPrograms second = .ok right) :
    ofPrograms (first ++ second) = .ok (left ++ right) := by
  induction first generalizing left with
  | nil =>
    cases firstEq
    exact secondEq
  | cons program rest ih =>
    rw [ofPrograms] at firstEq
    cases programEq : ofProgram program with
    | error fault =>
      rw [programEq] at firstEq
      cases firstEq
    | ok own =>
      cases restEq : ofPrograms rest with
      | error fault =>
        rw [programEq, restEq] at firstEq
        cases firstEq
      | ok others =>
        rw [programEq, restEq] at firstEq
        cases firstEq
        rw [cons_append, ofPrograms, programEq, ih restEq, append_assoc]
        rfl

theorem ofPrograms_eq {node : Node} (shaped : node.Shaped) (address : Address) :
    ofPrograms (node.programsFrom address) = .ok (below ⟨address, node⟩) := by
  induction shaped generalizing address with
  | @program file node fits =>
    have isProgram : node.kind = .program := mem_singleton.1 fits.kind_mem
    obtain ⟨kind, fields, location⟩ := node
    obtain rfl : kind = .program := isProgram
    have program : ofProgram ⟨address, .mk .program fields location⟩ = _ := ofProgram_eq fits
    rw [Node.programsFrom, ofPrograms, program]
    exact congrArg Except.ok (append_nil _)
  | @collection trees _ ih =>
    have each (start : Nat) (trees : List Node) (ih : ∀ tree ∈ trees, ∀ address,
        ofPrograms (tree.programsFrom address) = .ok (below ⟨address, tree⟩)) :
        ofPrograms (Node.programItems address start (trees.map .node)) =
          .ok ((((trees.map Field.node).zipIdx start).filterMap fun (item, index) =>
            item.node?.map fun child => ((⟨0, some index⟩ : Step), child)).flatMap
              fun entry => below ⟨entry.1 :: address, entry.2⟩) := by
      induction trees generalizing start with
      | nil => rfl
      | cons tree trees listIh =>
        simp only [mem_cons, forall_eq_or_imp] at ih
        exact ofPrograms_append (ih.1 _) (listIh (start + 1) ih.2)
    refine (each 0 trees ih).trans (congrArg Except.ok ?_)
    rw [below_eq, Occurrence.children, Node.steps_collection, flatMap_map]
    rfl

end Scopes

def Node.scopes (root : Node) : Scopes :=
  root.walk.filterMap Occurrence.scopeEntry?

def Node.codebase (root : Node) : Codebase :=
  ⟨root, root.scopes⟩

theorem Codebase.ofRoot_eq {root : Node} (shaped : root.Shaped) :
    Codebase.ofRoot root = .ok root.codebase := by
  rw [ofRoot, Node.programs, Scopes.ofPrograms_eq shaped []]
  rfl

theorem Codebase.eq_of_ofRoot {root : Node} (shaped : root.Shaped) {codebase : Codebase}
    (analysed : Codebase.ofRoot root = .ok codebase) : root.codebase = codebase :=
  Except.ok.inj ((ofRoot_eq shaped).symm.trans analysed)

namespace Env

theorem find?_declareAll (env : Env) (declarations : List Declaration) (spelling : Text) :
    (env.declareAll declarations).find? (.text spelling) = (env.find? (.text spelling)).or
        ((List.find? (fun entry => entry.1.same (.text spelling)) declarations).map Prod.snd) := by
  induction declarations generalizing env with
  | nil => simp [declareAll]
  | cons declaration rest ih =>
    rw [declareAll, foldl_cons]
    refine (ih _).trans ?_
    unfold declare
    split
    · rename_i declared
      by_cases same : declaration.1.same (.text spelling) = true
      · rw [Name.same_text] at same
        rw [same] at declared
        obtain ⟨address, found⟩ := Option.isSome_iff_exists.1 declared
        rw [found]
        rfl
      · rw [List.find?_cons_of_neg (by simpa using same)]
    · by_cases same : declaration.1.same (.text spelling) = true
      · rw [List.find?_cons_of_pos (by simpa using same)]
        simp [find?, List.find?_append, same]
      · rw [List.find?_cons_of_neg (by simpa using same)]
        simp [find?, List.find?_append, same]

theorem mem_declareAll {env : Env} {declarations : List Declaration} {entry : Declaration}
    (member : entry ∈ env.declareAll declarations) : entry ∈ env ∨ entry ∈ declarations := by
  induction declarations generalizing env with
  | nil => exact .inl member
  | cons declaration rest ih =>
    rcases ih member with old | later
    · replace old : entry ∈ env.declare declaration.1 declaration.2 := old
      unfold declare at old
      split at old
      · exact .inl old
      · rcases mem_append.1 old with old | added
        · exact .inl old
        · exact .inr (mem_singleton.1 added ▸ mem_cons_self)
    · exact .inr (mem_cons_of_mem _ later)

theorem find?_ofDeclarations (declarations : List Declaration) (spelling : Text) :
    (ofDeclarations declarations).find? (.text spelling) =
      (List.find? (fun entry => entry.1.same (.text spelling)) declarations).map Prod.snd :=
  (find?_declareAll [] declarations spelling).trans (by simp [find?])

theorem declares_ofDeclarations {declarations : List Declaration} {spelling : Text} :
    (ofDeclarations declarations).declares (.text spelling) = true ↔
      ∃ address, (.text spelling, address) ∈ declarations := by
  rw [declares, find?_ofDeclarations]
  simp

end Env

namespace Codebase

variable {root : Node} {scope : Occurrence}

theorem env?_codebase (inside : scope.IsIn root) (isScope : scope.node.kind.isScope = true) :
    root.codebase.scopes.env? scope.address = some (.ofDeclarations scope.declarations) := by
  have entry : scope.scopeEntry? = some (scope.address, .ofDeclarations scope.declarations) := by
    simp [Occurrence.scopeEntry?, isScope]
  obtain ⟨before, after, walkEq⟩ := append_of_mem (Node.mem_walk.2 inside)
  have apart := root.nodup_walk
  rw [walkEq, map_append, map_cons, nodup_append] at apart
  change (root.walk.filterMap Occurrence.scopeEntry?).lookup scope.address = _
  rw [walkEq, filterMap_append, filterMap_cons_some entry, lookup_append]
  have notBefore : (before.filterMap Occurrence.scopeEntry?).lookup scope.address = none := by
    refine lookup_eq_none_iff.2 fun other member => ?_
    obtain ⟨place, placeMember, placeEntry⟩ := mem_filterMap.1 member
    unfold Occurrence.scopeEntry? at placeEntry
    split at placeEntry
    · cases placeEntry
      have different := apart.2.2 place.address (mem_map_of_mem placeMember) scope.address
        mem_cons_self
      simpa using different.symm
    · cases placeEntry
  rw [notBefore, lookup_cons_self]
  rfl

theorem declares_iff (inside : scope.IsIn root) {spelling : Text} :
    root.codebase.Declares scope (.text spelling) ↔
      scope.node.kind.isScope = true ∧ ∃ address, (.text spelling, address) ∈ scope.declarations := by
  unfold Declares
  refine and_congr_right fun isScope => ?_
  rw [Scopes.declares, env?_codebase inside isScope]
  exact Env.declares_ofDeclarations

end Codebase

theorem Node.filter_steps (fields : List Field) (field start : Nat) :
    ((fields.zipIdx start).flatMap fun (content, index) => fieldChildren index content).filter
        (fun entry => decide (entry.1.field = field)) =
      if start ≤ field then fieldChildren field (fields[field - start]?.getD (.data .null))
      else [] := by
  induction fields generalizing start with
  | nil => simp [fieldChildren]
  | cons content rest ih =>
    have own : (fieldChildren start content).filter (fun entry => decide (entry.1.field = field)) =
        if start = field then fieldChildren start content else [] := by
      split
      · rename_i same
        exact filter_eq_self.2 fun entry member => by
          simp [field_of_mem_fieldChildren member, same]
      · rename_i different
        exact filter_eq_nil_iff.2 fun entry member => by
          simp [field_of_mem_fieldChildren member, different]
    rw [zipIdx_cons, flatMap_cons, filter_append, own, ih]
    rcases Nat.lt_trichotomy start field with less | rfl | more
    · rw [if_neg less.ne, if_pos (Nat.succ_le_of_lt less), if_pos less.le, nil_append,
        show field - start = field - (start + 1) + 1 by omega, List.getElem?_cons_succ]
    · simp
    · rw [if_neg more.ne', if_neg (by omega), if_neg (by omega)]
      rfl

namespace Occurrence

variable {declaration : Declaration}

theorem inField_eq_filter (place : Occurrence) (field : Nat) :
    place.inField field =
      place.children.filter fun child => child.address.head?.map Step.field = some field := by
  have own := Node.filter_steps place.node.fields field 0
  rw [if_pos (Nat.zero_le _), Nat.sub_zero] at own
  rw [inField, children, filter_map, ← own]
  exact congrArg (List.map _) (filter_congr fun entry _ => by simp)

theorem mem_inField_iff {child : Occurrence} :
    child ∈ place.inField field ↔ ∃ step : Step, step.field = field ∧
      child.address = step :: place.address ∧ place.node.child? step = some child.node := by
  rw [inField_eq_filter, mem_filter, mem_children, decide_eq_true_eq]
  constructor
  · rintro ⟨⟨step, addressEq, found⟩, own⟩
    rw [addressEq] at own
    exact ⟨step, Option.some.inj own, addressEq, found⟩
  · rintro ⟨step, rfl, addressEq, found⟩
    exact ⟨⟨step, addressEq, found⟩, by rw [addressEq]; rfl⟩

theorem mem_children_of_mem_inField {child : Occurrence} (member : child ∈ place.inField field) :
    child ∈ place.children := by
  rw [inField_eq_filter] at member
  exact mem_of_mem_filter member

variable {root : Node}

theorem of_mem_declarationsIn (inside : place.IsIn root)
    (member : declaration ∈ place.declarationsIn field) :
    ∃ token : Occurrence, token.IsIn root ∧ token.declaration? = some declaration := by
  obtain ⟨token, tokenMember, declared⟩ := mem_filterMap.1 member
  exact ⟨token, inside.child (mem_children_of_mem_inField tokenMember), declared⟩

theorem of_mem_hoisted (place : Occurrence) (inside : place.IsIn root)
    (member : declaration ∈ place.hoisted) :
    ∃ token : Occurrence, token.IsIn root ∧ token.declaration? = some declaration := by
  induction place using Occurrence.induct with
  | step place ih =>
    rw [Scopes.hoisted_eq, mem_append] at member
    rcases member with own | below
    · unfold outerDeclarations at own
      split at own
      · exact of_mem_declarationsIn inside own
      · cases own
    · split at below
      · cases below
      · obtain ⟨child, childMember, below⟩ := mem_flatMap.1 below
        exact ih child childMember (inside.child childMember) below

theorem of_mem_declarations (inside : place.IsIn root) (member : declaration ∈ place.declarations) :
    place.node.kind.isFunction = true ∧ declaration = (argumentsName, place.address) ∨
      ∃ token : Occurrence, token.IsIn root ∧ token.declaration? = some declaration := by
  rcases mem_append.1 member with own | below
  · unfold ownDeclarations at own
    split at own
    · rename_i kindEq
      rcases mem_append.1 own with own | own
      · exact .inr (of_mem_declarationsIn inside own)
      · exact .inl ⟨by rw [kindEq]; rfl, mem_singleton.1 own⟩
    · rename_i kindEq
      rcases mem_append.1 own with own | own
      · rcases mem_append.1 own with own | own
        · exact .inr (of_mem_declarationsIn inside own)
        · exact .inl ⟨by rw [kindEq]; rfl, mem_singleton.1 own⟩
      · exact .inr (of_mem_declarationsIn inside own)
    · exact .inr (of_mem_declarationsIn inside own)
    · cases own
  · split at below
    · cases below
    · obtain ⟨child, childMember, below⟩ := mem_flatMap.1 below
      exact .inr (of_mem_hoisted child (inside.child childMember) below)

theorem declaration?_eq_some {token : Occurrence} :
    token.declaration? = some declaration ↔
      token.name? = some declaration.1 ∧ token.address = declaration.2 := by
  obtain ⟨name, address⟩ := declaration
  simp [declaration?, Option.map_eq_some_iff, Prod.ext_iff]

end Occurrence

end Namesake
