import Namesake.Proofs.Syntax.Growth
import Namesake.Proofs.Syntax.Pattern

/-!
`Phrase.make` turns the parts that a form accepts into what the form promises, or reports that
the phrase is not allowed.
-/

namespace Namesake

open Part List Pattern Mold

def SyntaxError.isMisshapen : SyntaxError → Bool
  | misshapen _ => true
  | _ => false

def Form.termKinds : Form → List Terminal
  | identifier => [.identifier, .getWord, .setWord]
  | nullLiteral => [.nullWord]
  | trueLiteral => [.trueWord]
  | falseLiteral => [.falseWord]
  | numberLiteral => [.number]
  | stringLiteral => [.string]
  | regexLiteral => [.regex]
  | _ => []

namespace Part

def nodesIn (file : String) : Part → List Node
  | .token found => if found.kind = .identifier then [Phrase.name file found] else []
  | .node found => [found]
  | .nodes found => found
  | .hole => []

@[simp] theorem nodesIn_node (file : String) (found : Node) :
    (Part.node found).nodesIn file = [found] :=
  rfl

@[simp] theorem nodesIn_nodes (file : String) (found : List Node) :
    (Part.nodes found).nodesIn file = found :=
  rfl

@[simp] theorem nodesIn_hole (file : String) : Part.hole.nodesIn file = [] :=
  rfl

theorem nodesIn_of_allNodes? {file : String} {parts : List Part} {nodes : List Node}
    (found : allNodes? parts = some nodes) : parts.flatMap (nodesIn file) = nodes := by
  fun_induction allNodes? parts generalizing nodes with
  | case1 =>
    cases found
    rfl
  | case2 first rest ih =>
    obtain ⟨others, othersEq, rfl⟩ := Option.map_eq_some_iff.1 found
    exact congrArg (first :: ·) (ih othersEq)
  | case3 => cases found

end Part

namespace Phrase

variable {file : String} {parts result : List Part} {extent : Option Extent} {form : Form}
variable {leaves : List Leaf} {category : Category}
variable {fields : List Field} {after : List Node} {first : Node}

@[simp] theorem nodes_listOf (nodes : List Node) : (listOf nodes).nodes = nodes := by
  rw [listOf, Field.nodes, filterMap_map]
  exact filterMap_some

@[simp] theorem nodes_spelling (token : Token) : (spelling token).nodes = [] :=
  rfl

theorem nodes_of_field? {part : Part} {field : Field} (found : part.field? = some field) :
    field.nodes = part.nodesIn file := by
  cases part <;> cases found <;> rfl

theorem nodes_of_allFields? (found : allFields? parts = some fields) :
    fields.filterMap Field.node? = parts.flatMap (Part.nodesIn file) := by
  induction parts generalizing fields with
  | nil =>
    cases found
    rfl
  | cons part rest ih =>
    obtain ⟨first, firstFound, others⟩ := Option.bind_eq_some_iff.1 found
    obtain ⟨tail, tailFound, fieldsEq⟩ := Option.bind_eq_some_iff.1 others
    cases fieldsEq
    rw [flatMap_cons, ← ih tailFound]
    cases part <;> cases firstFound <;> rfl

theorem nodes_elements (fields : List Field) :
    (if (fields.getLast?.map Field.isNull) = some true then fields.dropLast
      else fields).filterMap Field.node? = fields.filterMap Field.node? := by
  split
  · rename_i isHole
    obtain ⟨last, lastEq, isNull⟩ := Option.map_eq_some_iff.1 isHole
    have noNode : last.node? = none := by
      cases last with
      | node child => cases isNull
      | data value => rfl
      | list items => rfl
    conv_rhs => rw [← dropLast_append_getLast? last lastEq]
    simp [noNode]
  · rfl

@[simp] theorem map_nodes_flatMap (nodes : List Node) :
    (nodes.map Part.node).flatMap (Part.nodesIn file) = nodes := by
  rw [flatMap_map]
  exact flatMap_singleton' nodes

theorem located_locate (file : String) (extent : Option Extent) :
    Located file (some (locate file extent)) := by
  cases extent with
  | none => exact ⟨_, _, rfl⟩
  | some extent => exact ⟨_, _, rfl⟩

theorem fits_name (file : String) (token : Token) : (name file token).Fits file .identifier :=
  ⟨by decide, located_locate file (some token.extent), _, .head _, ⟨_, rfl⟩, rfl⟩

theorem fits_listOf {nodes : List Node} (fit : ∀ node ∈ nodes, node.Fits file category) :
    (listOf nodes).Fits file (.many category) :=
  Field.fits_many.2 ⟨nodes, rfl, fit⟩

theorem fits_target {left : Node} (fits : left.Fits file .expression)
    (target : isTarget left = true) : left.Fits file .target := by
  refine fits.mono ?_
  unfold isTarget at target
  simpa [Category.kinds] using target

theorem spelling_of_wellSpelled {token : Token} {kind : Terminal} {word : String}
    (spelled : token.WellSpelled) (kindEq : token.kind = kind) (only : kind.spellings = [word]) :
    spelling token = .data (.ofString word) := by
  rcases spelled.word with none | ⟨found, member, textEq⟩
  · rw [kindEq, only] at none
    cases none
  · rw [kindEq, only, mem_singleton] at member
    rw [spelling, ← textEq, member]
    rfl

theorem fits_elements (fit : ∀ field ∈ fields, field.Fits file (.optional .expression)) :
    Field.Fits file (.sparse .expression) (.list
      (if (fields.getLast?.map Field.isNull) = some true then fields.dropLast else fields)) := by
  refine Field.fits_sparse.2 ⟨_, rfl, fun item member => Field.fits_optional.1 (fit item ?_)⟩
  split at member
  · exact dropLast_subset fields member
  · exact member

theorem fits_init {init : Part}
    (fits : init.FitsSome file [hole, node .expression, node .variables]) :
    (∃ field, init.field? = some field ∧ field.Fits file (.optional .expression)) ∨
      ∃ declaration : Node, init = .node declaration ∧ declaration.Fits file .variables := by
  obtain ⟨mold, member, fits⟩ := fits
  simp only [mem_cons, not_mem_nil, or_false] at member
  rcases member with rfl | rfl | rfl
  · exact .inl (FitsSome.field? (fitsSome_pair.2 (.inl fits)))
  · exact .inl (FitsSome.field? (fitsSome_pair.2 (.inr fits)))
  · exact .inr (fits_node.1 fits)

theorem fits_operands {operator left right : Field} {location : Option Location}
    (fits : (Node.mk .binaryExpression [operator, left, right] location).Fits file category) :
    left.Fits file (.one .expression) ∧ right.Fits file (.one .expression) := by
  have fit := fits.allFit_of rfl
  exact ⟨fit.2.1, fit.2.2.1⟩

theorem fits_inChain {chain : Node} {others : List Node} (fits : chain.Fits file .expression)
    (othersFit : ∀ other ∈ others, other.Fits file .expression) :
    (inChain chain others).1.Fits file .expression ∧
      ∀ other ∈ (inChain chain others).2, other.Fits file .expression := by
  fun_induction inChain chain others with
  | case1 others left right location ih =>
    have operands := fits_operands fits
    refine ih operands.1 fun other member => ?_
    rcases mem_cons.1 member with rfl | member
    · exact operands.2
    · exact othersFit other member
  | case2 => exact ⟨fits, othersFit⟩
  | case3 => exact ⟨fits, othersFit⟩

theorem grown_inChain {chain : Node} {others : List Node}
    (grown : Grown file leaves (chain :: (others ++ after))) :
    Grown file leaves ((inChain chain others).1 :: ((inChain chain others).2 ++ after)) := by
  fun_induction inChain chain others with
  | case1 others left right location ih =>
    apply ih
    have opened := grown.regroup (.opened [] rfl)
    simpa using opened
  | case2 => exact grown
  | case3 => exact grown

theorem fits_joinIn {left right : Node} (leftFits : left.Fits file .expression)
    (rightFits : right.Fits file .expression) :
    (joinIn file left right).Fits file .expression := by
  obtain ⟨leftFirst, leftLast, leftAt⟩ := leftFits.located
  obtain ⟨rightFirst, rightLast, rightAt⟩ := rightFits.located
  refine ⟨by decide, ⟨leftFirst, rightLast, ?_⟩, _, .head _, ⟨_, rfl⟩, leftFits, rightFits, rfl⟩
  rw [leftAt, rightAt]
  rfl

theorem grown_joinIn {target second : Node} (firstFits : first.Fits file .expression)
    (secondFits : second.Fits file .expression)
    (grown : Grown file leaves (target :: first :: second :: after)) :
    Grown file leaves (target :: joinIn file first second :: after) := by
  obtain ⟨firstStart, firstStop, firstAt⟩ := firstFits.located
  obtain ⟨secondStart, secondStop, secondAt⟩ := secondFits.located
  refine grown.regroup (.gathered [target] [second] rfl rfl nofun (by simp [joinIn]) rfl firstAt
    secondAt ?_)
  rw [joinIn, Node.location, firstAt, secondAt]
  rfl

theorem fits_foldl_joinIn {rest : List Node} (fits : first.Fits file .expression)
    (restFit : ∀ other ∈ rest, other.Fits file .expression) :
    (rest.foldl (joinIn file) first).Fits file .expression := by
  induction rest generalizing first with
  | nil => exact fits
  | cons other rest ih =>
    simp only [mem_cons, forall_eq_or_imp] at restFit
    exact ih (fits_joinIn fits restFit.1) restFit.2

theorem grown_foldl_joinIn {target : Node} {rest : List Node} (fits : first.Fits file .expression)
    (restFit : ∀ other ∈ rest, other.Fits file .expression)
    (grown : Grown file leaves (target :: first :: (rest ++ after))) :
    Grown file leaves (target :: rest.foldl (joinIn file) first :: after) := by
  induction rest generalizing first with
  | nil => exact grown
  | cons other rest ih =>
    rw [forall_mem_cons] at restFit
    exact ih (fits_joinIn fits restFit.1) restFit.2 (grown_joinIn fits restFit.1 grown)

theorem forIn_cases (file : String) (location : Location) (head body : Node) :
    (∃ error, forIn file location head body = .error error ∧ error.isMisshapen = false) ∨
      ∃ place left right target first rest,
        head = .mk .binaryExpression [.data (.ofString "in"), .node left, .node right] place ∧
        inChain left [right] = (target, first :: rest) ∧ isTarget target = true ∧
        forIn file location head body = .ok (.mk .forInStatement
          [.node target, .node (rest.foldl (joinIn file) first), .node body] location) := by
  unfold forIn
  split
  · exact .inl ⟨_, rfl, rfl⟩
  · rename_i left right operands
    generalize chained : inChain left [right] = chain
    obtain ⟨target, others⟩ := chain
    dsimp only
    split
    · exact .inl ⟨_, rfl, rfl⟩
    · rename_i isTarget
      split
      · exact .inl ⟨_, rfl, rfl⟩
      · rename_i first rest
        unfold inOperands? at operands
        split at operands
        · split at operands
          · rename_i isIn
            cases operands
            exact .inr ⟨_, left, right, target, first, rest, by rw [isIn]; rfl, chained,
              by simpa using isTarget, rfl⟩
          · cases operands
        · cases operands

/-- Whether what grows into the parts of a phrase grows into what the phrase comes to. -/
def Keeps (file : String) (form : Form) (extent : Option Extent) (parts result : List Part) : Prop :=
  form.termKinds = [] → ∀ (leaves : List Leaf) (place : Extent), extent = some place →
    (form = .emptyStatement → ∃ token : Token, token.kind = .semicolon ∧
      leaves = [⟨.emptyStatement, token⟩]) →
    Token.span (leaves.map Leaf.token) = some place →
    Grown file leaves (parts.flatMap (Part.nodesIn file)) →
      Grown file leaves (result.flatMap (Part.nodesIn file))

/-- Whether something is what a form promises to make of some parts, or a phrase that is not
allowed. -/
def Gives (file : String) (form : Form) (extent : Option Extent) (parts : List Part) :
    Except SyntaxError (List Part) → Prop
  | .ok result => form.made.Matches file result ∧ Keeps file form extent parts result
  | .error error => error.isMisshapen = false

/-- Most forms put a node around their parts. -/
theorem gives_node {kind : Kind} {slots : List Slot} (member : slots ∈ kind.signatures)
    (fit : Field.AllFit file slots fields)
    (grows : ∀ leaves, Grown file leaves (parts.flatMap (Part.nodesIn file)) →
      Grown file leaves (fields.flatMap Field.nodes) := by simp)
    (madeEq : form.made = single [node category] := by rfl)
    (allowed : kind ∈ category.kinds := by decide) (composite : kind.isTerm = false := by rfl)
    (only : kind = .emptyStatement → form = .emptyStatement := by simp) :
    Gives file form extent parts (.ok [.node (.mk kind fields (locate file extent))]) := by
  refine ⟨madeEq ▸ matches_node ⟨allowed, located_locate file extent, slots, member, fit⟩, ?_⟩
  rintro _ leaves place rfl bare spanned grown
  exact .enclose composite (fun isEmpty => bare (only isEmpty)) spanned (grows leaves grown)

theorem gives_term {kind : Kind} {slots : List Slot} (isTerm : form.termKinds ≠ [])
    (madeEq : form.made = single [node category]) (allowed : kind ∈ category.kinds)
    (member : slots ∈ kind.signatures) (fit : Field.AllFit file slots fields) :
    Gives file form extent parts (.ok [.node (.mk kind fields (locate file extent))]) :=
  ⟨madeEq ▸ matches_node ⟨allowed, located_locate file extent, slots, member, fit⟩,
    fun plain => absurd plain isTerm⟩

theorem gives_same (matched : form.made.Matches file result)
    (same : result.flatMap (Part.nodesIn file) = parts.flatMap (Part.nodesIn file)) :
    Gives file form extent parts (.ok result) := by
  refine ⟨matched, fun _ leaves place _ _ _ grown => ?_⟩
  rw [same]
  exact grown

theorem gives_allNodes {nodes : List Node} {use : List Node → Except SyntaxError (List Part)}
    {fault : Except SyntaxError (List Part)} (gives : Gives file form extent parts (use nodes)) :
    Gives file form extent parts (match Part.allNodes? (nodes.map .node) with
      | some nodes => use nodes
      | none => fault) := by
  rw [Part.allNodes?_map]
  exact gives

theorem gives_accessor {kind : String} {key body : Node} {parameters : List Node}
    (madeEq : form.made = single [node .property]) (isKind : kind = "get" ∨ kind = "set")
    (keyFits : key.Fits file .key) (parametersFit : ∀ node ∈ parameters, node.Fits file .identifier)
    (bodyFits : body.Fits file .block)
    (same : parts.flatMap (Part.nodesIn file) = key :: (parameters ++ [body])) :
    Gives file form extent parts
      (.ok [.node (accessor file (locate file extent) kind key parameters body)]) := by
  obtain ⟨keyFirst, keyLast, keyAt⟩ := keyFits.located
  obtain ⟨bodyFirst, bodyLast, bodyAt⟩ := bodyFits.located
  let function : Node := .mk .functionExpression [.data .null, listOf parameters, .node body] (do
    return ⟨file, (← key.location).last, (← body.location).last⟩)
  have located : function.location = some (.between file keyLast bodyLast) := by
    simp only [function]
    rw [Node.location, keyAt, bodyAt]
    rfl
  have functionFits : function.Fits file .function :=
    ⟨by decide, ⟨keyLast, bodyLast, located⟩, _, .head _, rfl, fits_listOf parametersFit, bodyFits,
      rfl⟩
  have grows (leaves : List Leaf) (grown : Grown file leaves (parts.flatMap (Part.nodesIn file))) :
      Grown file leaves [key, function] := by
    rw [same] at grown
    exact grown.regroup (.followed rfl rfl (by simp [function]) List.getLast?_concat keyAt bodyAt
      located)
  rcases isKind with rfl | rfl
  · exact gives_node (.tail _ (.head _)) ⟨keyFits, functionFits, rfl, rfl⟩ grows madeEq
  · exact gives_node (.tail _ (.tail _ (.head _))) ⟨keyFits, functionFits, rfl, rfl⟩ grows madeEq

theorem gives_forIn {head body : Node} (headFits : head.Fits file .expression)
    (bodyFits : body.Fits file .statement) :
    Gives file .forInStatement extent [.node head, .node body]
      ((forIn file (locate file extent) head body).map fun loop => [.node loop]) := by
  obtain ⟨error, failed, allowed⟩ | ⟨place, left, right, target, first, rest, rfl, chained, isTarget,
    made⟩ := forIn_cases file (locate file extent) head body
  · rw [failed]
    exact allowed
  · rw [made]
    have operandsFit := fits_operands headFits
    have chainFits := fits_inChain operandsFit.1 (forall_mem_singleton.2 operandsFit.2)
    rw [chained] at chainFits
    obtain ⟨targetFits, othersFit⟩ := chainFits
    obtain ⟨firstFits, restFit⟩ := forall_mem_cons.1 othersFit
    refine gives_node (.tail _ (.head _)) ⟨fits_target targetFits isTarget, fits_foldl_joinIn
      firstFits restFit, bodyFits, rfl⟩ fun leaves grown => ?_
    have opened : Grown file leaves (left :: ([right] ++ [body])) := by
      simpa using grown.regroup (.opened [] rfl)
    have chainGrown := grown_inChain opened
    rw [chained] at chainGrown
    exact grown_foldl_joinIn firstFits restFit chainGrown

theorem make_gives (accepted : ∃ pattern ∈ form.accepted, pattern.Matches file parts) :
    Gives file form extent parts (make file form extent parts) := by
  cases form <;>
    simp only [Form.accepted, mem_cons, not_mem_nil, or_false, exists_eq_or_imp,
      exists_eq_left, single, repeated, ofNodes, ofOperator, Pattern.empty, map_cons,
      map_nil, matches_cons_of fun _ => fitsSome_node, matches_cons_of fun _ => fitsSome_nodes,
      matches_cons_of fun _ => fitsSome_names, matches_cons_of fun _ => fitsSome_signs,
      matches_cons_of fun _ => fitsSome_anyToken, matches_rest_of fun _ => fitsSome_node,
      matches_rest_of fun _ => fitsSome_names, matches_nil, true_and, false_and,
      exists_false] at accepted
  case optional =>
    rcases accepted with rfl | ⟨found, _, rfl, fits, rfl⟩
    · exact gives_same (matches_single.2 ⟨_, rfl, fitsSome_pair.2 (.inl trivial)⟩) rfl
    · exact gives_same (matches_single.2 ⟨_, rfl, fitsSome_pair.2 (.inr fits)⟩) rfl
  case program =>
    obtain ⟨body, rfl, bodyFit⟩ := accepted
    refine gives_allNodes ?_
    exact gives_node (.head _) ⟨fits_listOf bodyFit, ⟨_, rfl⟩, rfl⟩
  case block =>
    obtain ⟨body, rfl, bodyFit⟩ := accepted
    refine gives_allNodes ?_
    exact gives_node (.head _) ⟨fits_listOf bodyFit, rfl⟩
  case variableStatement | forVariables =>
    obtain ⟨declarators, _, rfl, declaratorsFit, rfl⟩ := accepted
    exact gives_node (.head _) ⟨fits_listOf declaratorsFit, rfl, rfl⟩
  case declarators | arguments =>
    obtain ⟨nodes, rfl, nodesFit⟩ := accepted
    refine gives_allNodes ?_
    exact gives_same (matches_nodes nodesFit) (by simp)
  case declarator =>
    rcases accepted with ⟨token, _, rfl, ⟨isName, _⟩, rfl⟩ |
      ⟨token, _, rfl, ⟨isName, _⟩, sign, _, rfl, ⟨isSign, _⟩, init, _, rfl, initFits, rfl⟩
    · exact gives_node (.head _) ⟨fits_name file token, rfl, rfl⟩ (by simp [Part.nodesIn, isName])
    · exact gives_node (.head _) ⟨fits_name file token, initFits, rfl⟩ (by simp [Part.nodesIn,
        isName, isSign])
  case emptyStatement =>
    subst accepted
    exact gives_node (.head _) rfl
  case debuggerStatement | this =>
    subst accepted
    exact gives_node (.head _) rfl
  case expressionStatement | throwStatement =>
    obtain ⟨expression, _, rfl, fits, rfl⟩ := accepted
    exact gives_node (.head _) ⟨fits, rfl⟩
  case ifStatement =>
    rcases accepted with ⟨test, _, rfl, testFits, consequent, _, rfl, consequentFits, rfl⟩ |
      ⟨test, _, rfl, testFits, consequent, _, rfl, consequentFits, alternate, _, rfl, alternateFits,
        rfl⟩
    · exact gives_node (.head _) ⟨testFits, consequentFits, rfl, rfl⟩
    · exact gives_node (.head _) ⟨testFits, consequentFits, alternateFits, rfl⟩
  case doWhileStatement | whileStatement | withStatement =>
    obtain ⟨first, _, rfl, firstFits, second, _, rfl, secondFits, rfl⟩ := accepted
    exact gives_node (.head _) ⟨firstFits, secondFits, rfl⟩
  case forStatement =>
    obtain ⟨init, _, rfl, initFits, test, _, rfl, testFits, update, _, rfl, updateFits, rest⟩ :=
      accepted
    obtain ⟨body, _, rfl, bodyFits, nothing⟩ := (matches_cons_of fun _ => fitsSome_node).1 rest
    obtain rfl := matches_nil.1 nothing
    obtain ⟨testField, testEq, testFieldFits⟩ := testFits.field?
    obtain ⟨updateField, updateEq, updateFieldFits⟩ := updateFits.field?
    have testNodes : testField.nodes = test.nodesIn file := nodes_of_field? testEq
    have updateNodes : updateField.nodes = update.nodesIn file := nodes_of_field? updateEq
    unfold make
    dsimp only
    rw [testEq, updateEq]
    -- Declarations and expressions differ in the slots of the statement.
    rcases fits_init initFits with ⟨initField, initEq, initFieldFits⟩ | ⟨declaration, rfl, fits⟩
    · have initNodes : initField.nodes = init.nodesIn file := nodes_of_field? initEq
      rw [initEq]
      exact gives_node (.tail _ (.head _)) ⟨initFieldFits, testFieldFits, updateFieldFits, bodyFits,
        rfl⟩ (by simp [initNodes, testNodes, updateNodes])
    · exact gives_node (.head _) ⟨fits, testFieldFits, updateFieldFits, bodyFits, rfl⟩ (by simp
        [testNodes, updateNodes])
  case forInStatement =>
    obtain ⟨head, _, rfl, headFits, body, _, rfl, bodyFits, rfl⟩ := accepted
    exact gives_forIn headFits bodyFits
  case forInVariable =>
    obtain ⟨token, _, rfl, ⟨isName, _⟩, sign, _, rfl, ⟨isSign, _⟩, right, _, rfl, rightFits, body, _,
      rfl, bodyFits, rfl⟩ := accepted
    have place := located_locate file (some token.extent)
    let declarator : Node :=
      .mk .variableDeclarator [.node (name file token), .data .null] (locate file token.extent)
    have declaratorFits : declarator.Fits file .declarator :=
      ⟨by decide, place, _, .head _, fits_name file token, rfl, rfl⟩
    have declarationFits : (Node.mk .variableDeclaration
        [listOf [declarator], .data (.ofString "var")]
        (some (locate file token.extent))).Fits file .variables :=
      ⟨by decide, place, _, .head _, fits_listOf (by simpa using declaratorFits), rfl, rfl⟩
    refine gives_node (.head _) ⟨declarationFits, rightFits, bodyFits, rfl⟩ fun leaves grown => ?_
    -- The declarator and the declaration stand where the name stands.
    have named : Grown file leaves ([] ++ (name file token :: [] ++ [right, body])) := by
      simpa [Part.nodesIn, isName, isSign] using grown
    have declared : Grown file leaves ([] ++ (declarator :: [] ++ [right, body])) :=
      named.regroup (.gathered [] [] rfl rfl nofun rfl rfl rfl rfl rfl)
    exact declared.regroup (.gathered [] [] rfl rfl (fun _ => rfl) rfl rfl rfl rfl rfl)
  case continueStatement | breakStatement =>
    rcases accepted with rfl | ⟨token, _, rfl, ⟨isName, _⟩, rfl⟩
    · exact gives_node (.head _) ⟨rfl, rfl⟩
    · exact gives_node (.head _) ⟨fits_name file token, rfl⟩ (by simp [Part.nodesIn, isName])
  case returnStatement =>
    rcases accepted with rfl | ⟨argument, _, rfl, fits, rfl⟩
    · exact gives_node (.head _) ⟨rfl, rfl⟩
    · exact gives_node (.head _) ⟨fits, rfl⟩
  case switchStatement | caseClause =>
    obtain ⟨first, _, rfl, firstFits, rest, rfl, restFit⟩ := accepted
    refine gives_allNodes ?_
    exact gives_node (.head _) ⟨firstFits, fits_listOf restFit, rfl⟩
  case defaultClause =>
    obtain ⟨consequent, rfl, consequentFit⟩ := accepted
    refine gives_allNodes ?_
    exact gives_node (.head _) ⟨rfl, fits_listOf consequentFit, rfl⟩
  case labelledStatement | catchClause =>
    obtain ⟨token, _, rfl, ⟨isName, _⟩, body, _, rfl, bodyFits, rfl⟩ := accepted
    exact gives_node (.head _) ⟨fits_name file token, bodyFits, rfl⟩ (by simp [Part.nodesIn,
      isName])
  case tryStatement =>
    have handlerKind {handler : Node} (fits : handler.Fits file .handler) :
        handler.kind = .catchClause := mem_singleton.1 fits.kind_mem
    have blockKind {finalizer : Node} (fits : finalizer.Fits file .block) :
        finalizer.kind = .blockStatement := mem_singleton.1 fits.kind_mem
    rcases accepted with ⟨block, _, rfl, _, rfl⟩ |
      ⟨block, _, rfl, blockFits, handler, _, rfl, fits, rfl⟩ |
      ⟨block, _, rfl, blockFits, finalizer, _, rfl, fits, rfl⟩ |
      ⟨block, _, rfl, blockFits, handler, _, rfl, fits, finalizer, _, rfl, finalizerFits, rfl⟩
    · exact rfl
    all_goals
      change Gives file .tryStatement extent _ ((tryOf (locate file extent) block _).map _)
      unfold tryOf
    · simp only [List.find?, handlerKind fits]
      exact gives_node (.head _) ⟨blockFits, fits, rfl, rfl⟩
    · simp only [List.find?, blockKind fits]
      exact gives_node (.head _) ⟨blockFits, rfl, fits, rfl⟩
    · simp only [List.find?, handlerKind fits, blockKind finalizerFits]
      exact gives_node (.head _) ⟨blockFits, fits, finalizerFits, rfl⟩
  case finallyClause =>
    obtain ⟨block, _, rfl, fits, rfl⟩ := accepted
    exact gives_same (matches_node fits) rfl
  case functionDeclaration =>
    rcases accepted with
      ⟨token, _, rfl, ⟨isName, _⟩, parameters, _, rfl, parametersFit, body, _, rfl, bodyFits, rfl⟩ |
      ⟨token, _, rfl, ⟨isName, _⟩, body, _, rfl, bodyFits, rfl⟩
    · exact gives_node (.head _) ⟨fits_name file token, fits_listOf parametersFit, bodyFits, rfl⟩
        (by simp [Part.nodesIn, isName])
    · exact gives_node (.head _) ⟨fits_name file token, fits_listOf (by simp), bodyFits, rfl⟩ (by
        simp [Part.nodesIn, isName])
  case functionExpression =>
    rcases accepted with
      ⟨token, _, rfl, ⟨isName, _⟩, parameters, _, rfl, parametersFit, body, _, rfl, bodyFits, rfl⟩ |
      ⟨token, _, rfl, ⟨isName, _⟩, body, _, rfl, bodyFits, rfl⟩ |
      ⟨parameters, _, rfl, parametersFit, body, _, rfl, bodyFits, rfl⟩ |
      ⟨body, _, rfl, bodyFits, rfl⟩
    · exact gives_node (.head _) ⟨fits_name file token, fits_listOf parametersFit, bodyFits, rfl⟩
        (by simp [Part.nodesIn, isName])
    · exact gives_node (.head _) ⟨fits_name file token, fits_listOf (by simp), bodyFits, rfl⟩ (by
        simp [Part.nodesIn, isName])
    · exact gives_node (.head _) ⟨rfl, fits_listOf parametersFit, bodyFits, rfl⟩
    · exact gives_node (.head _) ⟨rfl, fits_listOf (by simp), bodyFits, rfl⟩
  case parameters =>
    obtain ⟨tokens, rfl, areNames⟩ := accepted
    unfold make
    dsimp only
    rw [Part.allTokens?_map]
    refine gives_same (matches_nodes fun node member => ?_) ?_
    · obtain ⟨token, _, rfl⟩ := mem_map.1 member
      exact fits_name file token
    · rw [flatMap_singleton, Part.nodesIn_nodes, flatMap_map, map_eq_flatMap]
      exact (flatMap_congr fun token member => if_pos (areNames token member).1).symm
  case sequence =>
    obtain ⟨first, _, rfl, firstFits, rest, rfl, restFit⟩ := accepted
    change Gives file .sequence extent ((first :: rest).map .node) (make file .sequence extent
      ((first :: rest).map .node))
    refine gives_allNodes ?_
    exact gives_node (.head _) ⟨Field.fits_several.2 ⟨first :: rest, by simp, rfl, by simpa using
      ⟨firstFits, restFit⟩⟩, rfl⟩
  case assign =>
    obtain ⟨left, _, rfl, leftFits, operator, _, rfl, ⟨isSign, _⟩, right, _, rfl, rightFits, rfl⟩ :=
      accepted
    unfold make
    dsimp only
    split
    · rename_i target
      exact gives_node (.head _) ⟨⟨_, rfl⟩, fits_target leftFits target, rightFits, rfl⟩ (by simp
        [Part.nodesIn, isSign])
    · exact rfl
  case conditional =>
    obtain ⟨test, _, rfl, testFits, consequent, _, rfl, consequentFits, alternate, _, rfl,
      alternateFits, rfl⟩ := accepted
    exact gives_node (.head _) ⟨testFits, consequentFits, alternateFits, rfl⟩
  case logical =>
    obtain ⟨left, _, rfl, leftFits, operator, _, rfl, operatorFits, rest⟩ := accepted
    obtain ⟨right, _, rfl, rightFits, nothing⟩ := (matches_cons_of fun _ => fitsSome_node).1 rest
    obtain rfl := matches_nil.1 nothing
    rcases fitsSome_pair.1 operatorFits with fits | fits
    · obtain ⟨token, rfl, kindEq, spelled⟩ := fits_token.1 fits
      exact gives_node (.head _) ⟨Field.fits_word.2 (spelling_of_wellSpelled spelled kindEq rfl),
        leftFits, rightFits, rfl⟩ (by simp [Part.nodesIn, kindEq])
    · obtain ⟨token, rfl, kindEq, spelled⟩ := fits_token.1 fits
      exact gives_node (.tail _ (.head _)) ⟨Field.fits_word.2 (spelling_of_wellSpelled spelled
        kindEq rfl), leftFits, rightFits, rfl⟩ (by simp [Part.nodesIn, kindEq])
  case binary =>
    obtain ⟨left, _, rfl, leftFits, operator, _, rfl, ⟨isSign, _⟩, right, _, rfl, rightFits, rfl⟩ :=
      accepted
    exact gives_node (.head _) ⟨⟨_, rfl⟩, leftFits, rightFits, rfl⟩ (by simp [Part.nodesIn, isSign])
  case unary | prefixUpdate =>
    obtain ⟨operator, _, rfl, ⟨isSign, _⟩, argument, _, rfl, fits, rfl⟩ := accepted
    exact gives_node (.head _) ⟨⟨_, rfl⟩, fits, rfl, rfl⟩ (by simp [Part.nodesIn, isSign])
  case postfixUpdate =>
    obtain ⟨argument, _, rfl, fits, operator, _, rfl, ⟨isSign, _⟩, rfl⟩ := accepted
    exact gives_node (.tail _ (.head _)) ⟨⟨_, rfl⟩, fits, rfl, rfl⟩ (by simp [Part.nodesIn, isSign])
  case newBare =>
    obtain ⟨callee, _, rfl, fits, rfl⟩ := accepted
    exact gives_node (.head _) ⟨fits, fits_listOf (by simp), rfl⟩
  case newWithArguments | call =>
    obtain ⟨callee, _, rfl, calleeFits, arguments, _, rfl, argumentsFit, rfl⟩ := accepted
    exact gives_node (.head _) ⟨calleeFits, fits_listOf argumentsFit, rfl⟩
  case computedMember =>
    obtain ⟨object, _, rfl, objectFits, property, _, rfl, propertyFits, rfl⟩ := accepted
    exact gives_node (.tail _ (.head _)) ⟨objectFits, propertyFits, rfl, rfl⟩
  case staticMember =>
    obtain ⟨object, _, rfl, objectFits, token, _, rfl, ⟨isName, _⟩, rfl⟩ := accepted
    exact gives_node (.head _) ⟨objectFits, fits_name file token, rfl, rfl⟩ (by simp [Part.nodesIn,
      isName])
  case identifier =>
    obtain ⟨token, _, rfl, rfl⟩ := accepted
    exact gives_term nofun rfl (by decide) (.head _) ⟨⟨_, rfl⟩, rfl⟩
  case nullLiteral | trueLiteral | falseLiteral =>
    subst accepted
    exact gives_term nofun rfl (by decide) (.head _) ⟨trivial, trivial, trivial, rfl⟩
  case numberLiteral | stringLiteral | regexLiteral =>
    obtain ⟨token, _, rfl, rfl⟩ := accepted
    exact gives_term nofun rfl (by decide) (.head _) ⟨trivial, trivial, trivial, rfl⟩
  case arrayLiteral =>
    obtain ⟨fields, fieldsEq, fieldsFit⟩ := Part.allFields?_of_fitsSome accepted
    unfold make
    dsimp only
    rw [fieldsEq]
    refine gives_node (.head _) ⟨fits_elements fieldsFit, rfl⟩ fun leaves grown => ?_
    rwa [flatMap_singleton, Field.nodes, nodes_elements, nodes_of_allFields? fieldsEq]
  case objectLiteral =>
    obtain ⟨properties, rfl, propertiesFit⟩ := accepted
    refine gives_allNodes ?_
    exact gives_node (.head _) ⟨fits_listOf propertiesFit, rfl⟩
  case initProperty =>
    obtain ⟨key, _, rfl, keyFits, value, _, rfl, valueFits, rfl⟩ := accepted
    exact gives_node (.head _) ⟨keyFits, valueFits, rfl, rfl⟩
  case getter =>
    obtain ⟨sign, _, rfl, ⟨isSign, _⟩, key, _, rfl, keyFits, body, _, rfl, bodyFits, rfl⟩ := accepted
    exact gives_accessor rfl (.inl rfl) keyFits (by simp) bodyFits (by simp [Part.nodesIn, isSign])
  case setter =>
    obtain ⟨sign, _, rfl, ⟨isSign, _⟩, key, _, rfl, keyFits, token, _, rfl, ⟨isName, _⟩, body, _, rfl,
      bodyFits, rfl⟩ := accepted
    exact gives_accessor rfl (.inr rfl) keyFits (by simpa using fits_name file token) bodyFits
      (by simp [Part.nodesIn, isSign, isName])

end Phrase

end Namesake
