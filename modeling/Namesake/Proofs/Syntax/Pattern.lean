import Namesake.Node.Derived
import Namesake.Proofs.Syntax.Derivation
import Namesake.Proofs.Syntax.Shape

/-!
A `Pattern` describes the parts that a phrase gives to the phrase around it.  Each phrase of the
grammar has one, and each `Form` accepts some and makes one of them.
-/

namespace Namesake

open List

inductive Mold where
  | token (kind : Terminal)
  | anyToken
  | node (category : Category)
  | nodes (category : Category)
  | hole
deriving DecidableEq

/-- A description of lists of parts. -/
structure Pattern where
  fixed : List (List Mold)
  rest : List Mold

namespace Mold

/-- Whether every part of the first mold has the second one too. -/
def below : Mold → Mold → Bool
  | token kind, token other => kind = other
  | token _, anyToken => true
  | anyToken, anyToken => true
  | node category, node other => category.kinds.all other.kinds.contains
  | nodes category, nodes other => category.kinds.all other.kinds.contains
  | hole, hole => true
  | _, _ => false

/-- Whether each mold of the first list is below one of the second. -/
def allBelow (molds others : List Mold) : Bool :=
  molds.all fun mold => others.any mold.below

end Mold

namespace Part

variable {mold : Mold}

def Fits (file : String) : Mold → Part → Prop
  | .token kind, .token found => found.kind = kind ∧ found.WellSpelled
  | .anyToken, .token _ => True
  | .node category, .node found => found.Fits file category
  | .nodes category, .nodes found => ∀ node ∈ found, node.Fits file category
  | .hole, .hole => True
  | _, _ => False

def FitsSome (file : String) (molds : List Mold) (part : Part) : Prop :=
  ∃ mold ∈ molds, part.Fits file mold

variable {file : String} {part : Part}

theorem fits_token {kind : Terminal} :
    part.Fits file (.token kind) ↔
      ∃ found : Token, part = .token found ∧ found.kind = kind ∧ found.WellSpelled := by
  cases part <;> simp [Fits]

theorem fits_anyToken : part.Fits file .anyToken ↔ ∃ found, part = .token found := by
  cases part <;> simp [Fits]

theorem fits_node {category : Category} :
    part.Fits file (.node category) ↔ ∃ found, part = .node found ∧ found.Fits file category := by
  cases part <;> simp [Fits]

theorem fits_nodes {category : Category} :
    part.Fits file (.nodes category) ↔
      ∃ found, part = .nodes found ∧ ∀ node ∈ found, node.Fits file category := by
  cases part <;> simp [Fits]

theorem fits_hole : part.Fits file .hole ↔ part = .hole := by
  cases part <;> simp [Fits]

theorem fitsSome_singleton : part.FitsSome file [mold] ↔ part.Fits file mold := by
  simp [FitsSome]

theorem fitsSome_pair {other : Mold} :
    part.FitsSome file [mold, other] ↔ part.Fits file mold ∨ part.Fits file other := by
  simp [FitsSome]

theorem Fits.of_below {other : Mold} (fits : part.Fits file mold) (below : mold.below other = true)
    : part.Fits file other := by
  have widen {category wider : Category} {node : Node}
      (included : category.kinds.all wider.kinds.contains = true)
      (fits : node.Fits file category) : node.Fits file wider := by
    refine fits.mono ?_
    simpa using all_eq_true.1 included node.kind fits.kind_mem
  cases mold <;> cases other <;> simp only [Mold.below, Bool.false_eq_true] at below <;>
    cases part <;> try exact fits.elim
  · exact ⟨fits.1.trans (by simpa using below), fits.2⟩
  · trivial
  · trivial
  · exact widen below fits
  · exact fun node member => widen below (fits node member)
  · trivial

theorem FitsSome.of_allBelow {molds others : List Mold} (fits : part.FitsSome file molds)
    (below : Mold.allBelow molds others = true) : part.FitsSome file others := by
  obtain ⟨mold, member, moldFits⟩ := fits
  have found := all_eq_true.1 below mold member
  obtain ⟨other, otherMember, otherBelow⟩ := any_eq_true.1 found
  exact ⟨other, otherMember, moldFits.of_below otherBelow⟩

end Part

namespace Pattern

variable {rest : List Mold}

def single (molds : List Mold) : Pattern :=
  ⟨[molds], []⟩

def repeated (molds : List Mold) : Pattern :=
  ⟨[], molds⟩

def empty : Pattern :=
  ⟨[], []⟩

/-- Whether some parts are as the patterns of the first ones and of all further ones say. -/
def MatchesFrom (file : String) (rest : List Mold) : List (List Mold) → List Part → Prop
  | [], parts => ∀ part ∈ parts, part.FitsSome file rest
  | molds :: fixed, parts =>
    ∃ part others, parts = part :: others ∧ part.FitsSome file molds ∧
      MatchesFrom file rest fixed others

def Matches (file : String) (pattern : Pattern) (parts : List Part) : Prop :=
  MatchesFrom file pattern.rest pattern.fixed parts

/-- The parts of one pattern and then those of another.  Behind a pattern of any length nothing is
known about the order. -/
def append (first second : Pattern) : Pattern :=
  if first.rest = [] then ⟨first.fixed ++ second.fixed, second.rest⟩
  else ⟨first.fixed, first.rest ++ second.fixed.flatten ++ second.rest⟩

/-- Whether the first parts of one pattern and its further ones are allowed by another. -/
def coversFrom (rest others : List Mold) : List (List Mold) → List (List Mold) → Bool
  | [], [] => Mold.allBelow others rest
  | [], molds :: fixed => Mold.allBelow molds rest && coversFrom rest others [] fixed
  | _ :: _, [] => false
  | molds :: fixed, inner :: others' =>
    Mold.allBelow inner molds && coversFrom rest others fixed others'

/-- Whether a pattern allows all that another one allows. -/
def covers (pattern other : Pattern) : Bool :=
  coversFrom pattern.rest other.rest pattern.fixed other.fixed

variable {file : String}
variable {parts : List Part}

theorem MatchesFrom.fitsSome {fixed : List (List Mold)}
    (matched : MatchesFrom file rest fixed parts) :
    ∀ part ∈ parts, part.FitsSome file (fixed.flatten ++ rest) := by
  induction fixed generalizing parts with
  | nil => exact matched
  | cons molds fixed ih =>
    obtain ⟨first, others, rfl, ⟨mold, member, fits⟩, restMatched⟩ := matched
    intro part partMember
    rcases mem_cons.1 partMember with rfl | partMember
    · exact ⟨mold, by simp [member], fits⟩
    · obtain ⟨other, otherMember, otherFits⟩ := ih restMatched part partMember
      exact ⟨other, by
        rw [flatten_cons, append_assoc]
        exact mem_append_right _ otherMember, otherFits⟩

theorem Matches.append {first second : Pattern} {others : List Part}
    (firstMatched : first.Matches file parts) (secondMatched : second.Matches file others) :
    (first.append second).Matches file (parts ++ others) := by
  obtain ⟨fixed, rest⟩ := first
  unfold Matches at firstMatched
  unfold Pattern.append
  induction fixed generalizing parts with
  | nil =>
    split
    · rename_i noRest
      dsimp only at noRest firstMatched
      subst noRest
      cases parts with
      | nil => exact secondMatched
      | cons part parts =>
        obtain ⟨_, member, _⟩ := firstMatched part (by simp)
        cases member
    · intro part member
      rcases mem_append.1 member with member | member
      · obtain ⟨mold, moldMember, fits⟩ := firstMatched part member
        exact ⟨mold, by simp [moldMember], fits⟩
      · obtain ⟨mold, moldMember, fits⟩ := MatchesFrom.fitsSome secondMatched part member
        exact ⟨mold, by
          rw [append_assoc]
          exact mem_append_right _ moldMember, fits⟩
  | cons molds fixed ih =>
    obtain ⟨part, parts, rfl, fits, restMatched⟩ := firstMatched
    have tail := ih restMatched
    split
    · rename_i noRest
      dsimp only at noRest
      rw [if_pos noRest] at tail
      exact ⟨part, parts ++ others, rfl, fits, tail⟩
    · rename_i someRest
      dsimp only at someRest
      rw [if_neg someRest] at tail
      exact ⟨part, parts ++ others, rfl, fits, tail⟩

theorem MatchesFrom.of_coversFrom {others : List Mold} {general special : List (List Mold)}
    (covered : coversFrom rest others general special = true)
    (matched : MatchesFrom file others special parts) : MatchesFrom file rest general parts := by
  fun_induction coversFrom rest others general special generalizing parts with
  | case1 =>
    exact fun part member => (matched part member).of_allBelow covered
  | case2 molds fixed ih =>
    rw [Bool.and_eq_true] at covered
    obtain ⟨first, tail, rfl, fits, tailMatched⟩ := matched
    intro part member
    rcases mem_cons.1 member with rfl | member
    · exact fits.of_allBelow covered.1
    · exact ih covered.2 tailMatched part member
  | case3 => cases covered
  | case4 molds fixed inner others' ih =>
    rw [Bool.and_eq_true] at covered
    obtain ⟨first, tail, rfl, fits, tailMatched⟩ := matched
    exact ⟨first, tail, rfl, fits.of_allBelow covered.1, ih covered.2 tailMatched⟩

theorem Matches.of_covers {pattern other : Pattern} (covered : pattern.covers other = true)
    (matched : other.Matches file parts) : pattern.Matches file parts :=
  MatchesFrom.of_coversFrom covered matched

theorem matches_empty : empty.Matches file parts ↔ parts = [] := by
  constructor
  · intro matched
    refine eq_nil_iff_forall_not_mem.2 fun part member => ?_
    obtain ⟨_, moldMember, _⟩ := matched part member
    cases moldMember
  · rintro rfl part member
    cases member

theorem matches_cons {molds : List Mold} {fixed : List (List Mold)} :
    Matches file ⟨molds :: fixed, rest⟩ parts ↔
      ∃ part others, parts = part :: others ∧ part.FitsSome file molds ∧
        Matches file ⟨fixed, rest⟩ others :=
  Iff.rfl

theorem matches_single {molds : List Mold} :
    (single molds).Matches file parts ↔ ∃ part, parts = [part] ∧ part.FitsSome file molds := by
  unfold single
  rw [matches_cons]
  constructor
  · rintro ⟨part, others, rfl, fits, rest⟩
    obtain rfl : others = [] := matches_empty.1 rest
    exact ⟨part, rfl, fits⟩
  · rintro ⟨part, rfl, fits⟩
    exact ⟨part, [], rfl, fits, matches_empty.2 rfl⟩

end Pattern

open Pattern Mold

def Nonterminal.yield : Nonterminal → Pattern
  | program => single [node .program]
  | statement | variableStatement | emptyStatement | expressionStatement | ifStatement
  | doWhileStatement | whileStatement | forStatement | forInStatement | continueStatement
  | breakStatement | returnStatement | withStatement | switchStatement | labelledStatement
  | throwStatement | tryStatement | debuggerStatement | functionDeclaration =>
    single [node .statement]
  | block | finallyClause => single [node .block]
  | declarators => single [nodes .declarator]
  | declarator => single [node .declarator]
  | forInit => single [hole, node .expression, node .variables]
  | forTest | forUpdate | arrayItem => single [hole, node .expression]
  | caseClause => single [node .clause]
  | catchClause => single [node .handler]
  | parameters => single [nodes .identifier]
  | functionExpression | literal | arrayLiteral | objectLiteral
  | expression _ | assignment _ | conditional _ | logicalOr _ | logicalAnd _ | bitOr _ | bitXor _
  | bitAnd _ | equality _ | relational _ | shift _ | additive _ | multiplicative _ | unary _
  | postfixed _ | leftHandSide _ | creation _ | member _ | application _ | primary _ =>
    single [node .expression]
  | arguments => single [nodes .expression]
  | property => single [node .property]
  | propertyName => single [node .key]
  | statements => repeated [node .statement]
  | moreDeclarators => repeated [node .declarator]
  | caseClauses => repeated [node .clause]
  | moreParameters => repeated [token .identifier]
  | moreExpressions => repeated [node .expression]
  | moreItems => repeated [hole, node .expression]
  | moreProperties => repeated [node .property]

def Symbol.yield : Symbol → Pattern
  | .terminal kind => if kind.isContent then single [token kind] else Pattern.empty
  | .nonterminal phrase => phrase.yield

def Symbol.yieldAll : List Symbol → Pattern
  | [] => Pattern.empty
  | symbol :: rest => symbol.yield.append (yieldAll rest)

def Pattern.ofNodes (categories : List Category) : Pattern :=
  ⟨categories.map fun category => [node category], []⟩

def Pattern.ofOperator (operators : List Mold) : Pattern :=
  ⟨[[node .expression], operators, [node .expression]], []⟩

def Mold.names : List Mold :=
  [token .identifier]

def Mold.signs : List Mold :=
  (Terminal.all.filter fun kind => kind ≠ .identifier).map token

/-- The parts that a form is made for; the two forms that pass their parts on take any. -/
def Form.accepted : Form → List Pattern
  | inner | items => []
  | optional => [Pattern.empty, single [node .expression]]
  | program | block => [repeated [node .statement]]
  | variableStatement | forVariables => [single [nodes .declarator]]
  | declarators => [repeated [node .declarator]]
  | declarator => [single names, ⟨[names, signs, [node .expression]], []⟩]
  | emptyStatement | debuggerStatement | this | nullLiteral | trueLiteral | falseLiteral =>
    [Pattern.empty]
  | expressionStatement | throwStatement | newBare => [single [node .expression]]
  | ifStatement =>
    [ofNodes [.expression, .statement], ofNodes [.expression, .statement, .statement]]
  | doWhileStatement => [ofNodes [.statement, .expression]]
  | whileStatement | withStatement | forInStatement => [ofNodes [.expression, .statement]]
  | forStatement =>
    [⟨[ [hole, node .expression, node .variables], [hole, node .expression],
        [hole, node .expression], [node .statement] ], []⟩]
  | forInVariable => [⟨[names, signs, [node .expression], [node .statement]], []⟩]
  | continueStatement | breakStatement => [Pattern.empty, single names]
  | returnStatement => [Pattern.empty, single [node .expression]]
  | switchStatement => [⟨[[node .expression]], [node .clause]⟩]
  | caseClause => [⟨[[node .expression]], [node .statement]⟩]
  | defaultClause => [repeated [node .statement]]
  | labelledStatement => [⟨[names, [node .statement]], []⟩]
  | tryStatement =>
    [ofNodes [.block], ofNodes [.block, .handler], ofNodes [.block, .block],
      ofNodes [.block, .handler, .block]]
  | catchClause => [⟨[names, [node .block]], []⟩]
  | finallyClause => [single [node .block]]
  | functionDeclaration =>
    [⟨[names, [nodes .identifier], [node .block]], []⟩, ⟨[names, [node .block]], []⟩]
  | functionExpression =>
    [ ⟨[names, [nodes .identifier], [node .block]], []⟩, ⟨[names, [node .block]], []⟩,
      ⟨[[nodes .identifier], [node .block]], []⟩, single [node .block] ]
  | parameters => [repeated names]
  | sequence => [⟨[[node .expression]], [node .expression]⟩]
  | assign | binary => [ofOperator signs]
  | conditional => [ofNodes [.expression, .expression, .expression]]
  | logical => [ofOperator [token .andOp, token .orOp]]
  | unary | prefixUpdate => [⟨[signs, [node .expression]], []⟩]
  | postfixUpdate => [⟨[[node .expression], signs], []⟩]
  | newWithArguments | call => [⟨[[node .expression], [nodes .expression]], []⟩]
  | arguments => [repeated [node .expression]]
  | computedMember => [ofNodes [.expression, .expression]]
  | staticMember => [⟨[[node .expression], names], []⟩]
  | identifier | numberLiteral | stringLiteral | regexLiteral => [single [anyToken]]
  | arrayLiteral => [repeated [hole, node .expression]]
  | objectLiteral => [repeated [node .property]]
  | initProperty => [ofNodes [.key, .expression]]
  | getter => [⟨[signs, [node .key], [node .block]], []⟩]
  | setter => [⟨[signs, [node .key], names, [node .block]], []⟩]

def Form.made : Form → Pattern
  | inner | items => Pattern.empty
  | optional => single [hole, node .expression]
  | program => single [node .program]
  | block | finallyClause => single [node .block]
  | declarators => single [nodes .declarator]
  | declarator => single [node .declarator]
  | forVariables => single [node .variables]
  | caseClause | defaultClause => single [node .clause]
  | catchClause => single [node .handler]
  | parameters => single [nodes .identifier]
  | arguments => single [nodes .expression]
  | identifier => single [node .identifier]
  | numberLiteral | stringLiteral => single [node .key]
  | initProperty | getter | setter => single [node .property]
  | variableStatement | emptyStatement | expressionStatement | ifStatement | doWhileStatement
  | whileStatement | forStatement | forInStatement | forInVariable | continueStatement
  | breakStatement | returnStatement | withStatement | switchStatement | labelledStatement
  | throwStatement | tryStatement | debuggerStatement | functionDeclaration =>
    single [node .statement]
  | functionExpression | sequence | assign | conditional | logical | binary | unary | prefixUpdate
  | postfixUpdate | newBare | newWithArguments | call | computedMember | staticMember | this
  | nullLiteral | trueLiteral | falseLiteral | regexLiteral | arrayLiteral | objectLiteral =>
    single [node .expression]

/-- Whether the form of a production accepts what its body gives and makes what its head promises. -/
def Production.isTyped (production : Production) : Bool :=
  let given := Symbol.yieldAll production.body
  let promised := production.head.yield
  match production.form with
  | .inner | .items => promised.covers given
  | form => form.accepted.any (·.covers given) && promised.covers form.made

theorem Grammar.isTyped_of_mem_rules : ∀ production ∈ rules, production.isTyped = true := by
  decide +kernel

namespace Pattern

variable {file : String} {fixed : List (List Mold)} {rest : List Mold} {parts : List Part}
variable {category : Category}
variable {part : Part}

/-- If the parts that some molds admit are known, so are the lists that start with such a part. -/
theorem matches_cons_of {α : Type} {molds : List Mold} {ofFound : α → Part} {good : α → Prop}
    (admits : ∀ part : Part, part.FitsSome file molds ↔ ∃ found, part = ofFound found ∧ good found) :
    Matches file ⟨molds :: fixed, rest⟩ parts ↔
      ∃ found others, parts = ofFound found :: others ∧ good found ∧
        Matches file ⟨fixed, rest⟩ others := by
  simp only [matches_cons, admits]
  constructor
  · rintro ⟨_, others, rfl, ⟨found, rfl, fits⟩, matched⟩
    exact ⟨found, others, rfl, fits, matched⟩
  · rintro ⟨found, others, rfl, fits, matched⟩
    exact ⟨_, others, rfl, ⟨found, rfl, fits⟩, matched⟩

theorem matches_rest_of {α : Type} {molds : List Mold} {ofFound : α → Part} {good : α → Prop}
    (admits : ∀ part : Part, part.FitsSome file molds ↔ ∃ found, part = ofFound found ∧ good found) :
    Matches file ⟨[], molds⟩ parts ↔
      ∃ found : List α, parts = found.map ofFound ∧ ∀ item ∈ found, good item := by
  simp only [Matches, MatchesFrom, admits]
  constructor
  · intro matched
    induction parts with
    | nil => exact ⟨[], rfl, by simp⟩
    | cons part parts ih =>
      simp only [mem_cons, forall_eq_or_imp] at matched
      obtain ⟨⟨found, rfl, fits⟩, others⟩ := matched
      obtain ⟨foundOthers, rfl, othersFit⟩ := ih others
      exact ⟨found :: foundOthers, rfl, by simpa using ⟨fits, othersFit⟩⟩
  · rintro ⟨found, rfl, fit⟩ part member
    obtain ⟨item, itemMember, rfl⟩ := mem_map.1 member
    exact ⟨item, rfl, fit item itemMember⟩

theorem fitsSome_node :
    part.FitsSome file [node category] ↔ ∃ found, part = .node found ∧ found.Fits file category :=
  Part.fitsSome_singleton.trans Part.fits_node

theorem fitsSome_nodes :
    part.FitsSome file [nodes category] ↔
      ∃ found, part = .nodes found ∧ ∀ node ∈ found, node.Fits file category :=
  Part.fitsSome_singleton.trans Part.fits_nodes

theorem fitsSome_anyToken :
    part.FitsSome file [anyToken] ↔ ∃ found, part = .token found ∧ True := by
  simpa using Part.fitsSome_singleton.trans Part.fits_anyToken

theorem fitsSome_names :
    part.FitsSome file names ↔
      ∃ found : Token, part = .token found ∧ found.kind = .identifier ∧ found.WellSpelled :=
  Part.fitsSome_singleton.trans Part.fits_token

theorem fitsSome_signs :
    part.FitsSome file signs ↔
      ∃ found : Token, part = .token found ∧ found.kind ≠ .identifier ∧ found.WellSpelled := by
  constructor
  · rintro ⟨mold, member, fits⟩
    obtain ⟨kind, kindMember, rfl⟩ := mem_map.1 member
    obtain ⟨found, rfl, rfl, spelled⟩ := Part.fits_token.1 fits
    exact ⟨found, rfl, by simpa using (mem_filter.1 kindMember).2, spelled⟩
  · rintro ⟨found, rfl, notName, spelled⟩
    have listed : found.kind ∈ Terminal.all := by
      cases found.kind <;> decide
    refine ⟨.token found.kind, mem_map_of_mem (mem_filter.2 ⟨listed, ?_⟩), rfl, spelled⟩
    simpa using notName

theorem matches_nil : Matches file ⟨[], []⟩ parts ↔ parts = [] :=
  matches_empty

theorem matches_node {found : Node} (fits : found.Fits file category) :
    (single [node category]).Matches file [.node found] :=
  (matches_cons_of fun _ => fitsSome_node).2 ⟨found, [], rfl, fits, matches_nil.2 rfl⟩

theorem matches_nodes {found : List Node} (fit : ∀ node ∈ found, node.Fits file category) :
    (single [nodes category]).Matches file [.nodes found] :=
  (matches_cons_of fun _ => fitsSome_nodes).2 ⟨found, [], rfl, fit, matches_nil.2 rfl⟩

end Pattern

namespace Part

theorem allNodes?_map (nodes : List Node) : allNodes? (nodes.map .node) = some nodes := by
  induction nodes with
  | nil => rfl
  | cons node nodes ih => simp [allNodes?, ih]

theorem allTokens?_map (tokens : List Token) : allTokens? (tokens.map .token) = some tokens := by
  induction tokens with
  | nil => rfl
  | cons token tokens ih => simp [allTokens?, ih]

variable {file : String} {category : Category}

theorem FitsSome.field? {part : Part} (fits : part.FitsSome file [.hole, .node category]) :
    ∃ field, part.field? = some field ∧ field.Fits file (.optional category) := by
  rcases fitsSome_pair.1 fits with isHole | isNode
  · rw [fits_hole.1 isHole]
    exact ⟨_, rfl, Field.fits_optional.2 (.inl rfl)⟩
  · obtain ⟨found, rfl, foundFits⟩ := fits_node.1 isNode
    exact ⟨_, rfl, Field.fits_optional.2 (.inr ⟨found, rfl, foundFits⟩)⟩

theorem allFields?_of_fitsSome {parts : List Part}
    (fit : ∀ part ∈ parts, part.FitsSome file [.hole, .node category]) :
    ∃ fields, allFields? parts = some fields ∧
      ∀ field ∈ fields, field.Fits file (.optional category) := by
  induction parts with
  | nil => exact ⟨[], rfl, by simp⟩
  | cons part parts ih =>
    simp only [mem_cons, forall_eq_or_imp] at fit
    obtain ⟨field, fieldEq, fieldFits⟩ := fit.1.field?
    obtain ⟨fields, fieldsEq, fieldsFit⟩ := ih fit.2
    exact ⟨field :: fields, by simp [allFields?, fieldEq, fieldsEq], by
      simpa using ⟨fieldFits, fieldsFit⟩⟩

end Part

end Namesake
