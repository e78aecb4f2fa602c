import Namesake.Node.Derived
import Namesake.Proofs.Syntax.Account
import Namesake.Proofs.Tree.Walk

/-!
`Grown` says that a list of nodes comes of a list of tokens: each term becomes a node, and nodes
that follow each other are put under a node around them, or are regrouped.
-/

namespace Namesake

open List

def Field.nodes : Field → List Node
  | .data _ => []
  | .node child => [child]
  | .list items => items.filterMap Field.node?

@[simp] theorem Field.nodes_data (value : Data) : (Field.data value).nodes = [] :=
  rfl

@[simp] theorem Field.nodes_node (child : Node) : (Field.node child).nodes = [child] :=
  rfl

namespace Node

theorem map_snd_fieldChildren (index : Nat) (field : Field) :
    (fieldChildren index field).map Prod.snd = field.nodes := by
  cases field with
  | data value => rfl
  | node child => rfl
  | list items =>
    have each (start : Nat) (items : List Field) : ((items.zipIdx start).filterMap
        fun entry => entry.1.node?.map fun child =>
          ((⟨index, some entry.2⟩ : Step), child)).map Prod.snd = items.filterMap Field.node? := by
      induction items generalizing start with
      | nil => rfl
      | cons item rest ih =>
        cases item with
        | data value => exact ih (start + 1)
        | node child => exact congrArg (child :: ·) (ih (start + 1))
        | list inner => exact ih (start + 1)
    exact each 0 items

@[simp] theorem children_mk (kind : Kind) (fields : List Field) (location : Option Location) :
    (Node.mk kind fields location).children = fields.flatMap Field.nodes := by
  have each (start : Nat) (fields : List Field) :
      ((fields.zipIdx start).flatMap fun entry => fieldChildren entry.2 entry.1).map Prod.snd =
        fields.flatMap Field.nodes := by
    induction fields generalizing start with
    | nil => rfl
    | cons field rest ih => simp [ih, map_snd_fieldChildren]
  exact each 0 fields

def descend (node : Node) : List Node :=
  node.walk.map Occurrence.node

end Node

theorem Occurrence.map_node_walk (place : Occurrence) :
    place.walk.map Occurrence.node = place.node.descend := by
  have same (place : Occurrence) : ∀ address, place.walk.map Occurrence.node =
      (⟨address, place.node⟩ : Occurrence).walk.map Occurrence.node := by
    induction place using Occurrence.induct with
    | step place ih =>
      intro address
      rw [walk_eq, walk_eq ⟨address, place.node⟩, map_cons, map_cons, map_flatMap,
        map_flatMap, children, children, flatMap_map, flatMap_map]
      refine congrArg (place.node :: ·) (flatMap_congr fun entry member => ?_)
      exact ih _ (mem_map_of_mem member) _
  exact same place []

theorem Node.descend_eq (node : Node) :
    node.descend = node :: node.children.flatMap Node.descend := by
  change (⟨[], node⟩ : Occurrence).walk.map Occurrence.node = _
  rw [Occurrence.walk_eq, map_cons, map_flatMap, Occurrence.children,
    Node.children, flatMap_map, flatMap_map]
  exact congrArg (node :: ·) (flatMap_congr fun entry _ => Occurrence.map_node_walk _)

theorem Node.mem_descend (node : Node) : node ∈ node.descend := by
  rw [descend_eq]
  exact mem_cons_self

def Kind.isTerm (kind : Kind) : Bool :=
  kind = .identifier || kind = .literal

def Node.terms (node : Node) : List Node :=
  node.descend.filter fun inner => inner.kind.isTerm

/-- A token and the phrase that it stands in directly. -/
structure Leaf where
  phrase : Nonterminal
  token : Token

/-- Whether tokens of a kind become identifiers or literals in a phrase.  The words `get` and `set` do
so where they name a property. -/
def Terminal.isTermIn (phrase : Nonterminal) : Terminal → Bool
  | .identifier | .string | .number | .regex | .nullWord | .trueWord | .falseWord => true
  | .getWord | .setWord => phrase = .propertyName
  | _ => false

def Leaf.isTerm (leaf : Leaf) : Bool :=
  leaf.token.kind.isTermIn leaf.phrase

def Token.term (file : String) (token : Token) : Node :=
  let literal (value : Data) (regex : Field) : Node :=
    .mk .literal [.data value, Phrase.spelling token, regex] (Phrase.locate file token.extent)
  match token.kind with
  | .nullWord => literal .null (.data .null)
  | .trueWord => literal (.bool true) (.data .null)
  | .falseWord => literal (.bool false) (.data .null)
  | .number => literal (Literal.number token.text) (.data .null)
  | .string => literal (.text (Literal.string token.text)) (.data .null)
  | .regex => literal .null (Phrase.spelling token)
  | _ => Phrase.name file token

namespace Derivation

mutual

/-- The tokens of a derivation, each with the phrase that it stands in directly. -/
def leavesIn (phrase : Nonterminal) : Derivation → List Leaf
  | leaf token => [⟨phrase, token⟩]
  | branch production parts => leavesAll production.head parts

def leavesAll (phrase : Nonterminal) : List Derivation → List Leaf
  | [] => []
  | part :: rest => part.leavesIn phrase ++ leavesAll phrase rest

end

def leaves (derivation : Derivation) : List Leaf :=
  derivation.leavesIn .program

mutual

theorem map_token_leavesIn (phrase : Nonterminal) (derivation : Derivation) :
    (derivation.leavesIn phrase).map Leaf.token = derivation.tokens := by
  cases derivation with
  | leaf token => rfl
  | branch production parts => exact map_token_leavesAll production.head parts

theorem map_token_leavesAll (phrase : Nonterminal) (parts : List Derivation) :
    (leavesAll phrase parts).map Leaf.token = tokensAll parts := by
  cases parts with
  | nil => rfl
  | cons part rest =>
    rw [leavesAll, map_append, map_token_leavesIn phrase part, map_token_leavesAll phrase rest]
    rfl

end

theorem mem_tokens (derivation : Derivation) {leaf : Leaf} (member : leaf ∈ derivation.leaves) :
    leaf.token ∈ derivation.tokens := by
  rw [← derivation.map_token_leavesIn .program]
  exact mem_map_of_mem member

end Derivation

/-- Whether nodes of a kind may be put around others that do not make up a phrase. -/
def Kind.gathers : Kind → Bool
  | .binaryExpression | .functionExpression | .variableDeclarator | .variableDeclaration => true
  | _ => false

/-- Whether nodes that follow each other are grouped in another way. -/
inductive Regrouped (file : String) : List Node → List Node → Prop
  | opened (before : List Node) {after : List Node} {node : Node}
      (composite : node.kind.isTerm = false) :
      Regrouped file (before ++ node :: after) (before ++ (node.children ++ after))
  | gathered (before middle : List Node) {after : List Node} {node first last : Node}
      {start stop : Location} (composite : node.kind.isTerm = false)
      (gathers : node.kind.gathers = true) (single : node.kind = .variableDeclaration → middle = [])
      (children : node.children = first :: middle)
      (final : (first :: middle).getLast? = some last)
      (startEq : first.location = some start) (stopEq : last.location = some stop)
      (located : node.location = some ⟨file, start.first, stop.last⟩) :
      Regrouped file (before ++ (first :: middle ++ after)) (before ++ node :: after)
  /-- Nodes are put under one that starts where the node before them ends. -/
  | followed {key node last : Node} {group : List Node} {start stop : Location}
      (composite : node.kind.isTerm = false) (isFunction : node.kind = .functionExpression)
      (children : node.children = group)
      (final : group.getLast? = some last)
      (startEq : key.location = some start) (stopEq : last.location = some stop)
      (located : node.location = some ⟨file, start.last, stop.last⟩) :
      Regrouped file (key :: group) [key, node]

/-- Whether nodes come of tokens. -/
inductive Grown (file : String) : List Leaf → List Node → Prop
  | nil : Grown file [] []
  | mark {leaf : Leaf} (isMark : leaf.isTerm = false) : Grown file [leaf] []
  | term {leaf : Leaf} (isTerm : leaf.isTerm = true) : Grown file [leaf] [leaf.token.term file]
  | append {leaves others : List Leaf} {nodes more : List Node} (left : Grown file leaves nodes)
      (right : Grown file others more) : Grown file (leaves ++ others) (nodes ++ more)
  | regroup {leaves : List Leaf} {nodes result : List Node} (grown : Grown file leaves nodes)
      (regrouped : Regrouped file nodes result) : Grown file leaves result
  /-- All nodes of a phrase are put under one that extends over the tokens of the phrase. -/
  | enclose {leaves : List Leaf} {kind : Kind} {fields : List Field} {extent : Extent}
      (composite : kind.isTerm = false)
      (bare : kind = .emptyStatement → ∃ token : Token, token.kind = .semicolon ∧
        leaves = [⟨.emptyStatement, token⟩])
      (spanned : Token.span (leaves.map Leaf.token) = some extent)
      (grown : Grown file leaves (fields.flatMap Field.nodes)) :
      Grown file leaves [.mk kind fields (Phrase.locate file extent)]

end Namesake
