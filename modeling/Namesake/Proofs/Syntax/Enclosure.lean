import Namesake.Proofs.Syntax.Layout
import Namesake.Proofs.Syntax.Semicolons
import Namesake.Proofs.Tree.Offset

/-!
A node extends over the terms below it, and a node beside a term neither starts nor ends within
it.
-/

namespace Namesake

open Node Occurrence List

namespace Node

variable {start stop : Int} {left right : List Node} {node : Node}

def edges (node : Node) : List Int :=
  (node.span?.map fun span => [span.1, span.2]).getD []

/-- The offsets at which a node and the nodes below it start and end. -/
def allEdges (node : Node) : List Int :=
  node.descend.flatMap edges

def termSpans (node : Node) : List (Int × Int) :=
  node.terms.filterMap span?

theorem edges_of_span? (spans : node.span? = some (start, stop)) :
    node.edges = [start, stop] := by
  rw [edges, spans]
  rfl

theorem whole?_of_span? (spans : node.span? = some (start, stop)) {location : Location}
    (located : node.location = some location) :
    location.first.offset.whole? = some start ∧ location.last.offset.whole? = some stop := by
  rw [span?, located] at spans
  obtain ⟨_, ⟨⟩, inner⟩ := Option.bind_eq_some_iff.1 spans
  obtain ⟨first, firstEq, rest⟩ := Option.bind_eq_some_iff.1 inner
  obtain ⟨last, lastEq, pairEq⟩ := Option.bind_eq_some_iff.1 rest
  cases pairEq
  exact ⟨firstEq, lastEq⟩

theorem span?_of_whole? {file : String} {first last : Mark}
    (located : node.location = some ⟨file, first, last⟩)
    (firstEq : first.offset.whole? = some start) (lastEq : last.offset.whole? = some stop) :
    node.span? = some (start, stop) := by
  rw [span?, located]
  dsimp only [bind, Option.bind]
  rw [firstEq, lastEq]
  rfl

theorem allEdges_eq (node : Node) :
    node.allEdges = node.edges ++ node.children.flatMap allEdges := by
  rw [allEdges, descend_eq, flatMap_cons, flatMap_assoc]
  rfl

theorem termSpans_of_composite (composite : node.kind.isTerm = false) :
    node.termSpans = node.children.flatMap termSpans := by
  rw [termSpans, terms_of_composite node composite, filterMap_flatMap]
  rfl

/-- Whether nodes start and end outside the terms of the nodes behind them, and those outside the
terms before them. -/
structure Apart (left right : List Node) : Prop where
  before : ∀ edge ∈ left.flatMap allEdges, ∀ span ∈ right.flatMap termSpans, edge ≤ span.1
  behind : ∀ span ∈ left.flatMap termSpans, ∀ edge ∈ right.flatMap allEdges, span.2 ≤ edge

theorem apart_append_left {other : List Node} :
    Apart (left ++ other) right ↔ Apart left right ∧ Apart other right := by
  constructor
  · rintro ⟨before, behind⟩
    simp only [flatMap_append, forall_mem_append] at before behind
    exact ⟨⟨before.1, behind.1⟩, before.2, behind.2⟩
  · rintro ⟨⟨before, behind⟩, otherBefore, otherBehind⟩
    constructor
    · rw [flatMap_append, forall_mem_append]
      exact ⟨before, otherBefore⟩
    · rw [flatMap_append, forall_mem_append]
      exact ⟨behind, otherBehind⟩

theorem apart_append_right {other : List Node} :
    Apart left (right ++ other) ↔ Apart left right ∧ Apart left other := by
  constructor
  · rintro ⟨before, behind⟩
    simp only [flatMap_append, forall_mem_append] at before behind
    exact ⟨⟨fun edge member => (before edge member).1, fun span member => (behind span member).1⟩,
      fun edge member => (before edge member).2, fun span member => (behind span member).2⟩
  · rintro ⟨⟨before, behind⟩, otherBefore, otherBehind⟩
    constructor
    · intro edge member
      rw [flatMap_append, forall_mem_append]
      exact ⟨before edge member, otherBefore edge member⟩
    · intro span member
      rw [flatMap_append, forall_mem_append]
      exact ⟨behind span member, otherBehind span member⟩

theorem apart_nil_right (left : List Node) : Apart left [] :=
  ⟨fun _ _ _ => nofun, fun _ _ _ => nofun⟩

theorem Apart.mono {fewer less : List Node} (apart : Apart left right)
    (leftEdges : fewer.flatMap allEdges ⊆ left.flatMap allEdges)
    (leftSpans : fewer.flatMap termSpans ⊆ left.flatMap termSpans)
    (rightEdges : less.flatMap allEdges ⊆ right.flatMap allEdges)
    (rightSpans : less.flatMap termSpans ⊆ right.flatMap termSpans) : Apart fewer less :=
  ⟨fun edge member span spanMember =>
      apart.before edge (leftEdges member) span (rightSpans spanMember),
    fun span member edge edgeMember =>
      apart.behind span (leftSpans member) edge (rightEdges edgeMember)⟩

end Node

/-- Whether nodes extend over the terms in them and are apart from each other, and so are the nodes
below each of them. -/
inductive Enclosing : List Node → Prop
  | nil : Enclosing []
  | cons {start stop : Int} {node : Node} {rest : List Node}
      (spans : node.span? = some (start, stop))
      (holds : ∀ span ∈ node.termSpans, start ≤ span.1 ∧ span.2 ≤ stop)
      (inside : Enclosing node.children) (apart : Node.Apart [node] rest)
      (others : Enclosing rest) : Enclosing (node :: rest)

namespace Enclosing

variable {nodes others : List Node} {node : Node} {start stop : Int}

theorem append (left : Enclosing nodes) (right : Enclosing others)
    (apart : Node.Apart nodes others) : Enclosing (nodes ++ others) := by
  induction nodes with
  | nil => exact right
  | cons node rest ih =>
    cases left with
    | cons spans holds inside ownApart further =>
      obtain ⟨first, second⟩ := apart_append_left.1 (singleton_append ▸ apart)
      exact .cons spans holds inside (apart_append_right.2 ⟨ownApart, first⟩) (ih further second)

theorem of_append (enclosing : Enclosing (nodes ++ others)) :
    Enclosing nodes ∧ Enclosing others ∧ Node.Apart nodes others := by
  induction nodes with
  | nil => exact ⟨.nil, enclosing, ⟨fun _ => nofun, fun _ => nofun⟩⟩
  | cons node rest ih =>
    cases enclosing with
    | cons spans holds inside apart further =>
      obtain ⟨left, right, across⟩ := ih further
      obtain ⟨first, second⟩ := apart_append_right.1 apart
      exact ⟨.cons spans holds inside first left, right, apart_append_left.2 ⟨second, across⟩⟩

theorem exists_span? (enclosing : Enclosing nodes) (member : node ∈ nodes) :
    ∃ start stop, node.span? = some (start, stop) ∧ start ∈ nodes.flatMap Node.allEdges ∧
      stop ∈ nodes.flatMap Node.allEdges := by
  induction enclosing with
  | nil => cases member
  | cons spans _ _ _ _ _ ih =>
    rcases mem_cons.1 member with rfl | further
    · have edges := edges_of_span? spans
      exact ⟨_, _, spans, by simp [allEdges_eq node, edges],
        by simp [allEdges_eq node, edges]⟩
    · obtain ⟨start, stop, spans, startEdge, stopEdge⟩ := ih further
      exact ⟨start, stop, spans, mem_append_right _ startEdge, mem_append_right _ stopEdge⟩

theorem first_le (enclosing : Enclosing (node :: others))
    (spans : node.span? = some (start, stop)) :
    ∀ span ∈ (node :: others).flatMap Node.termSpans, start ≤ span.1 := by
  cases enclosing with
  | cons ownSpans holds inside apart further =>
    rw [spans] at ownSpans
    cases ownSpans
    intro span member
    rw [flatMap_cons, mem_append] at member
    rcases member with own | behind
    · exact (holds span own).1
    · refine apart.before start ?_ span behind
      simp [allEdges_eq node, edges_of_span? spans]

theorem le_last (enclosing : Enclosing nodes) (final : nodes.getLast? = some node)
    (spans : node.span? = some (start, stop)) :
    ∀ span ∈ nodes.flatMap Node.termSpans, span.2 ≤ stop := by
  obtain ⟨init, rfl⟩ := List.getLast?_eq_some_iff.1 final
  obtain ⟨_, own, apart⟩ := enclosing.of_append
  cases own with
  | cons ownSpans holds _ _ _ =>
    rw [spans] at ownSpans
    cases ownSpans
    intro span member
    rw [flatMap_append, mem_append] at member
    rcases member with earlier | isFinal
    · refine apart.behind span earlier stop ?_
      simp [allEdges_eq node, edges_of_span? spans]
    · exact (holds span (by simpa using isFinal)).2

theorem wrap (enclosing : Enclosing nodes) (composite : node.kind.isTerm = false)
    (children : node.children = nodes) (spans : node.span? = some (start, stop))
    (holds : ∀ span ∈ nodes.flatMap Node.termSpans, start ≤ span.1 ∧ span.2 ≤ stop) :
    Enclosing [node] := by
  refine .cons spans ?_ ?_ (apart_nil_right _) .nil
  · rw [termSpans_of_composite composite, children]
    exact holds
  · rw [children]
    exact enclosing

theorem mem_edges_of_wrap (children : node.children = nodes)
    (spans : node.span? = some (start, stop)) {edge : Int} :
    edge ∈ [node].flatMap Node.allEdges ↔
      edge = start ∨ edge = stop ∨ edge ∈ nodes.flatMap Node.allEdges := by
  simp [node.allEdges_eq, edges_of_span? spans, children]

theorem subset_of_composite (composite : node.kind.isTerm = false)
    (children : node.children = nodes) :
    [node].flatMap Node.termSpans ⊆ nodes.flatMap Node.termSpans := by
  simp [termSpans_of_composite composite, children]

theorem regroup {file : String} {result : List Node} (enclosing : Enclosing nodes)
    (regrouped : Regrouped file nodes result) :
    Enclosing result ∧ result.flatMap Node.allEdges ⊆ nodes.flatMap Node.allEdges := by
  cases regrouped with
  | @opened before after node composite =>
    obtain ⟨left, right, apart⟩ := enclosing.of_append
    have childEdges : node.children.flatMap Node.allEdges ⊆ [node].flatMap Node.allEdges := by
      simp [node.allEdges_eq]
    have childSpans : node.children.flatMap Node.termSpans ⊆ [node].flatMap Node.termSpans := by
      simp [termSpans_of_composite composite]
    cases right with
    | cons spans holds inside ownApart others =>
      rw [← singleton_append, apart_append_right] at apart
      refine ⟨left.append (inside.append others ?_) ?_, ?_⟩
      · exact ownApart.mono childEdges childSpans (List.Subset.refl _) (List.Subset.refl _)
      · refine apart_append_right.2 ⟨?_, apart.2⟩
        exact apart.1.mono (List.Subset.refl _) (List.Subset.refl _) childEdges childSpans
      · intro edge member
        simp only [flatMap_append, flatMap_cons, mem_append] at member ⊢
        refine member.imp_right (Or.imp_left fun inChildren => ?_)
        simpa using childEdges inChildren
  | @gathered before middle after node first last begin finish composite _ _ children final beginEq
      finishEq located =>
      obtain ⟨left, right, apart⟩ := enclosing.of_append
      obtain ⟨group, behind, groupApart⟩ := right.of_append
      obtain ⟨start, _, firstSpans, startEdge, _⟩ := group.exists_span? mem_cons_self
      obtain ⟨_, stop, lastSpans, _, stopEdge⟩ := group.exists_span? (mem_of_getLast? final)
      have spans := Node.span?_of_whole? located (Node.whole?_of_span? firstSpans beginEq).1
        (Node.whole?_of_span? lastSpans finishEq).2
      have wrapped := group.wrap composite children spans fun span member =>
        ⟨group.first_le firstSpans span member, group.le_last final lastSpans span member⟩
      have edges : [node].flatMap Node.allEdges ⊆ (first :: middle).flatMap Node.allEdges := by
        intro edge member
        rcases (mem_edges_of_wrap children spans).1 member with rfl | rfl | inGroup
        · exact startEdge
        · exact stopEdge
        · exact inGroup
      have sameSpans := subset_of_composite composite children
      rw [apart_append_right] at apart
      rw [← singleton_append]
      refine ⟨left.append (wrapped.append behind ?_) (apart_append_right.2 ⟨?_, apart.2⟩), ?_⟩
      · exact groupApart.mono edges sameSpans (List.Subset.refl _) (List.Subset.refl _)
      · exact apart.1.mono (List.Subset.refl _) (List.Subset.refl _) edges sameSpans
      · intro edge member
        simp only [flatMap_append, mem_append] at member ⊢
        exact member.imp_right (Or.imp_left fun inNode => edges inNode)
  | @followed key node last group begin finish composite _ children final beginEq finishEq located =>
    obtain ⟨own, behind, apart⟩ := of_append (singleton_append ▸ enclosing)
    obtain ⟨_, start, keySpans, _, startEdge⟩ := own.exists_span? mem_cons_self
    obtain ⟨_, stop, lastSpans, _, stopEdge⟩ := behind.exists_span? (mem_of_getLast? final)
    have spans := Node.span?_of_whole? located (Node.whole?_of_span? keySpans beginEq).2
      (Node.whole?_of_span? lastSpans finishEq).2
    have wrapped := behind.wrap composite children spans fun span member =>
      ⟨apart.before start startEdge span member, behind.le_last final lastSpans span member⟩
    have sameSpans := subset_of_composite composite children
    refine ⟨own.append wrapped ⟨fun edge member span spanMember => ?_, ?_⟩, fun edge member => ?_⟩
    · exact apart.before edge member span (sameSpans spanMember)
    · -- The new node starts where the key ends, and the key extends over its terms.
      intro span member edge edgeMember
      rcases (mem_edges_of_wrap children spans).1 edgeMember with rfl | rfl | inGroup
      · exact own.le_last rfl keySpans span member
      · exact apart.behind span member edge stopEdge
      · exact apart.behind span member edge inGroup
    · rw [← singleton_append, flatMap_append, mem_append] at member ⊢
      refine member.elim .inl fun inNode => ?_
      rcases (mem_edges_of_wrap children spans).1 inNode with rfl | rfl | inGroup
      · exact .inl startEdge
      · exact .inr stopEdge
      · exact .inr inGroup

end Enclosing

/-- Whether tokens that are terms do not overlap with others. -/
def Leaf.Orderly (leaves : List Leaf) : Prop :=
  leaves.Pairwise (fun left right => (left.isTerm = true ∨ right.isTerm = true) →
    left.token.extent.last.offset ≤ right.token.extent.first.offset) ∧
  ∀ leaf ∈ leaves, leaf.token.extent.first.offset ≤ leaf.token.extent.last.offset

def Leaf.termSpans (leaves : List Leaf) : List (Int × Int) :=
  (leaves.filter Leaf.isTerm).map fun leaf =>
    (leaf.token.extent.first.offset, leaf.token.extent.last.offset)

namespace Grown

variable {file : String} {leaves : List Leaf} {nodes : List Node}

theorem termSpans_eq (grown : Grown file leaves nodes) :
    nodes.flatMap Node.termSpans = Leaf.termSpans leaves := by
  have spans (token : Token) := Node.span?_between (token.location_term file)
  have each : nodes.flatMap Node.termSpans = (nodes.flatMap Node.terms).filterMap Node.span? := by
    rw [filterMap_flatMap]
    rfl
  rw [each, grown.terms_eq, filterMap_map, Leaf.termSpans, ← filterMap_eq_map]
  exact filterMap_congr fun leaf _ => spans leaf.token

end Grown

theorem Leaf.mem_termSpans {leaves : List Leaf} {span : Int × Int} :
    span ∈ Leaf.termSpans leaves ↔ ∃ leaf ∈ leaves, leaf.isTerm = true ∧
      (leaf.token.extent.first.offset, leaf.token.extent.last.offset) = span := by
  simp [Leaf.termSpans, and_assoc]

namespace Leaf.Orderly

variable {leaves others : List Leaf}

theorem of_append (orderly : Orderly (leaves ++ others)) : Orderly leaves ∧ Orderly others := by
  obtain ⟨pairs, wide⟩ := orderly
  obtain ⟨left, right, _⟩ := pairwise_append.1 pairs
  obtain ⟨leftWide, rightWide⟩ := forall_mem_append.1 wide
  exact ⟨⟨left, leftWide⟩, right, rightWide⟩

theorem within_span (orderly : Orderly leaves) {extent : Extent}
    (spanned : Token.span (leaves.map Leaf.token) = some extent) {leaf : Leaf}
    (member : leaf ∈ leaves) (isTerm : leaf.isTerm = true) :
    extent.first.offset ≤ leaf.token.extent.first.offset ∧
      leaf.token.extent.last.offset ≤ extent.last.offset := by
  induction leaves generalizing extent with
  | nil => cases member
  | cons first rest ih =>
    obtain ⟨⟨pairs, restPairs⟩, wide⟩ := And.imp_left pairwise_cons.1 orderly
    rw [forall_mem_cons] at wide
    rw [map_cons, Token.span] at spanned
    cases restEq : Token.span (rest.map Leaf.token) with
    | none =>
      rw [restEq] at spanned
      cases spanned
      cases rest with
      | nil =>
        rw [mem_singleton.1 member]
        exact ⟨Int.le_refl _, Int.le_refl _⟩
      | cons next further =>
        obtain ⟨_, found⟩ := Token.exists_span (cons_ne_nil next.token (further.map Leaf.token))
        rw [map_cons, found] at restEq
        cases restEq
    | some inner =>
      rw [restEq] at spanned
      cases spanned
      rcases mem_cons.1 member with rfl | inRest
      · obtain ⟨_, last, lastMember, lastEq⟩ := Token.exists_of_span restEq
        obtain ⟨final, finalMember, rfl⟩ := mem_map.1 lastMember
        dsimp only
        rw [lastEq]
        exact ⟨Int.le_refl _, Int.le_trans (pairs final finalMember (.inl isTerm))
          (wide.2 final finalMember)⟩
      · obtain ⟨_, upper⟩ := ih ⟨restPairs, wide.2⟩ restEq inRest
        exact ⟨Int.le_trans wide.1 (pairs leaf inRest (.inr isTerm)), upper⟩

end Leaf.Orderly

theorem Grown.enclosing {file : String} {leaves : List Leaf} {nodes : List Node}
    (grown : Grown file leaves nodes) (orderly : Leaf.Orderly leaves) :
    Enclosing nodes ∧ ∀ edge ∈ nodes.flatMap Node.allEdges, ∃ leaf ∈ leaves,
      edge = leaf.token.extent.first.offset ∨ edge = leaf.token.extent.last.offset := by
  induction grown with
  | nil => exact ⟨.nil, nofun⟩
  | mark => exact ⟨.nil, nofun⟩
  | @term leaf isTerm =>
    have spans := Node.span?_between (leaf.token.location_term file)
    have noChildren := Token.children_term file leaf.token
    constructor
    · refine .cons spans ?_ ?_ (apart_nil_right _) .nil
      · rw [Node.termSpans, Token.terms_term, filterMap_cons, spans]
        simp
      · rw [noChildren]
        exact .nil
    · intro edge member
      rw [flatMap_singleton, allEdges_eq, edges_of_span? spans, noChildren] at member
      exact ⟨leaf, mem_singleton_self _, by simpa using member⟩
  | @append leaves others nodes more left right leftIh rightIh =>
    obtain ⟨leftOrderly, rightOrderly⟩ := orderly.of_append
    obtain ⟨leftEnclosing, leftEdges⟩ := leftIh leftOrderly
    obtain ⟨rightEnclosing, rightEdges⟩ := rightIh rightOrderly
    have across := (pairwise_append.1 orderly.1).2.2
    refine ⟨leftEnclosing.append rightEnclosing ⟨?_, ?_⟩, ?_⟩
    · intro edge edgeMember span spanMember
      rw [right.termSpans_eq, Leaf.mem_termSpans] at spanMember
      obtain ⟨later, laterMember, isTerm, rfl⟩ := spanMember
      obtain ⟨earlier, earlierMember, atEdge⟩ := leftEdges edge edgeMember
      have order := across earlier earlierMember later laterMember (.inr isTerm)
      have wide := leftOrderly.2 earlier earlierMember
      dsimp only
      omega
    · intro span spanMember edge edgeMember
      rw [left.termSpans_eq, Leaf.mem_termSpans] at spanMember
      obtain ⟨earlier, earlierMember, isTerm, rfl⟩ := spanMember
      obtain ⟨later, laterMember, atEdge⟩ := rightEdges edge edgeMember
      have order := across earlier earlierMember later laterMember (.inl isTerm)
      have wide := rightOrderly.2 later laterMember
      dsimp only
      omega
    · intro edge member
      rw [flatMap_append, mem_append] at member
      rcases member with inLeft | inRight
      · obtain ⟨leaf, leafMember, atEdge⟩ := leftEdges edge inLeft
        exact ⟨leaf, mem_append_left _ leafMember, atEdge⟩
      · obtain ⟨leaf, leafMember, atEdge⟩ := rightEdges edge inRight
        exact ⟨leaf, mem_append_right _ leafMember, atEdge⟩
  | regroup _ regrouped ih =>
    obtain ⟨enclosing, edges⟩ := ih orderly
    obtain ⟨regroupedEnclosing, subset⟩ := enclosing.regroup regrouped
    exact ⟨regroupedEnclosing, fun edge member => edges edge (subset member)⟩
  | @enclose leaves kind fields extent composite _ spanned grown ih =>
    obtain ⟨enclosing, edges⟩ := ih orderly
    have children := children_mk kind fields (Phrase.locate file extent)
    have spans : (Node.mk kind fields (Phrase.locate file extent)).span? =
        some (extent.first.offset, extent.last.offset) := Node.span?_between rfl
    constructor
    · refine enclosing.wrap composite children spans fun span member => ?_
      rw [grown.termSpans_eq, Leaf.mem_termSpans] at member
      obtain ⟨leaf, leafMember, isTerm, rfl⟩ := member
      exact orderly.within_span spanned leafMember isTerm
    · intro edge member
      obtain ⟨⟨first, firstMember, firstEq⟩, last, lastMember, lastEq⟩ :=
        Token.exists_of_span spanned
      obtain ⟨firstLeaf, firstLeafMember, rfl⟩ := mem_map.1 firstMember
      obtain ⟨lastLeaf, lastLeafMember, rfl⟩ := mem_map.1 lastMember
      rcases (Enclosing.mem_edges_of_wrap children spans).1 member with rfl | rfl | inside
      · exact ⟨firstLeaf, firstLeafMember, .inl (by rw [firstEq])⟩
      · exact ⟨lastLeaf, lastLeafMember, .inr (by rw [lastEq])⟩
      · exact edges edge inside

theorem Occurrence.map_node_children (place : Occurrence) :
    place.children.map Occurrence.node = place.node.children := by
  rw [children, map_map]
  rfl

theorem Occurrence.mem_termSpans {outer token : Occurrence} (below : token ∈ outer.walk)
    (isTerm : token.node.kind.isTerm = true) {start stop : Int}
    (spans : token.node.span? = some (start, stop)) : (start, stop) ∈ outer.node.termSpans := by
  have descends : token.node ∈ outer.node.descend := by
    rw [← outer.map_node_walk]
    exact mem_map_of_mem below
  exact mem_filterMap.2 ⟨token.node, mem_filter.2 ⟨descends, isTerm⟩, spans⟩

namespace Enclosing

variable {tree token : Occurrence} {start stop : Int}

theorem of_mem {nodes : List Node} {node : Node} (enclosing : Enclosing nodes)
    (member : node ∈ nodes) : Enclosing [node] := by
  obtain ⟨left, right, rfl⟩ := append_of_mem member
  obtain ⟨_, behind, _⟩ := enclosing.of_append
  exact (of_append (singleton_append ▸ behind)).1

theorem children_of_tree (enclosing : Enclosing [tree.node]) :
    Enclosing (tree.children.map Occurrence.node) := by
  cases enclosing with
  | cons _ _ inside _ _ =>
    rw [tree.map_node_children]
    exact inside

theorem of_mem_walk (enclosing : Enclosing [tree.node]) :
    ∀ outer ∈ tree.walk, Enclosing [outer.node] := by
  induction tree using Occurrence.induct with
  | step tree ih =>
    intro outer member
    rw [walk_eq] at member
    rcases mem_cons.1 member with rfl | below
    · exact enclosing
    · obtain ⟨child, childMember, inChild⟩ := mem_flatMap.1 below
      exact ih child childMember
        (enclosing.children_of_tree.of_mem (mem_map_of_mem childMember)) outer inChild

theorem within_outer (enclosing : Enclosing [tree.node]) (isTerm : token.node.kind.isTerm = true)
    (spans : token.node.span? = some (start, stop)) {outer : Occurrence}
    (member : outer ∈ tree.walk) (below : token ∈ outer.walk) :
    ∃ first last, outer.node.span? = some (first, last) ∧ first ≤ start ∧ stop ≤ last := by
  cases enclosing.of_mem_walk outer member with
  | cons ownSpans holds _ _ _ =>
    exact ⟨_, _, ownSpans, holds _ (mem_termSpans below isTerm spans)⟩

theorem elder_le (enclosing : Enclosing [tree.node]) (member : token ∈ tree.walk)
    (isTerm : token.node.kind.isTerm = true) (spans : token.node.span? = some (start, stop)) :
    ∀ elder ∈ tree.elders token.address,
      ∃ first last, elder.node.span? = some (first, last) ∧ first ≤ start ∧ last ≤ start := by
  induction tree using Occurrence.induct with
  | step tree ih =>
    rw [walk_eq] at member
    rcases mem_cons.1 member with rfl | member
    · rw [elders_self]
      exact nofun
    · obtain ⟨child, childMember, below⟩ := mem_flatMap.1 member
      obtain ⟨left, right, childrenEq⟩ := append_of_mem childMember
      have inside := enclosing.children_of_tree
      have childEnclosing := inside.of_mem (mem_map_of_mem childMember)
      rw [childrenEq, map_append, map_cons] at inside
      obtain ⟨leftEnclosing, _, apart⟩ := inside.of_append
      rw [elders_of_child childrenEq below]
      intro elder elderMember
      rcases mem_append.1 elderMember with inLeft | deeper
      · obtain ⟨first, last, elderSpans, firstEdge, lastEdge⟩ :=
          leftEnclosing.exists_span? (mem_map_of_mem inLeft)
        have spanMember : (start, stop) ∈
            (child.node :: right.map Occurrence.node).flatMap Node.termSpans :=
          mem_append_left _ (mem_termSpans below isTerm spans)
        exact ⟨first, last, elderSpans, apart.before first firstEdge _ spanMember,
          apart.before last lastEdge _ spanMember⟩
      · exact ih child childMember childEnclosing below elder deeper

end Enclosing

theorem Derivation.orderly_leaves {source : String} {tolerant : Bool} {derivation : Derivation}
    (read : (Derivation.read source tolerant).result = .ok derivation) :
    Leaf.Orderly derivation.leaves := by
  obtain ⟨_, account⟩ := Derivation.accounts_read source tolerant derivation read
  have isOf (leaf : Leaf) (member : leaf ∈ derivation.leaves) :=
    account.isOf leaf.token (derivation.mem_tokens member)
  have orderly := Derivation.orderly_read read
  rw [Token.Orderly, ← derivation.map_token_leavesIn .program, pairwise_map] at orderly
  refine ⟨orderly.imp_of_mem fun {left right} _ rightMember order isTerm =>
      order fun inserted => ?_,
    fun leaf member => (isOf leaf member).le⟩
  rcases isTerm with leftTerm | rightTerm
  · intro isParen
    rw [Leaf.isTerm, isParen] at leftTerm
    cases leftTerm
  · rw [Leaf.not_isInserted_of_isTerm (isOf right rightMember) rightTerm] at inserted
    cases inserted

theorem SourceFile.enclosing_of_parse {file : SourceFile} {tolerant : Bool} {program : Node}
    (parsed : (file.parse tolerant).result = .ok program) : Enclosing [program] := by
  obtain ⟨derivation, body, read, rfl, grown⟩ := exists_grown parsed
  obtain ⟨_, account⟩ := Derivation.accounts_read file.text tolerant derivation read
  have spans : (Node.mk .program [Phrase.listOf body, .data (.ofString file.name)]
      file.span).span? = some (0, (file.text.toList.length : Int)) := by
    rw [span_eq, Node.span?_between rfl, Position.offset_after, Position.offset_after]
    rfl
  have orderly := Derivation.orderly_leaves read
  refine (grown.enclosing orderly).1.wrap rfl (file.children_program body) spans
    fun span member => ?_
  rw [grown.termSpans_eq, Leaf.mem_termSpans] at member
  obtain ⟨leaf, leafMember, _, rfl⟩ := member
  have isIn := (account.isOf leaf.token (derivation.mem_tokens leafMember)).isIn
  exact ⟨isIn.1.bounds.1, isIn.2.bounds.2⟩

end Namesake
