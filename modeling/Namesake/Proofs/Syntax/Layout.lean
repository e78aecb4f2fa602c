import Mathlib.Data.List.Chain
import Namesake.Proofs.Syntax.Positions

/-!
Where tokens follow each other, the nodes that grow from them do so too, and each node keeps
those below it inside its own extent.
-/

namespace Namesake

open Node List

/-- Whether tokens follow each other between two offsets. -/
inductive Token.Follow : Int → Int → List Token → Prop
  | nil {start stop : Int} (le : start ≤ stop) : Follow start stop []
  | cons {start stop : Int} {token : Token} {rest : List Token}
      (behind : start ≤ token.extent.first.offset)
      (wide : token.extent.first.offset ≤ token.extent.last.offset)
      (others : Follow token.extent.last.offset stop rest) : Follow start stop (token :: rest)

namespace Token.Follow

variable {start middle stop : Int} {tokens others : List Token}

theorem le (follow : Follow start stop tokens) : start ≤ stop := by
  induction follow with
  | nil le => exact le
  | cons behind wide _ ih => exact Int.le_trans behind (Int.le_trans wide ih)

theorem of_append (follow : Follow start stop (tokens ++ others)) :
    ∃ middle, Follow start middle tokens ∧ Follow middle stop others := by
  induction tokens generalizing start with
  | nil => exact ⟨start, .nil (Int.le_refl _), follow⟩
  | cons token rest ih =>
    cases follow with
    | cons behind wide further =>
      obtain ⟨middle, left, right⟩ := ih further
      exact ⟨middle, .cons behind wide left, right⟩

theorem shrink (follow : Follow start stop tokens) {extent : Extent}
    (spanned : span tokens = some extent) :
    extent.last.offset ≤ stop ∧ Follow start extent.last.offset tokens := by
  induction follow generalizing extent with
  | nil => cases spanned
  | cons behind wide others ih =>
    rename_i stop token rest
    rw [span] at spanned
    cases restSpan : span rest with
    | none =>
      rw [restSpan] at spanned
      cases spanned
      cases rest with
      | nil => exact ⟨others.le, .cons behind wide (.nil (Int.le_refl _))⟩
      | cons next further =>
        obtain ⟨inner, found⟩ := exists_span (cons_ne_nil next further)
        rw [restSpan] at found
        cases found
    | some inner =>
      obtain ⟨before, follow⟩ := ih restSpan
      rw [restSpan] at spanned
      cases spanned
      exact ⟨before, .cons behind wide follow⟩

theorem inside (follow : Follow start stop tokens) {extent : Extent}
    (spanned : span tokens = some extent) :
    start ≤ extent.first.offset ∧ extent.last.offset ≤ stop ∧
      Follow extent.first.offset extent.last.offset tokens := by
  obtain ⟨before, shrunk⟩ := follow.shrink spanned
  cases shrunk with
  | nil => cases spanned
  | cons behind wide others =>
    rename_i token rest
    have firstEq : extent.first = token.extent.first := by
      rw [span] at spanned
      cases restSpan : span rest <;> rw [restSpan] at spanned <;> cases spanned <;> rfl
    rw [firstEq]
    exact ⟨behind, before, .cons (Int.le_refl _) wide others⟩

end Token.Follow

/-- Whether nodes follow each other between two offsets, and so do the nodes below each of them. -/
inductive Laid (file : String) : Int → Int → List Node → Prop
  | nil {start stop : Int} (le : start ≤ stop) : Laid file start stop []
  | cons {start stop : Int} {first last : Position} {node : Node} {rest : List Node}
      (located : node.location = some (.between file first last)) (behind : start ≤ first.offset)
      (inside : Laid file first.offset last.offset node.children)
      (others : Laid file last.offset stop rest) : Laid file start stop (node :: rest)

namespace Laid

variable {file : String} {start middle stop : Int} {nodes others result : List Node}

theorem le (laid : Laid file start stop nodes) : start ≤ stop := by
  induction laid with
  | nil le => exact le
  | cons _ behind _ _ inside others => exact Int.le_trans behind (Int.le_trans inside others)

theorem earlier (laid : Laid file middle stop nodes) (le : start ≤ middle) :
    Laid file start stop nodes := by
  cases laid with
  | nil further => exact .nil (Int.le_trans le further)
  | cons located behind inside others => exact .cons located (Int.le_trans le behind) inside others

theorem append (left : Laid file start middle nodes) (right : Laid file middle stop others) :
    Laid file start stop (nodes ++ others) := by
  induction left with
  | nil le => exact right.earlier le
  | cons located behind inside _ _ ih => exact .cons located behind inside (ih right)

theorem of_append (laid : Laid file start stop (nodes ++ others)) :
    ∃ middle, Laid file start middle nodes ∧ Laid file middle stop others := by
  induction nodes generalizing start with
  | nil => exact ⟨start, .nil (Int.le_refl _), laid⟩
  | cons node rest ih =>
    cases laid with
    | cons located behind inside further =>
      obtain ⟨middle, left, right⟩ := ih further
      exact ⟨middle, .cons located behind inside left, right⟩

theorem shrink (laid : Laid file start stop nodes) {final : Node} {location : Location}
    (finalEq : nodes.getLast? = some final) (located : final.location = some location) :
    ∃ last : Position, location.last = last.mark ∧ last.offset ≤ stop ∧
      Laid file start last.offset nodes := by
  induction nodes generalizing start with
  | nil => cases finalEq
  | cons node rest ih =>
    cases laid with
    | cons ownLocated behind inside others =>
      cases rest with
      | nil =>
        obtain rfl : node = final := Option.some.inj finalEq
        rw [located] at ownLocated
        cases ownLocated
        exact ⟨_, rfl, others.le, .cons located behind inside (.nil (Int.le_refl _))⟩
      | cons next further =>
        rw [List.getLast?_cons_cons] at finalEq
        obtain ⟨last, lastEq, before, laid⟩ := ih others finalEq
        exact ⟨last, lastEq, before, .cons ownLocated behind inside laid⟩

theorem regroup (laid : Laid file start stop nodes) (regrouped : Regrouped file nodes result) :
    Laid file start stop result := by
  cases regrouped with
  | opened before composite =>
    obtain ⟨middle, left, right⟩ := laid.of_append
    cases right with
    | cons located behind inside others => exact left.append ((inside.earlier behind).append others)
  | gathered before group composite _ _ children final startEq stopEq located =>
    obtain ⟨middle, left, right⟩ := laid.of_append
    obtain ⟨behindGroup, inner, after⟩ := right.of_append
    obtain ⟨last, lastEq, early, inner⟩ := inner.shrink final stopEq
    cases inner with
    | cons ownLocated behind inside others =>
      rw [startEq] at ownLocated
      cases ownLocated
      refine left.append (.cons ?_ behind ?_ (after.earlier early))
      · rw [located, lastEq]
        rfl
      · rw [children]
        exact .cons startEq (Int.le_refl _) inside others
  | followed composite _ children final startEq stopEq located =>
    cases laid with
    | cons ownLocated behind inside others =>
      rename_i first last
      rw [startEq] at ownLocated
      cases ownLocated
      obtain ⟨finish, finishEq, early, group⟩ := others.shrink final stopEq
      refine .cons startEq behind inside (.cons ?_ (Int.le_refl _) ?_ (.nil early))
      · rw [located, finishEq]
        rfl
      · rw [children]
        exact group

end Laid

theorem Grown.laid {file : String} {leaves : List Leaf} {nodes : List Node}
    (grown : Grown file leaves nodes) {start stop : Int}
    (follow : Token.Follow start stop (leaves.map Leaf.token)) : Laid file start stop nodes := by
  induction grown generalizing start stop with
  | nil => exact .nil follow.le
  | mark => exact .nil follow.le
  | term =>
    rename_i leaf isTerm
    cases follow with
    | cons behind wide others =>
      refine .cons (Token.location_term file leaf.token) behind ?_ (.nil others.le)
      rw [Token.children_term]
      exact .nil wide
  | append _ _ left right =>
    rw [map_append] at follow
    obtain ⟨middle, first, second⟩ := follow.of_append
    exact (left first).append (right second)
  | regroup _ regrouped ih => exact (ih follow).regroup regrouped
  | enclose composite _ spanned _ ih =>
    obtain ⟨behind, before, inside⟩ := follow.inside spanned
    refine .cons rfl behind ?_ (.nil before)
    rw [children_mk]
    exact ih inside

def Node.span? (node : Node) : Option (Int × Int) := do
  let location ← node.location
  return (← location.first.offset.whole?, ← location.last.offset.whole?)

namespace Node

theorem span?_between {node : Node} {file : String} {first last : Position}
    (located : node.location = some (.between file first last)) :
    node.span? = some (first.offset, last.offset) := by
  rw [span?, located]
  rfl

theorem span_unique {node : Node} {start stop otherStart otherStop : Int}
    (spans : node.span? = some (start, stop)) (other : node.span? = some (otherStart, otherStop)) :
    start = otherStart ∧ stop = otherStop := by
  rw [spans] at other
  cases other
  exact ⟨rfl, rfl⟩

/-- Whether a node that comes later in the order of the text is inside another node or behind it. -/
def Precedes (earlier later : Node) : Prop :=
  ∀ start stop laterStart laterStop, earlier.span? = some (start, stop) → later.span? = some (laterStart, laterStop) →
    start ≤ laterStart ∧ (laterStop ≤ stop ∨ stop ≤ laterStart)

end Node

namespace Laid

variable {file : String} {start stop : Int} {nodes : List Node}

theorem each (laid : Laid file start stop nodes) :
    ∀ node ∈ nodes.flatMap Node.descend, ∃ first last : Int, node.span? = some (first, last) ∧
      start ≤ first ∧ last ≤ stop ∧ Laid file first last node.children := by
  induction laid with
  | nil => simp
  | cons located behind inside others insideEach othersEach =>
    intro node member
    rw [flatMap_cons, descend_eq, cons_append, mem_cons, mem_append] at member
    rcases member with rfl | below | further
    · exact ⟨_, _, Node.span?_between located, behind, others.le, inside⟩
    · obtain ⟨first, last, spans, lower, upper, laid⟩ := insideEach node below
      exact ⟨first, last, spans, Int.le_trans behind lower, Int.le_trans upper others.le, laid⟩
    · obtain ⟨first, last, spans, lower, upper, laid⟩ := othersEach node further
      have shift := Int.le_trans behind inside.le
      exact ⟨first, last, spans, Int.le_trans shift lower, upper, laid⟩

theorem isChain (laid : Laid file start stop nodes) :
    nodes.IsChain fun left right => ∀ first last laterFirst laterLast, left.span? = some (first, last) →
      right.span? = some (laterFirst, laterLast) → last ≤ laterFirst := by
  induction nodes generalizing start with
  | nil => exact .nil
  | cons node rest ih =>
    cases laid with
    | cons located behind inside others =>
      cases rest with
      | nil => exact .singleton node
      | cons next further =>
        refine .cons_cons ?_ (ih others)
        intro first last laterFirst laterLast spans laterSpans
        cases others with
        | cons nextLocated nextBehind _ _ =>
          rw [(span_unique (Node.span?_between located) spans).2,
            (span_unique (Node.span?_between nextLocated) laterSpans).1] at nextBehind
          exact nextBehind

theorem pairwise (laid : Laid file start stop nodes) :
    (nodes.flatMap Node.descend).Pairwise Node.Precedes := by
  induction laid with
  | nil => exact .nil
  | cons located behind inside others insidePairs othersPairs =>
    rename_i start stop first last node rest
    have own := Node.span?_between located
    rw [flatMap_cons, descend_eq, cons_append, pairwise_cons, pairwise_append]
    refine ⟨fun later member => ?_, insidePairs, othersPairs, fun earlier below later further => ?_⟩
    · intro first last laterFirst laterLast spans laterSpans
      obtain ⟨rfl, rfl⟩ := span_unique own spans
      rcases mem_append.1 member with below | further
      · obtain ⟨_, _, found, lower, upper, _⟩ := inside.each later below
        obtain ⟨rfl, rfl⟩ := span_unique found laterSpans
        exact ⟨lower, .inl upper⟩
      · obtain ⟨_, _, found, lower, _, _⟩ := others.each later further
        obtain ⟨rfl, rfl⟩ := span_unique found laterSpans
        exact ⟨Int.le_trans inside.le lower, .inr lower⟩
    · intro first last laterFirst laterLast spans laterSpans
      obtain ⟨_, _, found, _, upper, children⟩ := inside.each earlier below
      obtain ⟨rfl, rfl⟩ := span_unique found spans
      obtain ⟨_, _, laterFound, lower, _, _⟩ := others.each later further
      obtain ⟨rfl, rfl⟩ := span_unique laterFound laterSpans
      have apart := Int.le_trans upper lower
      exact ⟨Int.le_trans children.le apart, .inr apart⟩

end Laid

/-- Whether each semicolon that was put in stands behind the token before it. -/
def Derivation.PutsBehind (derivation : Derivation) : Prop :=
  derivation.tokens.IsChain fun left right =>
    right.isInserted = true → left.extent.last.offset ≤ right.extent.first.offset

theorem Token.follow_of_isChain {tokens : List Token} {start stop : Int}
    (read : tokens.Pairwise fun left right =>
      right.isInserted = false → left.extent.last.offset ≤ right.extent.first.offset)
    (inserted : tokens.IsChain fun left right =>
      right.isInserted = true → left.extent.last.offset ≤ right.extent.first.offset)
    (bounds : ∀ token ∈ tokens, token.extent.first.offset ≤ token.extent.last.offset ∧
      token.extent.last.offset ≤ stop)
    (begins : ∀ token ∈ tokens.head?, start ≤ token.extent.first.offset) (le : start ≤ stop) :
    Follow start stop tokens := by
  induction tokens generalizing start with
  | nil => exact .nil le
  | cons token rest ih =>
    obtain ⟨wide, before⟩ := bounds token mem_cons_self
    obtain ⟨ahead, restRead⟩ := pairwise_cons.1 read
    refine .cons (begins token rfl) wide (ih restRead inserted.tail ?_ ?_ before)
    · exact fun other member => bounds other (mem_cons_of_mem _ member)
    · intro next first
      cases isInserted : next.isInserted with
      | false => exact ahead next (mem_of_head? first) isInserted
      | true => exact inserted.rel_head? first isInserted

instance (derivation : Derivation) : Decidable derivation.PutsBehind :=
  inferInstanceAs (Decidable (List.IsChain _ _))

theorem Account.follow {source : List Char} {seen leftOut : List Token} {place : Int}
    {derivation : Derivation} (account : Account source seen leftOut place derivation.tokens)
    (behind : derivation.PutsBehind) : Token.Follow 0 source.length derivation.tokens := by
  refine Token.follow_of_isChain account.behind behind ?_ ?_ (Int.natCast_nonneg _)
  · intro token member
    have isOf := account.isOf token member
    exact ⟨isOf.le, isOf.isIn.2.bounds.2⟩
  · intro token first
    exact (account.isOf token (mem_of_head? first)).isIn.1.bounds.1

namespace SourceFile

variable {file : SourceFile} {tolerant : Bool} {program : Node}

theorem laid_of_read (parsed : (file.parse tolerant).result = .ok program) {derivation : Derivation}
    (read : (Derivation.read file.text tolerant).result = .ok derivation)
    (behind : derivation.PutsBehind) :
    Laid file.name 0 file.text.toList.length [program] := by
  obtain ⟨found, body, foundRead, rfl, grown⟩ := exists_grown parsed
  obtain rfl : derivation = found := by
    rw [read] at foundRead
    exact Except.ok.inj foundRead
  obtain ⟨_, account⟩ := Derivation.accounts_read file.text tolerant derivation read
  have follow := account.follow behind
  rw [← derivation.map_token_leavesIn .program] at follow
  have inside := grown.laid follow
  have located : (Node.mk .program [Phrase.listOf body, .data (.ofString file.name)]
      file.span).location = some (.between file.name (.after []) (.after file.text.toList)) := by
    rw [← span_eq]
    rfl
  refine .cons located (Int.le_refl _) ?_ (.nil ?_)
  · rw [children_program, Position.offset_after, Position.offset_after]
    exact inside
  · exact Int.le_of_eq (Position.offset_after _)

theorem exists_of_read {holds : Derivation → Prop} [DecidablePred holds]
    (checked : (Derivation.read file.text tolerant).result.toOption.any (fun derivation =>
      holds derivation ∧ (derivation.toNode file.name).toOption.isSome) = true) :
    ∃ program derivation, (file.parse tolerant).result = .ok program ∧
      (Derivation.read file.text tolerant).result = .ok derivation ∧ holds derivation := by
  cases read : (Derivation.read file.text tolerant).result with
  | error =>
    rw [read] at checked
    cases checked
  | ok derivation =>
    rw [read] at checked
    obtain ⟨held, made⟩ := of_decide_eq_true checked
    cases nodeEq : derivation.toNode file.name with
    | error =>
      rw [nodeEq] at made
      cases made
    | ok node =>
      refine ⟨relocate file.span node, derivation, ?_, rfl, held⟩
      simp only [parse, read, nodeEq]

/-- All nodes of a syntax tree extend between two places of the text.  Where each semicolon that was
put in stands behind the token before it, every node starts before it ends and has the nodes below it
inside its extent, its children follow each other, the order of all nodes is that of the text and any
two of them are nested or do not overlap. -/
theorem layout_of_parse (parsed : (file.parse tolerant).result = .ok program) :
    (∀ place ∈ program.walk, ∃ start stop, place.node.span? = some (start, stop) ∧
      0 ≤ start ∧ start ≤ file.text.toList.length ∧ 0 ≤ stop ∧ stop ≤ file.text.toList.length) ∧
    ∀ derivation, (Derivation.read file.text tolerant).result = .ok derivation →
      derivation.PutsBehind →
        (∀ place ∈ program.walk, ∀ start stop, place.node.span? = some (start, stop) → start ≤ stop ∧
          (∀ child ∈ place.node.children, ∀ first last, child.span? = some (first, last) →
            start ≤ first ∧ last ≤ stop) ∧
          place.node.children.IsChain fun left right =>
            ∀ first last laterFirst laterLast, left.span? = some (first, last) →
              right.span? = some (laterFirst, laterLast) → last ≤ laterFirst) ∧
        (program.walk.map Occurrence.node).Pairwise Node.Precedes := by
  constructor
  · intro place member
    have descends : place.node ∈ [program].flatMap Node.descend := by
      rw [List.flatMap_singleton]
      exact List.mem_map_of_mem member
    have stands := standIn_of_parse parsed place.node descends
    obtain ⟨_, _, ⟨first, firstIn, rfl⟩, ⟨last, lastIn, rfl⟩, located⟩ := stands
    exact ⟨first.offset, last.offset, Node.span?_between located, firstIn.bounds.1, firstIn.bounds.2,
      lastIn.bounds.1, lastIn.bounds.2⟩
  · intro derivation read behind
    have laid := laid_of_read parsed read behind
    refine ⟨fun place member start stop spans => ?_, ?_⟩
    · have descends : place.node ∈ [program].flatMap Node.descend := by
        rw [List.flatMap_singleton]
        exact List.mem_map_of_mem member
      obtain ⟨_, _, found, _, _, children⟩ := laid.each place.node descends
      obtain ⟨rfl, rfl⟩ := Node.span_unique found spans
      refine ⟨children.le, fun child childMember first last childSpans => ?_, children.isChain⟩
      obtain ⟨_, _, childFound, lower, upper, _⟩ :=
        children.each child (List.mem_flatMap_of_mem childMember child.mem_descend)
      obtain ⟨rfl, rfl⟩ := Node.span_unique childFound childSpans
      exact ⟨lower, upper⟩
    · have pairs := laid.pairwise
      rw [List.flatMap_singleton] at pairs
      exact pairs

theorem layout_of_parse_declarators :
    ∃ program derivation, ((⟨"", "var a,b"⟩ : SourceFile).parse false).result = .ok program ∧
      (Derivation.read "var a,b" false).result = .ok derivation ∧
      derivation.tokens.any Token.isInserted = true ∧ derivation.PutsBehind ∧
      (program.walk.map Occurrence.node).Pairwise Node.Precedes := by
  have checked : (Derivation.read (SourceFile.text ⟨"", "var a,b"⟩) false).result.toOption.any
      (fun derivation => (derivation.tokens.any Token.isInserted ∧ derivation.PutsBehind) ∧
        (derivation.toNode "").toOption.isSome) = true := by
    decide +kernel
  obtain ⟨program, derivation, parsed, read, inserted, behind⟩ := exists_of_read checked
  exact ⟨program, derivation, parsed, read, inserted, behind,
    ((layout_of_parse parsed).2 derivation read behind).2⟩

/-- A semicolon that is put in is not always behind the token before it, and then a node can end
before its child does. -/
theorem child_ends_behind_parent :
    ∃ program, ((⟨"", "{!(a)}"⟩ : SourceFile).parse false).result = .ok program ∧
      ∃ place ∈ program.walk, ∃ child ∈ place.node.children, ∃ start stop first last,
        place.node.span? = some (start, stop) ∧ child.span? = some (first, last) ∧ stop < last := by
  have found : ((⟨"", "{!(a)}"⟩ : SourceFile).parse false).result.toOption.any (fun program =>
      ∃ place ∈ program.walk, ∃ child ∈ place.node.children,
        place.node.span? = some (1, 4) ∧ child.span? = some (1, 5)) = true := by
    decide +kernel
  obtain ⟨program, parsed, _, place, member, child, childMember, spans, childSpans⟩ :=
    Node.exists_isParsed found
  exact ⟨program, parsed, place, member, child, childMember, 1, 4, 1, 5, spans, childSpans,
    by decide⟩

end SourceFile

end Namesake
