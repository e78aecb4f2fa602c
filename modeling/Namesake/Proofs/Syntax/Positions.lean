import Mathlib.Data.List.Induction
import Namesake.Proofs.Syntax.Terms

/-!
Lines and columns are computed in three ways: the cursor counts them while it reads, the program
is put at what the whole text comes to, and a line index looks them up by offset.
-/

namespace Namesake

open Node List

variable {node : Node} {token : Token}
variable {source : String}

namespace LineIndex

theorem startsFrom_append (offset : Nat) (first second : List Char) :
    startsFrom offset (first ++ second) =
      startsFrom offset first ++ startsFrom (offset + first.length) second := by
  induction first generalizing offset with
  | nil => rfl
  | cons char rest ih =>
    have further : offset + (char :: rest).length = offset + 1 + rest.length := by
      rw [length_cons]
      omega
    rw [cons_append, startsFrom, startsFrom, ih, further]
    split <;> rfl

theorem mem_startsFrom {offset start : Nat} {chars : List Char}
    (member : start ∈ startsFrom offset chars) :
    offset < start ∧ start ≤ offset + chars.length := by
  induction chars generalizing offset with
  | nil => cases member
  | cons char rest ih =>
    rw [startsFrom] at member
    rw [length_cons]
    split at member
    · rcases mem_cons.1 member with rfl | later
      · omega
      · have bounds := ih later
        omega
    · have bounds := ih member
      omega

theorem filter_starts {before after : List Char} :
    (0 :: startsFrom 0 (before ++ after)).filter (fun (start : Nat) => (start : Int) ≤ before.length) =
      0 :: startsFrom 0 before := by
  rw [startsFrom_append, ← cons_append, filter_append]
  have kept : (0 :: startsFrom 0 before).filter
      (fun (start : Nat) => (start : Int) ≤ before.length) = 0 :: startsFrom 0 before := by
    refine filter_eq_self.2 fun start member => ?_
    rcases mem_cons.1 member with rfl | later
    · simp
    · have bounds := mem_startsFrom later
      simp only [decide_eq_true_eq]
      omega
  have dropped : (startsFrom (0 + before.length) after).filter
      (fun (start : Nat) => (start : Int) ≤ before.length) = [] := by
    refine filter_eq_nil_iff.2 fun start member => ?_
    have bounds := mem_startsFrom member
    simp only [decide_eq_true_eq]
    omega
  rw [kept, dropped, append_nil]

end LineIndex

namespace Position

theorem after_eq_starts (before : List Char) :
    after before = ⟨before.length, ((0 :: LineIndex.startsFrom 0 before).length : Nat),
      before.length - ((0 :: LineIndex.startsFrom 0 before).getLast?.getD 0 : Nat)⟩ := by
  induction before using List.reverseRecOn with
  | nil => rfl
  | append_singleton before char ih =>
    rw [after_append, foldl_cons, foldl_nil, ih, Cursor.step,
      LineIndex.startsFrom_append, length_append, LineIndex.startsFrom,
      LineIndex.startsFrom]
    by_cases newline : char = '\n'
    · rw [if_pos newline, if_pos newline, ← cons_append, List.getLast?_concat]
      simp
    · rw [if_neg newline, if_neg newline, append_nil]
      simp
      omega

theorem after_eq_count (before : List Char) :
    after before = ⟨before.length, before.count '\n' + 1,
      (before.reverse.takeWhile (· ≠ '\n')).length⟩ := by
  induction before using List.reverseRecOn with
  | nil => rfl
  | append_singleton before char ih =>
    rw [after_append, foldl_cons, foldl_nil, ih, Cursor.step, reverse_append,
      length_append, count_append]
    by_cases newline : char = '\n'
    · simp [newline]
    · simp [newline]

theorem IsIn.position_offset {source : String} {position : Position}
    (isIn : position.IsIn source.toList) :
    (LineIndex.ofSource source).position position.offset = position := by
  obtain ⟨before, ⟨after, sourceEq⟩, rfl⟩ := isIn
  rw [offset_after, LineIndex.position, LineIndex.ofSource, ← sourceEq, LineIndex.filter_starts,
    after_eq_starts, LineIndex.startOfLast, List.getLast?_cons]
  rfl

end Position

theorem SourceFile.span_eq (file : SourceFile) :
    file.span = .between file.name (.after []) (.after file.text.toList) := by
  rw [Position.after_eq_count file.text.toList]
  rfl

def Mark.IsIn (source : List Char) (mark : Mark) : Prop :=
  ∃ position : Position, position.IsIn source ∧ mark = position.mark

/-- Whether a node extends from one place of a text to another. -/
def Node.StandsIn (file : String) (source : List Char) (node : Node) : Prop :=
  ∃ first last : Mark, first.IsIn source ∧ last.IsIn source ∧
    node.location = some ⟨file, first, last⟩

/-- Whether all nodes of some trees extend from one place of a text to another. -/
def Node.AllStandIn (file : String) (source : List Char) (nodes : List Node) : Prop :=
  ∀ node ∈ nodes.flatMap Node.descend, node.StandsIn file source

namespace Node

variable {file : String} {source : List Char} {nodes others : List Node}

theorem StandsIn.marks (stands : node.StandsIn file source) {location : Location}
    (located : node.location = some location) :
    location.first.IsIn source ∧ location.last.IsIn source := by
  obtain ⟨first, last, firstIn, lastIn, locatedAt⟩ := stands
  rw [located] at locatedAt
  cases locatedAt
  exact ⟨firstIn, lastIn⟩

theorem allStandIn_nil : AllStandIn file source [] := by
  rintro _ ⟨⟩

theorem allStandIn_append :
    AllStandIn file source (nodes ++ others) ↔
      AllStandIn file source nodes ∧ AllStandIn file source others := by
  simp only [AllStandIn, flatMap_append, forall_mem_append]

theorem allStandIn_cons :
    AllStandIn file source (node :: nodes) ↔
      node.StandsIn file source ∧ AllStandIn file source node.children ∧
        AllStandIn file source nodes := by
  simp only [AllStandIn, flatMap_cons, descend_eq node, cons_append,
    forall_mem_cons, forall_mem_append]

theorem AllStandIn.of_mem (stand : AllStandIn file source nodes) (member : node ∈ nodes) :
    node.StandsIn file source :=
  stand node (mem_flatMap_of_mem member node.mem_descend)

end Node

section

variable {file : String} {source : List Char} {nodes result : List Node}

theorem Regrouped.standIn (regrouped : Regrouped file nodes result)
    (stand : Node.AllStandIn file source nodes) : Node.AllStandIn file source result := by
  cases regrouped with
  | opened before composite =>
    rw [allStandIn_append, allStandIn_cons] at stand
    rw [allStandIn_append, allStandIn_append]
    exact ⟨stand.1, stand.2.2⟩
  | gathered before middle composite _ _ children final startEq stopEq located =>
    rw [allStandIn_append, allStandIn_append] at stand
    obtain ⟨beforeStand, inner, afterStand⟩ := stand
    have firstIn := ((inner.of_mem mem_cons_self).marks startEq).1
    have lastIn := ((inner.of_mem (mem_of_getLast? final)).marks stopEq).2
    rw [allStandIn_append, allStandIn_cons, children]
    exact ⟨beforeStand, ⟨_, _, firstIn, lastIn, located⟩, inner, afterStand⟩
  | followed composite _ children final startEq stopEq located =>
    have firstIn := ((stand.of_mem mem_cons_self).marks startEq).2
    have lastIn := ((stand.of_mem (mem_cons_of_mem _ (mem_of_getLast? final))).marks stopEq).2
    rw [allStandIn_cons] at stand
    rw [allStandIn_cons, allStandIn_cons, children]
    exact ⟨stand.1, stand.2.1, ⟨_, _, firstIn, lastIn, located⟩, stand.2.2, allStandIn_nil⟩

theorem Token.location_term (file : String) (token : Token) :
    (token.term file).location = some (.between file token.extent.first token.extent.last) := by
  unfold Token.term
  dsimp only
  split <;> rfl

theorem Token.IsOf.standsIn (isOf : token.IsOf source) :
    Node.AllStandIn file source [token.term file] := by
  rw [allStandIn_cons, children_term]
  exact ⟨⟨_, _, ⟨_, isOf.isIn.1, rfl⟩, ⟨_, isOf.isIn.2, rfl⟩, location_term file token⟩,
    allStandIn_nil, allStandIn_nil⟩

theorem Grown.standIn {leaves : List Leaf} (grown : Grown file leaves nodes)
    (isOf : ∀ token ∈ leaves.map Leaf.token, token.IsOf source) :
    Node.AllStandIn file source nodes := by
  induction grown with
  | nil => exact allStandIn_nil
  | mark => exact allStandIn_nil
  | term => exact (isOf _ (by simp)).standsIn
  | append _ _ left right =>
    rw [map_append, forall_mem_append] at isOf
    exact allStandIn_append.2 ⟨left isOf.1, right isOf.2⟩
  | regroup _ regrouped ih => exact regrouped.standIn (ih isOf)
  | enclose composite _ spanned _ ih =>
    obtain ⟨⟨first, firstMember, firstEq⟩, last, lastMember, lastEq⟩ := Token.exists_of_span spanned
    have firstIn := (isOf first firstMember).isIn.1
    have lastIn := (isOf last lastMember).isIn.2
    rw [← firstEq] at firstIn
    rw [← lastEq] at lastIn
    rw [allStandIn_cons, children_mk]
    exact ⟨⟨_, _, ⟨_, firstIn, rfl⟩, ⟨_, lastIn, rfl⟩, rfl⟩, ih isOf, allStandIn_nil⟩

end

theorem Location.text_of_offsets {before inner after : List Char}
    (sourceEq : source.toList = before ++ (inner ++ after)) {place : Location}
    (first : place.first.offset = .int before.length)
    (last : place.last.offset = .int (before.length + inner.length)) :
    place.text source = String.ofList inner := by
  have total : source.toList.length = before.length + (inner.length + after.length) := by
    rw [sourceEq, length_append, length_append]
  have clipped (count : Nat) (small : count ≤ source.toList.length) :
      clip source.toList.length count = count := by
    unfold clip
    split <;> omega
  simp only [text, first, last, Data.whole?, Option.map_some, Option.getD_some]
  rw [← Int.natCast_add, clipped _ (by omega), clipped _ (by omega), sourceEq, drop_left,
    Nat.add_sub_cancel_left, take_left]

theorem Token.IsPiece.text_between (piece : token.IsPiece source.toList) (file : String) :
    (Location.between file token.extent.first token.extent.last).text source =
      String.ofList token.text := by
  obtain ⟨before, after, sourceEq, _, extentEq⟩ := piece
  apply Location.text_of_offsets sourceEq
  · rw [extentEq]
    exact congrArg Data.int (Position.offset_after before)
  · rw [extentEq, ← Int.natCast_add, ← length_append]
    exact congrArg Data.int (Position.offset_after (before ++ token.text))

theorem Token.IsPiece.spelling_term (piece : token.IsPiece source.toList) {file : String}
    {location : Location} (located : (token.term file).location = some location) :
    ((token.term file).kind = .identifier →
      (token.term file).dataAt? "name" = some (.ofString (location.text source))) ∧
    ((token.term file).kind = .literal →
      (token.term file).dataAt? "raw" = some (.ofString (location.text source))) := by
  rw [location_term] at located
  cases located
  rw [piece.text_between, Data.ofString, Text.ofString, String.toList_ofList]
  unfold Token.term
  dsimp only
  split <;> exact ⟨by rintro ⟨⟩ <;> rfl, by rintro ⟨⟩ <;> rfl⟩

namespace SourceFile

variable {file : SourceFile} {tolerant : Bool} {program : Node}

theorem standIn_of_parse (parsed : (file.parse tolerant).result = .ok program) :
    Node.AllStandIn file.name file.text.toList [program] := by
  obtain ⟨derivation, body, read, rfl, grown⟩ := exists_grown parsed
  obtain ⟨_, account⟩ := Derivation.accounts_read file.text tolerant derivation read
  have isOf := account.isOf
  rw [← derivation.map_token_leavesIn .program] at isOf
  have start : (Position.after []).IsIn file.text.toList := ⟨[], nil_prefix, rfl⟩
  have stop : (Position.after file.text.toList).IsIn file.text.toList := ⟨_, prefix_refl _, rfl⟩
  rw [allStandIn_cons, children_program, span_eq]
  exact ⟨⟨_, _, ⟨_, start, rfl⟩, ⟨_, stop, rfl⟩, rfl⟩, grown.standIn isOf, allStandIn_nil⟩

theorem exists_token_of_parse (parsed : (file.parse tolerant).result = .ok program)
    (member : node ∈ program.terms) :
    ∃ token : Token, token.IsPiece file.text.toList ∧ node = token.term file.name := by
  obtain ⟨derivation, body, read, rfl, grown⟩ := exists_grown parsed
  obtain ⟨_, account⟩ := Derivation.accounts_read file.text tolerant derivation read
  rw [terms_of_composite _ rfl, children_program, grown.terms_eq] at member
  obtain ⟨leaf, leafMember, rfl⟩ := mem_map.1 member
  obtain ⟨ofDerivation, isTerm⟩ := mem_filter.1 leafMember
  have isOf := account.isOf leaf.token (derivation.mem_tokens ofDerivation)
  exact ⟨leaf.token, isOf.isPiece (Leaf.not_isInserted_of_isTerm isOf isTerm), rfl⟩

/-- Every node of a syntax tree extends between two places of the text, each with the line and the
column that a line index gives it.  The text there is the name of an identifier and the spelling of
a literal. -/
theorem located_of_parse (parsed : (file.parse tolerant).result = .ok program) :
    ∀ place ∈ program.walk, ∃ start stop location,
      start ≤ file.text.toList.length ∧ stop ≤ file.text.toList.length ∧
      location = Location.between file.name ((LineIndex.ofSource file.text).position start)
        ((LineIndex.ofSource file.text).position stop) ∧
      place.node.location = some location ∧
      (place.node.kind = .identifier →
        place.node.dataAt? "name" = some (.ofString (location.text file.text))) ∧
      (place.node.kind = .literal →
        place.node.dataAt? "raw" = some (.ofString (location.text file.text))) := by
  intro place member
  have descends : place.node ∈ program.descend := List.mem_map_of_mem member
  have stands := standIn_of_parse parsed place.node (by simpa using descends)
  obtain ⟨_, _, ⟨first, firstIn, rfl⟩, ⟨last, lastIn, rfl⟩, located⟩ := stands
  have firstBounds := firstIn.bounds
  have lastBounds := lastIn.bounds
  refine ⟨first.offset.toNat, last.offset.toNat, _, by omega, by omega, rfl, ?_⟩
  rw [Int.toNat_of_nonneg firstBounds.1, Int.toNat_of_nonneg lastBounds.1,
    firstIn.position_offset, lastIn.position_offset]
  have spelled (isTerm : place.node.kind.isTerm = true) :
      (place.node.kind = .identifier → place.node.dataAt? "name" = some (.ofString
        ((Location.between file.name first last).text file.text))) ∧
      (place.node.kind = .literal → place.node.dataAt? "raw" = some (.ofString
        ((Location.between file.name first last).text file.text))) := by
    obtain ⟨token, piece, nodeEq⟩ :=
      exists_token_of_parse parsed (List.mem_filter.2 ⟨descends, isTerm⟩)
    rw [nodeEq] at located ⊢
    exact piece.spelling_term located
  refine ⟨located, fun isIdentifier => ?_, fun isLiteral => ?_⟩
  · exact (spelled (by rw [isIdentifier]; rfl)).1 isIdentifier
  · exact (spelled (by rw [isLiteral]; rfl)).2 isLiteral

theorem located_of_parse_second_line :
    ∃ program, ((⟨"", "/*\n*/'a'"⟩ : SourceFile).parse false).result = .ok program ∧
      ∃ place ∈ program.walk, place.node.kind = .literal ∧ ∃ start stop location,
        location = Location.between "" ((LineIndex.ofSource "/*\n*/'a'").position start)
          ((LineIndex.ofSource "/*\n*/'a'").position stop) ∧
        place.node.location = some location ∧
        place.node.dataAt? "raw" = some (.ofString (location.text "/*\n*/'a'")) := by
  have found : ((⟨"", "/*\n*/'a'"⟩ : SourceFile).parse false).result.toOption.any
      (fun program => ∃ place ∈ program.walk, place.node.kind = .literal) = true := by
    decide +kernel
  obtain ⟨program, parsed, _, place, member, isLiteral⟩ := Node.exists_isParsed found
  obtain ⟨start, stop, location, _, _, locationEq, located, _, raw⟩ :=
    located_of_parse parsed place member
  exact ⟨program, parsed, place, member, isLiteral, start, stop, location, locationEq, located,
    raw isLiteral⟩

end SourceFile

end Namesake
