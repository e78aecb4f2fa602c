import Namesake.Proofs.Syntax.Tolerance
import Namesake.Proofs.Tree.Parsed

/-!
The identifiers and literals of a syntax tree are, in their order, what the tokens of the text
that are terms become.
-/

namespace Namesake

open List

namespace Node

theorem terms_eq (node : Node) :
    node.terms = (if node.kind.isTerm then [node] else []) ++ node.children.flatMap Node.terms := by
  rw [terms, descend_eq, filter_cons, filter_flatMap]
  cases node.kind.isTerm <;> rfl

theorem terms_of_composite (node : Node) (composite : node.kind.isTerm = false) :
    node.terms = node.children.flatMap Node.terms := by
  rw [terms_eq, composite]
  rfl

end Node

theorem Token.kind_term (file : String) (token : Token) : (token.term file).kind.isTerm = true := by
  unfold Token.term
  dsimp only
  split <;> rfl

theorem Token.children_term (file : String) (token : Token) : (token.term file).children = [] := by
  unfold Token.term
  dsimp only
  split <;> rfl

theorem Token.terms_term (file : String) (token : Token) :
    (token.term file).terms = [token.term file] := by
  rw [Node.terms_eq, kind_term, children_term]
  rfl

theorem Regrouped.terms_eq {file : String} {nodes result : List Node}
    (regrouped : Regrouped file nodes result) :
    result.flatMap Node.terms = nodes.flatMap Node.terms := by
  cases regrouped with
  | opened before composite =>
    simp only [flatMap_append, flatMap_cons, Node.terms_of_composite _ composite]
  | gathered before middle composite _ _ children =>
    simp only [flatMap_append, flatMap_cons, Node.terms_of_composite _ composite, children]
  | followed composite _ children =>
    simp only [flatMap_cons, flatMap_nil, append_nil, Node.terms_of_composite _ composite, children]

namespace Grown

variable {file : String} {leaves : List Leaf} {nodes : List Node}

theorem terms_eq (grown : Grown file leaves nodes) :
    nodes.flatMap Node.terms =
      (leaves.filter Leaf.isTerm).map fun leaf => leaf.token.term file := by
  induction grown with
  | nil => rfl
  | mark isMark =>
    rw [filter_cons, isMark]
    rfl
  | term isTerm =>
    rw [filter_cons, isTerm, flatMap_singleton, Token.terms_term]
    rfl
  | append _ _ left right =>
    rw [flatMap_append, filter_append, map_append, left, right]
  | regroup _ regrouped ih => rw [regrouped.terms_eq, ih]
  | enclose composite _ _ _ ih =>
    rw [flatMap_singleton, Node.terms_of_composite (.mk _ _ _) composite, Node.children_mk]
    exact ih

end Grown

theorem Leaf.not_isInserted_of_isTerm {source : List Char} {leaf : Leaf}
    (isOf : leaf.token.IsOf source) (isTerm : leaf.isTerm = true) :
    leaf.token.isInserted = false := by
  obtain ⟨phrase, token⟩ := leaf
  cases isOf with
  | read piece => exact piece.not_isInserted
  | inserted => cases isTerm

namespace SourceFile

def tokens (file : SourceFile) (tolerant : Bool) : List Token :=
  (Reader.ofSource file.text).takenAll file.text.toList tolerant

def tokensLeftOut (file : SourceFile) (tolerant : Bool) : List Token :=
  (file.parse tolerant).notices.filterMap Notice.token?

theorem tokensLeftOut_strict (file : SourceFile) : file.tokensLeftOut false = [] := by
  have losses := Reader.losses_run_strict file.text.toList (.ofSource file.text)
  have notices : (file.parse false).notices = [] := reverse_eq_nil_iff.1 (Prod.mk.inj losses).2
  rw [tokensLeftOut, notices]
  rfl

theorem leaves_of_read {file : SourceFile} {tolerant : Bool} {derivation : Derivation}
    (read : (Derivation.read file.text tolerant).result = .ok derivation) :
    (derivation.leaves.filter fun leaf => !leaf.token.isInserted).map
        (fun leaf => leaf.token.asRead) =
      (file.tokens tolerant).filter fun token => token ∉ file.tokensLeftOut tolerant := by
  obtain ⟨place, account⟩ := Derivation.accounts_read file.text tolerant derivation read
  have kept := account.kept
  rw [← derivation.map_token_leavesIn .program, filter_map, map_map] at kept
  exact kept

/-- The identifiers and literals of a syntax tree correspond, one to one and in order, to the tokens
of the text that are terms, those left out excepted.  The tokens of the text are pieces of it that
follow each other, and only a tolerant reader leaves some out. -/
theorem terms_of_parse {file : SourceFile} {tolerant : Bool} {program : Node}
    (parsed : (file.parse tolerant).result = .ok program) :
    (∀ token ∈ file.tokens tolerant, token.IsPiece file.text.toList) ∧
      ((file.tokens tolerant).Pairwise fun left right =>
        left.extent.last.offset ≤ right.extent.first.offset) ∧
      (tolerant = false → file.tokensLeftOut tolerant = []) ∧
      ∃ derivation, (Derivation.read file.text tolerant).result = .ok derivation ∧
        ((derivation.leaves.filter fun leaf => !leaf.token.isInserted).map
            fun leaf => leaf.token.asRead) =
          ((file.tokens tolerant).filter fun token => token ∉ file.tokensLeftOut tolerant) ∧
        program.terms =
          ((derivation.leaves.filter fun leaf => !leaf.token.isInserted).filter Leaf.isTerm).map
            fun leaf => leaf.token.term file.name := by
  obtain ⟨derivation, body, read, rfl, grown⟩ := exists_grown parsed
  obtain ⟨place, account⟩ := Derivation.accounts_read file.text tolerant derivation read
  refine ⟨account.pieces, account.ordered, ?_, derivation, read, leaves_of_read read, ?_⟩
  · rintro rfl
    exact tokensLeftOut_strict file
  · have consumed : (derivation.leaves.filter fun leaf => !leaf.token.isInserted).filter
        Leaf.isTerm = derivation.leaves.filter Leaf.isTerm := by
      rw [List.filter_filter]
      refine List.filter_congr fun leaf member => ?_
      have isOf := account.isOf leaf.token (derivation.mem_tokens member)
      cases isTerm : leaf.isTerm with
      | false => rfl
      | true =>
        rw [Leaf.not_isInserted_of_isTerm isOf isTerm]
        rfl
    rw [consumed, ← grown.terms_eq, Node.terms_of_composite _ rfl, children_program]

theorem terms_of_parse_recovered :
    ∃ program, ((⟨"", "var a]"⟩ : SourceFile).parse true).result = .ok program ∧
      (SourceFile.tokensLeftOut ⟨"", "var a]"⟩ true).map Token.kind = [.rightBracket] ∧
      program.terms.map Node.kind = [.identifier] ∧
      ∃ derivation, (Derivation.read "var a]" true).result = .ok derivation ∧
        ((derivation.leaves.filter fun leaf => !leaf.token.isInserted).map
            fun leaf => leaf.token.asRead) =
          ((SourceFile.tokens ⟨"", "var a]"⟩ true).filter fun token =>
            token ∉ SourceFile.tokensLeftOut ⟨"", "var a]"⟩ true) ∧
        program.terms =
          ((derivation.leaves.filter fun leaf => !leaf.token.isInserted).filter Leaf.isTerm).map
            fun leaf => leaf.token.term "" := by
  have found : ((⟨"", "var a]"⟩ : SourceFile).parse true).result.toOption.any
      (fun program => program.terms.map Node.kind = [.identifier]) = true ∧
      (SourceFile.tokensLeftOut ⟨"", "var a]"⟩ true).map Token.kind = [.rightBracket] := by
    decide +kernel
  obtain ⟨program, parsed, _, kinds⟩ := Node.exists_isParsed found.1
  exact ⟨program, parsed, found.2, kinds, (terms_of_parse parsed).2.2.2⟩

end SourceFile

end Namesake
