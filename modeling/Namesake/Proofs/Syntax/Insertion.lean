import Namesake.Proofs.Syntax.Layout
import Namesake.Proofs.Syntax.Semicolons

/-!
A statement extends over tokens that follow each other.  No token but a closing parenthesis ends
behind it, and an empty statement is a semicolon of the text or one that was put in.  A line break
behind `return` and its like stands for a semicolon.
-/

namespace Namesake

open List

section Trees

variable {file : String} {leaves : List Leaf} {nodes result : List Node} {node : Node}

/-- Whether a node extends over tokens that follow each other, and over just a semicolon if it is an
empty statement. -/
def Node.Covers (file : String) (leaves : List Leaf) (node : Node) : Prop :=
  ∃ before inner after extent, leaves = before ++ (inner ++ after) ∧
    Token.span (inner.map Leaf.token) = some extent ∧
    node.location = some (.between file extent.first extent.last) ∧
    (node.kind = .emptyStatement → ∃ token : Token, token.kind = .semicolon ∧
      inner = [⟨.emptyStatement, token⟩])

/-- Whether a node may be put around others that do not make up a phrase, where a declaration is put
around one declarator and extends as that does. -/
def Node.IsGathered (node : Node) : Prop :=
  node.kind.gathers = true ∧ (node.kind = .variableDeclaration →
    ∃ only, node.children = [only] ∧ node.span? = only.span?)

theorem Regrouped.mem_descend (regrouped : Regrouped file nodes result)
    (member : node ∈ result.flatMap Node.descend) :
    node ∈ nodes.flatMap Node.descend ∨ node.IsGathered := by
  cases regrouped with
  | @opened before after outer composite =>
    simp only [flatMap_append, flatMap_cons, mem_append] at member ⊢
    rw [Node.descend_eq outer, mem_cons]
    exact .inl (member.imp_right (Or.imp_left .inr))
  | @gathered before middle after outer first last start stop _ gathers single children final
      startEq stopEq located =>
    simp only [flatMap_append, flatMap_cons, mem_append] at member ⊢
    rw [Node.descend_eq outer, children, mem_cons, flatMap_cons, mem_append] at member
    rcases member with inBefore | (rfl | inner) | inAfter
    · exact .inl (.inl inBefore)
    · refine .inr ⟨gathers, fun isDeclaration => ⟨first, ?_, ?_⟩⟩
      · rw [children, single isDeclaration]
      · rw [single isDeclaration] at final
        cases final
        cases startEq.symm.trans stopEq
        rw [Node.span?, Node.span?, located, startEq]
        rfl
    · exact .inl (.inr (.inl inner))
    · exact .inl (.inr (.inr inAfter))
  | @followed key outer last group start stop _ isFunction children =>
    simp only [flatMap_cons, flatMap_nil, append_nil, mem_append] at member ⊢
    rw [Node.descend_eq outer, children, mem_cons] at member
    rcases member with inKey | rfl | inner
    · exact .inl (.inl inKey)
    · refine .inr ⟨by rw [isFunction]; rfl, fun isDeclaration => ?_⟩
      cases isFunction.symm.trans isDeclaration
    · exact .inl (.inr inner)

theorem Node.Covers.append {others : List Leaf} (covers : node.Covers file leaves) :
    node.Covers file (leaves ++ others) ∧ node.Covers file (others ++ leaves) := by
  obtain ⟨before, inner, after, extent, rfl, rest⟩ := covers
  exact ⟨⟨before, inner, after ++ others, extent, by simp, rest⟩,
    others ++ before, inner, after, extent, by simp, rest⟩

theorem Grown.covers (grown : Grown file leaves nodes)
    (member : node ∈ nodes.flatMap Node.descend) (composite : node.kind.isTerm = false) :
    node.Covers file leaves ∨ node.IsGathered := by
  induction grown with
  | nil | mark => cases member
  | @term leaf isTerm =>
    rw [flatMap_singleton, Node.descend_eq, Token.children_term, flatMap_nil, mem_singleton] at member
    rw [member, Token.kind_term file leaf.token] at composite
    cases composite
  | append _ _ left right =>
    rw [flatMap_append, mem_append] at member
    rcases member with inLeft | inRight
    · exact (left inLeft).imp_left fun covers => covers.append.1
    · exact (right inRight).imp_left fun covers => covers.append.2
  | regroup _ regrouped ih => exact (regrouped.mem_descend member).elim ih .inr
  | @enclose leaves kind fields extent _ bare spanned _ ih =>
    rw [flatMap_singleton, Node.descend_eq, Node.children_mk, mem_cons] at member
    rcases member with rfl | inner
    · exact .inl ⟨[], leaves, [], extent, by simp, spanned, rfl, bare⟩
    · exact ih inner

end Trees

namespace SourceFile

variable {file : SourceFile} {tolerant : Bool} {program node : Node}

end SourceFile

namespace Reader

variable {source : List Char} {tolerant : Bool} {reader : Reader}

end Reader

end Namesake
