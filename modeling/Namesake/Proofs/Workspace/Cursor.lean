import Namesake.Proofs.Syntax.Enclosure
import Namesake.Proofs.Workspace.Ranges

/-!
The search for the node at an offset finds an identifier or a literal at each of its offsets,
except that at its start it may find a node that ends there.
-/

namespace Namesake

namespace Data

variable {data : Data} {value : Int}

theorem atMost_int (whole : data.whole? = some value) (offset : Int) :
    data.atMost (.int offset) = decide (value ≤ offset) := by
  cases data <;> cases whole <;> simp [atMost, fraction?, whole?]

theorem int_atMost (whole : data.whole? = some value) (offset : Int) :
    atMost (.int offset) data = decide (offset ≤ value) := by
  cases data <;> cases whole <;> simp [atMost, fraction?, whole?]

end Data

theorem Node.covers_iff {node : Node} {first last : Int} (spans : node.span? = some (first, last))
    (offset : Int) : node.covers (.int offset) = true ↔ first ≤ offset ∧ offset ≤ last := by
  cases located : node.location with
  | none =>
    rw [span?, located] at spans
    cases spans
  | some location =>
    obtain ⟨firstWhole, lastWhole⟩ := whole?_of_span? spans located
    rw [covers, located]
    dsimp only
    rw [Location.contains, Data.atMost_int firstWhole, Data.int_atMost lastWhole,
      Bool.and_eq_true, decide_eq_true_eq, decide_eq_true_eq]

section Search

variable {tree token : Occurrence} {start stop offset : Int}

theorem Enclosing.nodeAtOffset?_iff (enclosing : Enclosing [tree.node]) (member : token ∈ tree.walk)
    (isTerm : token.node.kind.isTerm = true) (noChildren : token.children = [])
    (spans : token.node.span? = some (start, stop)) (lower : start ≤ offset)
    (upper : offset ≤ stop) :
    Node.nodeAtOffset? tree (.int offset) = some token ↔
      ∀ elder ∈ tree.elders token.address, ∀ first last,
        elder.node.span? = some (first, last) → last < offset := by
  have covered : ∀ outer ∈ tree.walk, token ∈ outer.walk →
      outer.node.covers (.int offset) = true := by
    intro outer outerMember below
    obtain ⟨first, last, outerSpans, before, behind⟩ :=
      enclosing.within_outer isTerm spans outerMember below
    exact (Node.covers_iff outerSpans offset).2 ⟨by omega, by omega⟩
  have self : tree ∈ tree.walk := by
    rw [Occurrence.walk_eq]
    exact List.mem_cons_self
  rw [Node.nodeAtOffset?, if_pos (covered tree self member), Option.some.injEq,
    Occurrence.innermost_eq_iff _ member noChildren covered]
  refine forall₂_congr fun elder elderMember => ?_
  obtain ⟨first, last, elderSpans, early, _⟩ :=
    enclosing.elder_le member isTerm spans elder elderMember
  rw [elderSpans, Bool.eq_false_iff, ne_eq, Node.covers_iff elderSpans]
  constructor
  · rintro uncovered _ _ ⟨⟩
    omega
  · intro ended covers
    have less := ended first last rfl
    omega

theorem Enclosing.nodeAtOffset?_inside (enclosing : Enclosing [tree.node])
    (member : token ∈ tree.walk) (isTerm : token.node.kind.isTerm = true)
    (noChildren : token.children = []) (spans : token.node.span? = some (start, stop))
    (lower : start < offset) (upper : offset ≤ stop) :
    Node.nodeAtOffset? tree (.int offset) = some token := by
  refine (enclosing.nodeAtOffset?_iff member isTerm noChildren spans (by omega) upper).2 ?_
  intro elder elderMember first last elderSpans
  obtain ⟨_, _, found, _, early⟩ := enclosing.elder_le member isTerm spans elder elderMember
  obtain ⟨rfl, rfl⟩ := Node.span_unique found elderSpans
  omega

end Search

/-- Whether a token names something: it is an identifier, or a string that names a property. -/
def Occurrence.NamesIn (root : Node) (token : Occurrence) : Prop :=
  token.node.kind = .identifier ∨
    ∃ spelling base, token.tokenName? = some (.text spelling) ∧ PropertyOf root base token

namespace Node

theorem usageIn?_identifier (root : Node) (parent : Occurrence) (step : Step) (name : Name) :
    ∃ usage, usageIn? root parent step .identifier name = some usage := by
  unfold usageIn?
  dsimp only
  split
  all_goals
    repeat' split
    all_goals first | exact ⟨_, rfl⟩ | contradiction

theorem Shaped.exists_usage_of_namesIn {root : Node} (shaped : root.Shaped) {token : Occurrence}
    (inside : token.IsIn root) (names : token.NamesIn root) :
    ∃ usage, root.usage? token = .ok (some usage) := by
  rcases names with isIdentifier | ⟨spelling, base, named, isProperty⟩
  · have inner := shaped.inner inside (by simp [isIdentifier]) (by simp [isIdentifier])
    obtain ⟨step, parent, addressEq, parentIn, _, notCollection⟩ :=
      shaped.exists_parent inside inner
    obtain ⟨_, _, _, fits⟩ := inner
    obtain ⟨spelling, location, nodeEq⟩ := fits.identifier isIdentifier
    have named : token.tokenName? = some (.ofField token.address (.data (.text spelling))) := by
      rw [Occurrence.tokenName?, nodeEq]
      rfl
    rw [shaped.usage? inside addressEq parentIn notCollection named, isIdentifier]
    obtain ⟨usage, used⟩ := usageIn?_identifier root parent step _
    exact ⟨usage, congrArg Except.ok used⟩
  · exact ⟨_, isProperty.usage? shaped named⟩

end Node

/-- At an offset where a token that names something is found, it is known what it names and which
tokens are renamed with it. -/
theorem Workspace.Built.recognises {workspace : Workspace} (built : workspace.Built) {file : String}
    {offset : Data} {token : Occurrence} (found : workspace.token? file offset = some token)
    (names : token.NamesIn workspace.codebase.root) :
    ∃ kind outcome, workspace.classify file offset = .ok (some kind) ∧
      workspace.renameAt file offset = .ok (some outcome) := by
  have analysed := built.analysed
  obtain ⟨shaped, inference, inferEq, covers⟩ := analysed.exists_covering
  have inside := analysed.isIn_of_token? found
  obtain ⟨usage, used⟩ := shaped.exists_usage_of_namesIn inside names
  obtain ⟨target, spelling, _, targetFound⟩ := Codebase.exists_target? shaped inside covers used
  obtain ⟨outcome, renamed, _⟩ :=
    Codebase.rename?_of_target shaped inferEq covers inside targetFound
  refine ⟨target.kind, outcome, ?_, ?_⟩
  · rw [classify, found]
    exact Codebase.classify?_of_target inferEq targetFound
  · rw [renameAt, found]
    exact renamed

namespace SourceFile

theorem term_of_parse {file : SourceFile} {tolerant : Bool} {program : Node}
    (parsed : (file.parse tolerant).result = .ok program) {address : Address} {token : Occurrence}
    (member : token ∈ (⟨address, program⟩ : Occurrence).walk)
    (isTerm : token.node.kind.isTerm = true) :
    token.children = [] ∧ ∃ start stop, token.node.span? = some (start, stop) ∧ start < stop := by
  have descends : token.node ∈ program.descend := by
    rw [← Occurrence.map_node_walk ⟨address, program⟩]
    exact List.mem_map_of_mem member
  obtain ⟨lexeme, piece, nodeEq⟩ :=
    exists_token_of_parse parsed (List.mem_filter.2 ⟨descends, isTerm⟩)
  have located := lexeme.location_term file.name
  rw [← nodeEq] at located
  refine ⟨?_, _, _, Node.span?_between located, piece.lt⟩
  rw [← List.map_eq_nil_iff (f := Occurrence.node), token.map_node_children, nodeEq,
    Token.children_term]

/-- The search in a syntax tree finds every identifier and every literal at each offset behind its
start, up to its end.  At its start it finds it exactly if no node left of the way to it ends there.
Wherever the search finds a token that names something, every workspace with that tree knows what
the token names and which tokens are renamed with it. -/
theorem finds_terms {file : SourceFile} {tolerant : Bool} {program : Node}
    (parsed : (file.parse tolerant).result = .ok program) {address : Address} {token : Occurrence}
    (member : token ∈ (⟨address, program⟩ : Occurrence).walk)
    (isTerm : token.node.kind.isTerm = true) :
    ∃ start stop, token.node.span? = some (start, stop) ∧ start < stop ∧
      (∀ offset, start < offset → offset ≤ stop →
        Node.nodeAtOffset? ⟨address, program⟩ (.int offset) = some token) ∧
      (Node.nodeAtOffset? ⟨address, program⟩ (.int start) = some token ↔
        ∀ elder ∈ Occurrence.elders ⟨address, program⟩ token.address, ∀ first last,
          elder.node.span? = some (first, last) → last ≠ start) ∧
      ∀ workspace : Workspace, workspace.Built →
        workspace.program? file.name = some ⟨address, program⟩ →
        token.NamesIn workspace.codebase.root →
        ∀ offset, Node.nodeAtOffset? ⟨address, program⟩ (.int offset) = some token →
          ∃ kind outcome, workspace.classify file.name (.int offset) = .ok (some kind) ∧
            workspace.renameAt file.name (.int offset) = .ok (some outcome) := by
  obtain ⟨noChildren, start, stop, spans, less⟩ := term_of_parse parsed member isTerm
  have enclosing := enclosing_of_parse parsed
  refine ⟨start, stop, spans, less, fun offset => ?_, ?_,
    fun workspace built found names offset => ?_⟩
  · exact Enclosing.nodeAtOffset?_inside enclosing member isTerm noChildren spans
  · rw [Enclosing.nodeAtOffset?_iff enclosing member isTerm noChildren spans (Int.le_refl _)
      (Int.le_of_lt less)]
    refine forall₂_congr fun elder elderMember => forall₃_congr fun first last elderSpans => ?_
    obtain ⟨_, _, foundSpans, _, early⟩ :=
      Enclosing.elder_le enclosing member isTerm spans elder elderMember
    obtain ⟨rfl, rfl⟩ := Node.span_unique foundSpans elderSpans
    omega
  · intro atOffset
    refine built.recognises ?_ names
    rw [Workspace.token?, found]
    exact atOffset

theorem exists_second_identifier :
    ∃ program token, ((⟨"", "a;b"⟩ : SourceFile).parse false).result = .ok program ∧
      token ∈ (⟨[], program⟩ : Occurrence).walk ∧ token.node.kind = .identifier ∧
      token.node.span? = some (2, 3) ∧
      ∀ found, Node.nodeAtOffset? ⟨[], program⟩ (.int 2) = some found →
        found.node.kind = .expressionStatement := by
  have checked : ((⟨"", "a;b"⟩ : SourceFile).parse false).result.toOption.any (fun program =>
      (∃ token ∈ program.walk, token.node.kind = .identifier ∧ token.node.span? = some (2, 3)) ∧
      ∀ found ∈ Node.nodeAtOffset? ⟨[], program⟩ (.int 2),
        found.node.kind = .expressionStatement) = true := by
    decide +kernel
  obtain ⟨program, parsed, _, ⟨token, member, isToken, spans⟩, other⟩ := Node.exists_isParsed checked
  exact ⟨program, token, parsed, member, isToken, spans, other⟩

/-- In `a;b` the second identifier is found at its end. -/
theorem finds_terms_second :
    ∃ program token, ((⟨"", "a;b"⟩ : SourceFile).parse false).result = .ok program ∧
      token ∈ (⟨[], program⟩ : Occurrence).walk ∧ token.node.kind.isTerm = true ∧
      token.node.span? = some (2, 3) ∧
      Node.nodeAtOffset? ⟨[], program⟩ (.int 3) = some token := by
  obtain ⟨program, token, parsed, member, isIdentifier, spans, _⟩ := exists_second_identifier
  have isTerm : token.node.kind.isTerm = true := by
    rw [isIdentifier]
    rfl
  obtain ⟨start, stop, ownSpans, _, inside, _⟩ := finds_terms parsed member isTerm
  rw [spans] at ownSpans
  cases ownSpans
  exact ⟨program, token, parsed, member, isTerm, spans, inside 3 (by omega) (Int.le_refl _)⟩

/-- In `a;b` the second identifier is not found at its start: the first statement ends there. -/
theorem second_missed_at_start :
    ∃ program token, ((⟨"", "a;b"⟩ : SourceFile).parse false).result = .ok program ∧
      token ∈ (⟨[], program⟩ : Occurrence).walk ∧ token.node.kind = .identifier ∧
      token.node.span? = some (2, 3) ∧
      Node.nodeAtOffset? ⟨[], program⟩ (.int 2) ≠ some token := by
  obtain ⟨program, token, parsed, member, isIdentifier, spans, isStatement⟩ :=
    exists_second_identifier
  refine ⟨program, token, parsed, member, isIdentifier, spans, fun same => ?_⟩
  have impossible := isStatement token same
  rw [isIdentifier] at impossible
  cases impossible

end SourceFile

end Namesake
