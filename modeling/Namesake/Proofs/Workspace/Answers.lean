import Namesake.Proofs.Renaming.Partition
import Namesake.Proofs.Tree.Offset
import Namesake.Proofs.Tree.Pairing
import Namesake.Workspace

/-!
Scope analysis, inference and renaming find in a workspace of source files all they look for, so
no question fails.
-/

namespace Namesake

open List

namespace Codebase

variable {codebase : Codebase}

section Shaped

variable (shaped : codebase.root.Shaped) {inference : Inference}
  (inferEq : codebase.infer = .ok inference) (covers : inference.typing.Covers codebase.root)

include shaped inferEq covers

theorem exists_renameProperty (spelling : Text) :
    ∃ outcome places, codebase.renameProperty (.text spelling) = .ok outcome ∧
      codebase.ranges outcome.groups = .ok places :=
  ⟨_, _, renameProperty_eq shaped inferEq covers spelling,
    ranges_eq_of_targets shaped fun _ => exists_target_of_mem_classGroups⟩

theorem exists_answer {token : Occurrence} (inside : token.IsIn codebase.root) :
    ∃ answer : Option Renaming, codebase.classify? token = .ok (answer.map Renaming.kind) ∧
      codebase.rename? token = .ok answer ∧
      ∀ outcome ∈ answer, ∃ places, codebase.ranges outcome.groups = .ok places := by
  obtain ⟨usage, used⟩ := shaped.exists_usage? inside
  cases usage with
  | none =>
    refine ⟨none, ?_, ?_, by simp⟩
    · rw [classify?, used]
      rfl
    · rw [rename?, used]
      rfl
  | some usage =>
    obtain ⟨target, spelling, _, found⟩ := exists_target? shaped inside covers used
    obtain ⟨outcome, renamed, kindEq, _, groupsEq⟩ :=
      rename?_of_target shaped inferEq covers inside found
    refine ⟨some outcome, ?_, renamed, ?_⟩
    · rw [classify?_of_target inferEq found, Option.map_some, kindEq]
    · intro other same
      cases same
      rw [groupsEq]
      exact ⟨_, ranges_eq_of_targets shaped fun _ => exists_target_of_mem_groupsOf⟩

end Shaped

end Codebase

namespace Node

theorem Fits.program {node : Node} {file : String} (fits : node.Fits file .program) :
    ∃ (statements : List Node) (name : Text) (location : Option Location),
      node = .mk .program [.list (statements.map .node), .data (.text name)] location ∧
        Located file location ∧ ∀ statement ∈ statements, statement.Fits file .statement := by
  obtain ⟨kind, fields, location⟩ := node
  obtain rfl : kind = .program := mem_singleton.1 fits.kind_mem
  obtain ⟨body, name, fieldsEq, bodyFits, nameFits⟩ := (fits.allFit_of rfl).two
  obtain rfl : fields = [body, name] := fieldsEq
  obtain ⟨statements, rfl, statementsFit⟩ := Field.fits_many.1 bodyFits
  obtain ⟨spelling, rfl⟩ := Field.fits_text.1 nameFits
  exact ⟨statements, spelling, location, rfl, fits.located, statementsFit⟩

theorem Fits.withFile {node : Node} {file : String} (fits : node.Fits file .program)
    (name : String) : (node.withFile name).Fits file .program := by
  obtain ⟨statements, old, location, rfl, located, statementsFit⟩ := fits.program
  refine ⟨mem_singleton_self _, located, _, mem_singleton_self _, ?_⟩
  rw [Field.allFit_cons]
  refine ⟨_, _, rfl, Field.fits_many.2 ⟨statements, rfl, statementsFit⟩, ?_⟩
  rw [Field.allFit_cons]
  exact ⟨_, _, rfl, Field.fits_text.2 ⟨_, rfl⟩, Field.allFit_nil.2 rfl⟩

theorem scopes_collection_append (programs : List Node) (program : Node) :
    (collection (programs ++ [program])).scopes =
      (collection programs).scopes ++ Scopes.below ⟨[⟨0, some programs.length⟩], program⟩ := by
  have ofCollection (trees : List Node) : (collection trees).scopes =
      (itemChildren 0 (trees.map .node)).flatMap
        fun entry => Scopes.below ⟨[entry.1], entry.2⟩ := by
    refine (Scopes.below_eq ⟨[], collection trees⟩).trans ?_
    rw [Occurrence.children, steps_collection, flatMap_map]
    rfl
  rw [ofCollection, ofCollection, itemChildren, itemChildren, map_append, zipIdx_append,
    filterMap_append, flatMap_append]
  simp [Field.node?]

end Node

namespace Workspace

def extend (workspace : Workspace) (file : SourceFile) (program : Node) : Workspace where
  programs := workspace.programs ++ [program.withFile file.name]
  scopes := workspace.scopes ++
    Scopes.below ⟨[⟨0, some workspace.programs.length⟩], program.withFile file.name⟩
  sources := workspace.sources.insert file.name file.text

variable {workspace : Workspace}

theorem add_eq_extend {file : SourceFile} {tolerant : Bool} {program : Node}
    (new : workspace.program? file.name = none)
    (parsed : (file.parse tolerant).result = .ok program) :
    workspace.add file tolerant =
      (.ok (program.withFile file.name), workspace.extend file program) := by
  have fits := SourceFile.fits_parse parsed
  have isProgram : program.kind = .program := mem_singleton.1 fits.kind_mem
  have scopesEq : Scopes.ofProgram
      ⟨[⟨0, some workspace.programs.length⟩], program.withFile file.name⟩ = _ :=
    Scopes.ofProgram_eq (fits.withFile file.name)
  have counted : ∃ count, (program.withFile file.name).statementCount? = some count := by
    obtain ⟨statements, old, location, rfl, _⟩ := fits.program
    exact ⟨_, rfl⟩
  obtain ⟨count, counted⟩ := counted
  rw [add, addParsed, new, if_neg (by simp), parsed]
  simp only [addTree, new, Option.isSome_none, Bool.false_eq_true, if_false, isProgram, ne_eq,
    not_true_eq_false]
  simp only [load, scopesEq, counted]
  rfl

theorem add_cases (workspace : Workspace) (file : SourceFile) (tolerant : Bool) :
    (∃ fault, workspace.add file tolerant = (.error fault, workspace)) ∨
      ∃ program, (file.parse tolerant).result = .ok program ∧ workspace.program? file.name = none ∧
        workspace.add file tolerant =
          (.ok (program.withFile file.name), workspace.extend file program) := by
  cases used : workspace.program? file.name with
  | some program =>
    refine .inl ⟨.duplicateFile file.name, ?_⟩
    rw [add, addParsed, used]
    rfl
  | none =>
    cases parsed : (file.parse tolerant).result with
    | error fault =>
      refine .inl ⟨fault, ?_⟩
      rw [add, addParsed, used, parsed]
      rfl
    | ok program => exact .inr ⟨program, rfl, rfl, add_eq_extend used parsed⟩

/-- Whether a workspace comes of adding source files to the empty one. -/
inductive Built : Workspace → Prop
  | empty : Built empty
  | add {workspace : Workspace} (built : Built workspace) (file : SourceFile) (tolerant : Bool) :
      Built (workspace.add file tolerant).2

/-- Whether the programs of a workspace have their shape and its scopes are those of the
programs. -/
structure Analysed (workspace : Workspace) : Prop where
  shaped : ∀ program ∈ workspace.programs, program.Shaped
  scopes_eq : workspace.scopes = (Node.collection workspace.programs).scopes

theorem Analysed.extend (analysed : workspace.Analysed) {file : SourceFile} {program : Node}
    (fits : program.Fits file.name .program) : (workspace.extend file program).Analysed := by
  constructor
  · intro other member
    rcases mem_append.1 member with old | new
    · exact analysed.shaped other old
    · rw [mem_singleton.1 new]
      exact .program (fits.withFile file.name)
  · rw [Workspace.extend, Node.scopes_collection_append, ← analysed.scopes_eq]

theorem Built.analysed (built : workspace.Built) : workspace.Analysed := by
  induction built with
  | empty =>
    constructor
    · intro program member
      cases member
    · rfl
  | @add workspace _ file tolerant ih =>
    rcases workspace.add_cases file tolerant with ⟨fault, added⟩ | ⟨program, parsed, _, added⟩
    · rw [added]
      exact ih
    · rw [added]
      exact ih.extend (SourceFile.fits_parse parsed)

theorem Analysed.codebase_eq (analysed : workspace.Analysed) :
    workspace.codebase = (Node.collection workspace.programs).codebase := by
  rw [codebase, analysed.scopes_eq]
  rfl

theorem Analysed.exists_covering (analysed : workspace.Analysed) :
    workspace.codebase.root.Shaped ∧ ∃ inference, workspace.codebase.infer = .ok inference ∧
      inference.typing.Covers workspace.codebase.root := by
  have shaped : workspace.codebase.root.Shaped := .collection analysed.shaped
  have codebaseEq : workspace.codebase.root.codebase = workspace.codebase := analysed.codebase_eq.symm
  exact ⟨shaped, codebaseEq ▸ Namesake.exists_covering shaped⟩

theorem Analysed.isIn_of_token? (analysed : workspace.Analysed) {file : String} {offset : Data}
    {token : Occurrence} (found : workspace.token? file offset = some token) :
    token.IsIn workspace.codebase.root := by
  obtain ⟨program, programFound, found⟩ := Option.bind_eq_some_iff.1 found
  have programIn := ((Node.Shaped.collection analysed.shaped).mem_programs.1
    (mem_of_find?_eq_some programFound)).1
  unfold Node.nodeAtOffset? at found
  split at found
  · cases found
    exact ((Occurrence.mem_walk_iff program programIn).1 (program.innermost_mem_walk offset)).1
  · cases found

end Workspace

/-- No question about source files fails.  Whatever files were added, in whatever mode, every further
file with a new name whose text can be parsed is added; at every offset of every file it is known
what the token there names, whether it can be renamed locally and which places are renamed with
it; and the places of every property are known. -/
theorem Workspace.Built.exists_answers {workspace : Workspace} (built : workspace.Built) :
    (∀ file tolerant program, workspace.program? file.name = none →
      (file.parse tolerant).result = .ok program →
      ∃ next, workspace.add file tolerant = (.ok (program.withFile file.name), next) ∧ next.Built) ∧
    (∀ file offset, ∃ kind isLocal answer, workspace.classify file offset = .ok kind ∧
      workspace.canRenameLocally file offset = .ok isLocal ∧
      workspace.renameAt file offset = .ok answer ∧
      ∀ outcome ∈ answer, ∃ places, workspace.ranges outcome = .ok places) ∧
    ∀ spelling, ∃ outcome places, workspace.renameProperty (.text spelling) = .ok outcome ∧
      workspace.ranges outcome = .ok places := by
  have analysed := built.analysed
  obtain ⟨shaped, inference, inferEq, covers⟩ := analysed.exists_covering
  refine ⟨?_, ?_, ?_⟩
  · intro file tolerant program new parsed
    have added := add_eq_extend new parsed
    have nextBuilt := built.add file tolerant
    rw [added] at nextBuilt
    exact ⟨_, added, nextBuilt⟩
  · intro file offset
    unfold canRenameLocally classify renameAt
    cases found : workspace.token? file offset with
    | none => exact ⟨none, none, none, rfl, rfl, rfl, by simp⟩
    | some token =>
      obtain ⟨answer, classified, renamed, places⟩ :=
        Codebase.exists_answer shaped inferEq covers (analysed.isIn_of_token? found)
      refine ⟨_, (answer.map Renaming.kind).map isLocalKind, answer, classified, ?_, renamed,
        places⟩
      simp only [classified]
      rfl
  · intro spelling
    exact Codebase.exists_renameProperty shaped inferEq covers spelling

/-- A variable of two files, one of them with a token that is left out. -/
theorem Workspace.Built.exists_answers_two :
    ∃ workspace : Workspace, workspace.Built ∧ workspace.files = ["a", "b"] ∧
      (workspace.token? "b" (.int 4)).isSome = true ∧
      ∃ answer, workspace.renameAt "b" (.int 4) = .ok answer ∧
        ∀ outcome ∈ answer, ∃ places, workspace.ranges outcome = .ok places := by
  let first := (Workspace.empty.add ⟨"a", "var x"⟩ false).2
  have built : (first.add ⟨"b", "var x)"⟩ true).2.Built := (empty.add _ _).add _ _
  have found : (first.add ⟨"b", "var x)"⟩ true).2.files = ["a", "b"] ∧
      ((first.add ⟨"b", "var x)"⟩ true).2.token? "b" (.int 4)).isSome = true := by
    decide +kernel
  obtain ⟨_, _, answer, _, _, renamed, places⟩ := built.exists_answers.2.1 "b" (.int 4)
  exact ⟨_, built, found.1, found.2, answer, renamed, places⟩

end Namesake
