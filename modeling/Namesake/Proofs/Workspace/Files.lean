import Namesake.Proofs.Syntax.Names
import Namesake.Proofs.Workspace.Answers

/-!
A workspace that is built by adding source files holds, for each file that could be added, its
syntax tree and its text, in the order in which the files were added and no two under one name.
-/

namespace Namesake

open Occurrence List

theorem Text.toString?_ofString (string : String) :
    (Text.ofString string).toString? = some string := by
  have noSurrogate : ¬ (Text.ofString string).points.any isSurrogate = true := by
    rw [any_eq_true]
    rintro ⟨point, member, isSurrogate⟩
    obtain ⟨char, _, rfl⟩ := mem_map.1 member
    have valid : char.toNat < 0xD800 ∨ 0xDFFF < char.toNat ∧ char.toNat < 0x110000 := char.valid
    simp only [Text.isSurrogate, Bool.and_eq_true, decide_eq_true_eq] at isSurrogate
    omega
  rw [toString?, if_neg noSurrogate, ofString, ofChars, map_map]
  have same : (Char.ofNat ∘ Char.toNat) = id := funext Char.ofNat_toNat
  rw [same, map_id, String.ofList_toList]

def SourceFile.Yields (file : SourceFile) (program : Node) : Prop :=
  ∃ tolerant, (file.parse tolerant).result = .ok program

namespace SourceFile.Yields

variable {file : SourceFile} {program : Node} (yields : file.Yields program)

include yields

theorem fits : program.Fits file.name .program := by
  obtain ⟨tolerant, parsed⟩ := yields
  exact fits_parse parsed

theorem kind_eq : program.kind = .program :=
  mem_singleton.1 yields.fits.kind_mem

theorem withFile_eq : program.withFile file.name = program := by
  obtain ⟨tolerant, parsed⟩ := yields
  obtain ⟨derivation, body, _, rfl, _⟩ := exists_grown parsed
  rfl

theorem file?_eq : program.file? = some file.name := by
  obtain ⟨tolerant, parsed⟩ := yields
  obtain ⟨derivation, body, _, rfl, _⟩ := exists_grown parsed
  exact Text.toString?_ofString file.name

end SourceFile.Yields

namespace Node

theorem programs_collection {trees : List Node} (each : ∀ tree ∈ trees, tree.kind = .program) :
    (collection trees).programs = Occurrence.children ⟨[], collection trees⟩ := by
  have alone : ∀ child ∈ Occurrence.children ⟨[], collection trees⟩,
      child.node.programsFrom child.address = [child] := by
    intro child member
    have ofTrees : child.node ∈ trees := by
      have inChildren : child.node ∈ (collection trees).children := by
        obtain ⟨entry, entryMember, rfl⟩ := mem_map.1 member
        exact mem_map_of_mem entryMember
      simpa [collection, Field.nodes, Field.node?] using inChildren
    obtain ⟨address, kind, fields, location⟩ := child
    obtain rfl : kind = .program := each _ ofTrees
    rfl
  refine (programsFrom_collection [] trees).trans ?_
  rw [flatMap_congr alone, flatMap_singleton']

theorem map_node_programs_collection {trees : List Node}
    (each : ∀ tree ∈ trees, tree.kind = .program) :
    (collection trees).programs.map Occurrence.node = trees := by
  rw [programs_collection each, Occurrence.children, map_map]
  change (collection trees).children = trees
  rw [collection, children_mk, flatMap_singleton, Field.nodes, filterMap_map]
  exact filterMap_some

theorem Shaped.fileOf?_eq {root : Node} (shaped : root.Shaped) {program place : Occurrence}
    (member : program ∈ root.programs) (below : place ∈ program.walk)
    (inner : place.node.Inner) : root.fileOf? place = program.node.file? := by
  obtain ⟨programIn, isProgram⟩ := shaped.mem_programs.1 member
  obtain ⟨placeIn, path, addressEq⟩ := (mem_walk_iff program programIn).1 below
  have proper : path ≠ [] := by
    rintro rfl
    have same := placeIn.eq_of_address programIn addressEq.symm
    rw [same] at inner
    exact inner.kind_ne.1 isProgram
  have found : root.at? (path ++ program.address) = some place.node := by
    rw [addressEq]
    exact placeIn
  obtain ⟨other, otherFound, suffix⟩ :=
    exists_find?_above programIn (isProgram_iff.2 isProgram) proper found
  have otherIn := (of_mem_above (mem_of_find?_eq_some otherFound)).1
  have otherMember : other ∈ root.programs :=
    shaped.mem_programs.2 ⟨otherIn, isProgram_iff.1 (List.find?_some otherFound)⟩
  obtain rfl := shaped.eq_of_suffix member otherMember suffix
  rw [← shaped.find?_around found (by simp +contextual [Occurrence.isProgram]), addressEq]
    at otherFound
  have notProgram : ¬ place.isProgram = true := fun isProgram =>
    inner.kind_ne.1 (isProgram_iff.1 isProgram)
  change ((place :: root.around place.address).find? Occurrence.isProgram).bind _ = _
  rw [List.find?_cons_of_neg notProgram, otherFound]
  rfl

end Node

theorem Sources.lookup_insert (sources : Sources) (file other source : String) :
    (sources.insert file source).lookup other =
      if other = file then some source else sources.lookup other := by
  have replaced (entries : Sources) :
      (entries.map fun entry => if entry.1 = file then (file, source) else entry).lookup other =
        if other = file then (entries.lookup file).map fun _ => source
        else entries.lookup other := by
    induction entries with
    | nil => simp
    | cons entry rest ih =>
      obtain ⟨name, text⟩ := entry
      rw [map_cons, lookup_cons, lookup_cons, ih]
      by_cases isFile : name = file
      · subst isFile
        by_cases same : other = name
        · simp [same]
        · simp [same, lookup_cons, beq_eq_false_iff_ne.2 same]
      · by_cases same : other = file
        · subst same
          have different : (other == name) = false := beq_eq_false_iff_ne.2 (Ne.symm isFile)
          simp [isFile, different]
        · simp [isFile, same, lookup_cons]
  unfold insert
  split
  · rename_i known
    rw [replaced]
    obtain ⟨text, found⟩ := Option.isSome_iff_exists.1 known
    rw [found]
    rfl
  · rename_i missing
    rw [lookup_append]
    by_cases same : other = file
    · subst same
      simp only [Bool.not_eq_true, Option.isSome_eq_false_iff, Option.isNone_iff_eq_none] at missing
      simp [missing]
    · simp [same, beq_eq_false_iff_ne.2 same]

namespace Workspace

/-- Whether a workspace holds the syntax trees of files and their texts, no two files under one
name. -/
structure Filed (workspace : Workspace) : Prop where
  yields : ∀ program ∈ workspace.programs, ∃ file : SourceFile, file.Yields program ∧
    workspace.source? file.name = some file.text
  nodup : workspace.files.Nodup

namespace Filed

variable {workspace : Workspace} (filed : workspace.Filed)

include filed

theorem kind_eq : ∀ program ∈ workspace.programs, program.kind = .program := by
  intro program member
  obtain ⟨file, yields, _⟩ := filed.yields program member
  exact yields.kind_eq

theorem map_node_programs : workspace.codebase.root.programs.map Occurrence.node = workspace.programs :=
  Node.map_node_programs_collection filed.kind_eq

theorem exists_file {program : Occurrence} (member : program ∈ workspace.codebase.root.programs) :
    ∃ file : SourceFile, file.Yields program.node ∧ workspace.source? file.name = some file.text := by
  apply filed.yields
  rw [← filed.map_node_programs]
  exact mem_map_of_mem member

theorem files_eq : workspace.files =
    workspace.codebase.root.programs.map fun program => program.node.file?.getD "" := by
  have known : ∀ program ∈ workspace.programs, program.file? = some (program.file?.getD "") := by
    intro program member
    obtain ⟨file, yields, _⟩ := filed.yields program member
    rw [yields.file?_eq]
    rfl
  have named : workspace.files = workspace.programs.map fun program => program.file?.getD "" := by
    rw [Workspace.files, filterMap_congr known, filterMap_eq_map']
  rw [named, ← filed.map_node_programs, map_map]
  rfl

theorem extend {file : SourceFile} {program : Node} (new : workspace.program? file.name = none)
    (yields : file.Yields program) : (workspace.extend file program).Filed := by
  have fresh : file.name ∉ workspace.files := by
    rw [filed.files_eq]
    intro member
    obtain ⟨other, otherMember, same⟩ := mem_map.1 member
    obtain ⟨own, ownYields, _⟩ := filed.exists_file otherMember
    have passed := List.find?_eq_none.1 new other otherMember
    rw [ownYields.file?_eq] at same passed
    rw [← same] at passed
    exact passed (decide_eq_true rfl)
  have programsEq : (workspace.extend file program).programs = workspace.programs ++ [program] := by
    rw [Workspace.extend, yields.withFile_eq]
  constructor
  · intro other member
    rw [programsEq, mem_append, mem_singleton] at member
    rcases member with old | rfl
    · obtain ⟨own, ownYields, sourceEq⟩ := filed.yields other old
      refine ⟨own, ownYields, ?_⟩
      have different : own.name ≠ file.name := by
        intro same
        have known : own.name ∈ workspace.files := mem_filterMap.2 ⟨other, old, ownYields.file?_eq⟩
        rw [same] at known
        exact fresh known
      exact (Sources.lookup_insert _ _ _ _).trans ((if_neg different).trans sourceEq)
    · exact ⟨file, yields, (Sources.lookup_insert _ _ _ _).trans (if_pos rfl)⟩
  · have filesEq : (workspace.extend file program).files = workspace.files ++ [file.name] := by
      rw [Workspace.files, programsEq, filterMap_append, filterMap_cons, yields.file?_eq]
      rfl
    rw [filesEq, nodup_append]
    refine ⟨filed.nodup, nodup_singleton _, ?_⟩
    intro name member other isNew same
    rw [same, mem_singleton.1 isNew] at member
    exact fresh member

end Filed

theorem Built.filed {workspace : Workspace} (built : workspace.Built) : workspace.Filed := by
  induction built with
  | empty =>
    constructor
    · intro program member
      cases member
    · exact nodup_nil
  | @add workspace _ file tolerant ih =>
    rcases workspace.add_cases file tolerant with ⟨fault, added⟩ | ⟨program, parsed, new, added⟩
    · rw [added]
      exact ih
    · rw [added]
      exact ih.extend new ⟨tolerant, parsed⟩

end Workspace

end Namesake
