import Namesake.Proofs.Workspace.Files

/-!
Whatever is asked of a workspace, it holds what was loaded with success since it was last
cleared, except for what a load of a program that cannot be analysed leaves behind.
-/

namespace Namesake

open List

inductive Question where
  | files
  | source (file : String)
  | classify (file : String) (offset : Data)
  | canRenameLocally (file : String) (offset : Data)
  | renameAt (file : String) (offset : Data)
  | renameProperty (name : Name)

inductive Command where
  | add (file : SourceFile) (tolerant : Bool)
  | addTree (file : String) (source : Option String) (tree : Node)
      (complete : tree.kind = .program → tree.fields.length = 2)
  | addData (file : String) (source : Option String) (data : Data)
  | clear
  | ask (question : Question)

inductive Reply where
  | loaded (program : Node)
  | cleared
  | files (files : List String)
  | source (text : Option String)
  | kind (kind : Option RenameKind)
  | isLocal (isLocal : Option Bool)
  | places (groups : Option (List (List Location)))

namespace Workspace

def answer (workspace : Workspace) : Question → Except Fault Reply
  | .files => .ok (.files workspace.files)
  | .source file => .ok (.source (workspace.source? file))
  | .classify file offset => do return .kind (← workspace.classify file offset)
  | .canRenameLocally file offset => do return .isLocal (← workspace.canRenameLocally file offset)
  | .renameAt file offset => do
      match ← workspace.renameAt file offset with
      | none => return .places none
      | some outcome => return .places (some (← workspace.ranges outcome))
  | .renameProperty name => do
      return .places (some (← workspace.ranges (← workspace.renameProperty name)))

def perform (workspace : Workspace) : Command → Except Fault Reply × Workspace
  | .add file tolerant => (workspace.add file tolerant).map (Except.map .loaded) id
  | .addTree file source tree _ =>
    (workspace.addTree file source tree).map (Except.map .loaded) id
  | .addData file source data => (workspace.addData file source data).map (Except.map .loaded) id
  | .clear => (.ok .cleared, empty)
  | .ask question => (workspace.answer question, workspace)

def run (workspace : Workspace) : List Command → List (Except Fault Reply) × Workspace
  | [] => ([], workspace)
  | command :: rest =>
    let (reply, next) := workspace.perform command
    let (replies, last) := next.run rest
    (reply :: replies, last)

end Workspace

structure Loading where
  file : String
  source : Option String
  tree : Node

def Command.loading? : Command → Option Loading
  | .add file tolerant =>
    (file.parse tolerant).result.toOption.map fun tree => ⟨file.name, some file.text, tree⟩
  | .addTree file source tree _ => some ⟨file, source, tree⟩
  | .addData file source data =>
    (Node.ofData file source data).toOption.map fun tree => ⟨file, source, tree⟩
  | .clear => none
  | .ask _ => none

namespace Workspace

variable {workspace : Workspace} {loading : Loading}
variable {command : Command}

/-- Whether a tree is a program under a name that is not in use. -/
structure IsNew (workspace : Workspace) (loading : Loading) : Prop where
  unused : workspace.program? loading.file = none
  isProgram : loading.tree.kind = .program

def withSource (workspace : Workspace) (loading : Loading) : Workspace :=
  { workspace with
    sources := loading.source.elim workspace.sources (workspace.sources.insert loading.file) }

def scopesOf (workspace : Workspace) (loading : Loading) : Except Fault Scopes :=
  Scopes.ofProgram ⟨[⟨0, some workspace.programs.length⟩], loading.tree.withFile loading.file⟩

/-- The workspace with a new program, its scopes and its source. -/
def grow (workspace : Workspace) (loading : Loading) (scopes : Scopes) : Workspace where
  programs := workspace.programs ++ [loading.tree.withFile loading.file]
  scopes := workspace.scopes ++ scopes
  sources := (workspace.withSource loading).sources

def take (workspace : Workspace) (loading : Loading) : Except Fault Node × Workspace :=
  (workspace.withSource loading).load loading.file loading.tree

/-- Whether a command loads a new program that has a source but no scopes, or scopes but no
statements. -/
def Spills (workspace : Workspace) (command : Command) : Prop :=
  ∃ loading, command.loading? = some loading ∧ workspace.IsNew loading ∧
    ((∃ fault, workspace.scopesOf loading = .error fault) ∧ loading.source.isSome = true ∨
      (∃ scopes, workspace.scopesOf loading = .ok scopes) ∧
        (loading.tree.withFile loading.file).statementCount? = none)

theorem take_eq (workspace : Workspace) (loading : Loading) :
    workspace.take loading = match workspace.scopesOf loading with
      | .error fault => (.error fault, workspace.withSource loading)
      | .ok scopes =>
        match (loading.tree.withFile loading.file).statementCount? with
        | none => (.error .malformed, workspace.grow loading scopes)
        | some _ =>
          (.ok (loading.tree.withFile loading.file), workspace.grow loading scopes) :=
  rfl

theorem take_cases (workspace : Workspace) (loading : Loading) :
    (∃ fault, workspace.scopesOf loading = .error fault ∧
        workspace.take loading = (.error fault, workspace.withSource loading)) ∨
      ∃ scopes, workspace.scopesOf loading = .ok scopes ∧
        ((loading.tree.withFile loading.file).statementCount? = none ∧
            workspace.take loading = (.error .malformed, workspace.grow loading scopes) ∨
          workspace.take loading =
            (.ok (loading.tree.withFile loading.file), workspace.grow loading scopes)) := by
  rw [take_eq]
  cases workspace.scopesOf loading with
  | error fault => exact .inl ⟨fault, rfl, rfl⟩
  | ok scopes =>
    refine .inr ⟨scopes, rfl, ?_⟩
    cases (loading.tree.withFile loading.file).statementCount? with
    | none => exact .inl ⟨rfl, rfl⟩
    | some count => exact .inr rfl

theorem addTree_cases (workspace : Workspace) (file : String) (source : Option String)
    (tree : Node) :
    (∃ fault, workspace.addTree file source tree = (.error fault, workspace)) ∨
      workspace.IsNew ⟨file, source, tree⟩ ∧
        workspace.addTree file source tree = workspace.take ⟨file, source, tree⟩ := by
  unfold addTree
  split
  · exact .inl ⟨_, rfl⟩
  · rename_i unused
    split
    · exact .inl ⟨_, rfl⟩
    · rename_i isProgram
      refine .inr ⟨⟨by simpa using unused, by simpa using isProgram⟩, ?_⟩
      cases source <;> rfl

theorem perform_cases (workspace : Workspace) (command : Command) :
    (∃ fault, workspace.perform command = (.error fault, workspace)) ∨
      (∃ loading, command.loading? = some loading ∧ workspace.IsNew loading ∧
        workspace.perform command = (workspace.take loading).map (Except.map .loaded) id) ∨
      (command = .clear ∧ workspace.perform command = (.ok .cleared, empty)) ∨
      ∃ question reply, command = .ask question ∧
        workspace.perform command = (.ok reply, workspace) := by
  cases command with
  | clear => exact .inr (.inr (.inl ⟨rfl, rfl⟩))
  | ask question =>
    cases answered : workspace.answer question with
    | error fault => exact .inl ⟨fault, by rw [perform, answered]⟩
    | ok reply => exact .inr (.inr (.inr ⟨question, reply, rfl, by rw [perform, answered]⟩))
  | addTree file source tree complete =>
    rcases workspace.addTree_cases file source tree with ⟨fault, failed⟩ | ⟨isNew, taken⟩
    · exact .inl ⟨fault, congrArg (Prod.map (Except.map Reply.loaded) id) failed⟩
    · exact .inr (.inl ⟨_, rfl, isNew, congrArg (Prod.map (Except.map Reply.loaded) id) taken⟩)
  | add file tolerant =>
    rw [perform, add, addParsed, Command.loading?]
    split
    · exact .inl ⟨_, rfl⟩
    · cases (file.parse tolerant).result with
      | error fault => exact .inl ⟨fault, rfl⟩
      | ok tree =>
        rcases workspace.addTree_cases file.name (some file.text) tree with
          ⟨fault, failed⟩ | ⟨isNew, taken⟩
        · exact .inl ⟨fault, congrArg (Prod.map (Except.map Reply.loaded) id) failed⟩
        · exact .inr (.inl ⟨_, rfl, isNew, congrArg (Prod.map (Except.map Reply.loaded) id) taken⟩)
  | addData file source data =>
    rw [perform, addData, Command.loading?]
    split
    · exact .inl ⟨_, rfl⟩
    · cases Node.ofData file source data with
      | error fault => exact .inl ⟨fault, rfl⟩
      | ok tree =>
        rcases workspace.addTree_cases file source tree with ⟨fault, failed⟩ | ⟨isNew, taken⟩
        · exact .inl ⟨fault, congrArg (Prod.map (Except.map Reply.loaded) id) failed⟩
        · exact .inr (.inl ⟨_, rfl, isNew, congrArg (Prod.map (Except.map Reply.loaded) id) taken⟩)

theorem withSource_of_none (unknown : loading.source = none) :
    workspace.withSource loading = workspace := by
  rw [withSource, unknown]
  rfl

theorem take_of_whole (whole : ¬ workspace.Spills command) (found : command.loading? = some loading)
    (isNew : workspace.IsNew loading) :
    (∃ fault, workspace.take loading = (.error fault, workspace)) ∨
      ∃ scopes, workspace.take loading =
        (.ok (loading.tree.withFile loading.file), workspace.grow loading scopes) := by
  rcases workspace.take_cases loading with ⟨fault, failed, taken⟩ | ⟨scopes, analysed, outcome⟩
  · cases source : loading.source with
    | none =>
      rw [withSource_of_none source] at taken
      exact .inl ⟨fault, taken⟩
    | some text =>
      have known : loading.source.isSome = true := by
        rw [source]
        rfl
      exact absurd ⟨loading, found, isNew, .inl ⟨⟨fault, failed⟩, known⟩⟩ whole
  · rcases outcome with ⟨uncounted, _⟩ | taken
    · exact absurd ⟨loading, found, isNew, .inr ⟨⟨scopes, analysed⟩, uncounted⟩⟩ whole
    · exact .inr ⟨scopes, taken⟩

theorem perform_of_whole (whole : ¬ workspace.Spills command) :
    (∃ fault, workspace.perform command = (.error fault, workspace)) ∨
      (∃ loading scopes, command.loading? = some loading ∧ workspace.IsNew loading ∧
        workspace.perform command =
          (.ok (.loaded (loading.tree.withFile loading.file)), workspace.grow loading scopes)) ∨
      (command = .clear ∧ workspace.perform command = (.ok .cleared, empty)) ∨
      ∃ question reply, command = .ask question ∧
        workspace.perform command = (.ok reply, workspace) := by
  rcases workspace.perform_cases command with failed | ⟨loading, found, isNew, performed⟩ | others
  · exact .inl failed
  · rcases take_of_whole whole found isNew with ⟨fault, taken⟩ | ⟨scopes, taken⟩
    · rw [taken] at performed
      exact .inl ⟨fault, performed⟩
    · rw [taken] at performed
      exact .inr (.inl ⟨loading, scopes, found, isNew, performed⟩)
  · exact .inr (.inr others)

end Workspace

theorem exists_of_bind_eq_ok {α β : Type} {first : Except Fault α} {next : α → Except Fault β}
    {result : β} (succeeds : first >>= next = .ok result) :
    ∃ value, first = .ok value ∧ next value = .ok result := by
  cases first with
  | error fault => cases succeeds
  | ok value => exact ⟨value, rfl, succeeds⟩

namespace Loaded

theorem length_of_fill {slots : List Attribute}
    {converted : List (Option (Except Fault Field))} (sameLength : converted.length = slots.length)
    {fields : List Field} (filled : fill slots converted = .ok fields) :
    fields.length = slots.length := by
  induction slots generalizing converted fields with
  | nil =>
    rw [fill] at filled
    · cases filled
      rfl
    · intro slot rest first others same
      cases same
  | cons slot rest ih =>
    cases converted with
    | nil => cases sameLength
    | cons first others =>
      obtain ⟨field, _, filled⟩ := exists_of_bind_eq_ok filled
      obtain ⟨found, restFilled, filled⟩ := exists_of_bind_eq_ok filled
      cases filled
      rw [length_cons, length_cons, ih (Nat.succ.inj sameLength) restFilled]

theorem length_of_field {origin : Origin} {entries : List (String × Data)} {tree : Node}
    (read : field origin (.object entries) = .ok (.node tree)) (isProgram : tree.kind = .program) :
    tree.fields.length = 2 := by
  rw [field] at read
  split at read
  · cases read
  · obtain ⟨kind, _, read⟩ := exists_of_bind_eq_ok read
    obtain ⟨fields, filled, read⟩ := exists_of_bind_eq_ok read
    obtain ⟨adjusted, adjustedEq, read⟩ := exists_of_bind_eq_ok read
    obtain ⟨location, _, read⟩ := exists_of_bind_eq_ok read
    cases read
    obtain rfl : kind = .program := isProgram
    have two : fields.length = 2 := length_of_fill (length_map _) filled
    obtain ⟨body, name, rfl⟩ := length_eq_two.1 two
    cases adjustedEq
    rfl

end Loaded

theorem Node.length_of_ofData {file : String} {source : Option String} {data : Data} {tree : Node}
    (read : ofData file source data = .ok tree) (isProgram : tree.kind = .program) :
    tree.fields.length = 2 := by
  unfold ofData at read
  split at read
  · rename_i entries
    split at read
    · cases read
    · obtain ⟨field, fieldRead, read⟩ := exists_of_bind_eq_ok read
      cases field with
      | node root =>
        cases read
        exact Loaded.length_of_field fieldRead isProgram
      | data value => cases read
      | list items => cases read
  · cases read

theorem Command.length_of_loading? {command : Command} {loading : Loading}
    (found : command.loading? = some loading) (isProgram : loading.tree.kind = .program) :
    loading.tree.fields.length = 2 := by
  cases command with
  | add file tolerant =>
    cases parsed : (file.parse tolerant).result with
    | error fault =>
      rw [loading?, parsed] at found
      cases found
    | ok tree =>
      rw [loading?, parsed] at found
      cases found
      obtain ⟨statements, name, location, rfl, _⟩ := (SourceFile.fits_parse parsed).program
      rfl
  | addTree file source tree complete =>
    cases found
    exact complete isProgram
  | addData file source data =>
    cases read : Node.ofData file source data with
    | error fault =>
      rw [loading?, read] at found
      cases found
    | ok tree =>
      rw [loading?, read] at found
      cases found
      exact Node.length_of_ofData read isProgram
  | clear => cases found
  | ask question => cases found

theorem Node.withFile_of_length {tree : Node} (isProgram : tree.kind = .program)
    (complete : tree.fields.length = 2) (file : String) :
    (tree.withFile file).kind = .program ∧ (tree.withFile file).file? = some file := by
  obtain ⟨kind, fields, location⟩ := tree
  obtain rfl : kind = .program := isProgram
  obtain ⟨body, name, rfl⟩ := length_eq_two.1 complete
  exact ⟨rfl, Text.toString?_ofString file⟩

namespace Workspace

variable {workspace : Workspace} {command : Command} {loading : Loading}

structure Named (workspace : Workspace) : Prop where
  named : ∀ program ∈ workspace.programs, program.kind = .program ∧ ∃ file, program.file? = some file
  nodup : workspace.files.Nodup

theorem Named.not_mem_files (named : workspace.Named) {file : String}
    (unused : workspace.program? file = none) : file ∉ workspace.files := by
  intro member
  obtain ⟨program, programMember, fileEq⟩ := mem_filterMap.1 member
  have each : ∀ program ∈ workspace.programs, program.kind = .program :=
    fun program member => (named.named program member).1
  rw [← Node.map_node_programs_collection each] at programMember
  obtain ⟨place, placeMember, rfl⟩ := mem_map.1 programMember
  exact List.find?_eq_none.1 unused place placeMember (decide_eq_true fileEq)

theorem files_grow (isNew : workspace.IsNew loading) (complete : loading.tree.fields.length = 2)
    (scopes : Scopes) : (workspace.grow loading scopes).files = workspace.files ++ [loading.file] := by
  rw [files, grow, filterMap_append, filterMap_cons,
    (Node.withFile_of_length isNew.isProgram complete loading.file).2]
  rfl

theorem Named.grow (named : workspace.Named) (isNew : workspace.IsNew loading)
    (complete : loading.tree.fields.length = 2) (scopes : Scopes) :
    (workspace.grow loading scopes).Named := by
  constructor
  · intro program member
    rcases mem_append.1 member with old | new
    · exact named.named program old
    · obtain ⟨kindEq, fileEq⟩ := Node.withFile_of_length isNew.isProgram complete loading.file
      rw [mem_singleton.1 new]
      exact ⟨kindEq, loading.file, fileEq⟩
  · rw [files_grow isNew complete, nodup_append]
    refine ⟨named.nodup, nodup_singleton _, ?_⟩
    intro file member other isNewFile same
    rw [same, mem_singleton.1 isNewFile] at member
    exact named.not_mem_files isNew.unused member

theorem Named.take (named : workspace.Named) (isNew : workspace.IsNew loading)
    (complete : loading.tree.fields.length = 2) : (workspace.take loading).2.Named := by
  rcases workspace.take_cases loading with ⟨fault, _, taken⟩ | ⟨scopes, _, ⟨_, taken⟩ | taken⟩
  · rw [taken]
    exact ⟨named.named, named.nodup⟩
  · rw [taken]
    exact named.grow isNew complete scopes
  · rw [taken]
    exact named.grow isNew complete scopes

theorem named_empty : empty.Named := by
  constructor
  · intro program member
    cases member
  · exact nodup_nil

theorem Named.perform (named : workspace.Named) (command : Command) :
    (workspace.perform command).2.Named := by
  rcases workspace.perform_cases command with ⟨fault, performed⟩ |
    ⟨loading, found, isNew, performed⟩ | ⟨_, performed⟩ | ⟨_, _, _, performed⟩
  · rw [performed]
    exact named
  · rw [performed]
    exact named.take isNew (Command.length_of_loading? found isNew.isProgram)
  · rw [performed]
    exact named_empty
  · rw [performed]
    exact named

theorem Named.run (named : workspace.Named) (commands : List Command) :
    (workspace.run commands).2.Named := by
  induction commands generalizing workspace with
  | nil => exact named
  | cons command rest ih => exact ih (named.perform command)

def Sourced (workspace : Workspace) : Prop :=
  ∀ file, (workspace.source? file).isSome = true → file ∈ workspace.files

theorem source?_withSource {file : String}
    (known : ((workspace.withSource loading).source? file).isSome = true) :
    file = loading.file ∨ (workspace.source? file).isSome = true := by
  obtain ⟨name, source, tree⟩ := loading
  cases source with
  | none => exact .inr known
  | some text =>
    by_cases same : file = name
    · exact .inl same
    · have lookup := Sources.lookup_insert workspace.sources name file text
      rw [if_neg same] at lookup
      refine .inr ?_
      rw [source?, ← lookup]
      exact known

theorem Sourced.perform (sourced : workspace.Sourced) (whole : ¬ workspace.Spills command) :
    (workspace.perform command).2.Sourced := by
  rcases perform_of_whole whole with ⟨fault, performed⟩ |
    ⟨loading, scopes, found, isNew, performed⟩ | ⟨_, performed⟩ | ⟨_, _, _, performed⟩
  · rw [performed]
    exact sourced
  · rw [performed]
    have complete := Command.length_of_loading? found isNew.isProgram
    intro file known
    rw [files_grow isNew complete, mem_append, mem_singleton]
    rcases source?_withSource known with same | old
    · exact .inr same
    · exact .inl (sourced file old)
  · rw [performed]
    intro file known
    cases known
  · rw [performed]
    exact sourced

end Workspace

/-- The loads to replay behind one more command: a load that succeeds is added, and clearing drops
all. -/
def Command.keep (kept : List Command) (reply : Except Fault Reply) : Command → List Command
  | .clear => []
  | .ask _ => kept
  | command =>
    match reply with
    | .ok _ => kept ++ [command]
    | .error _ => kept

namespace Workspace

variable {workspace : Workspace} {command : Command}
variable {kept : List Command}

/-- The loads that succeed in a run and are not cleared again, behind those kept before. -/
def loads (workspace : Workspace) (kept : List Command) : List Command → List Command
  | [] => kept
  | command :: rest =>
    let (reply, next) := workspace.perform command
    next.loads (command.keep kept reply) rest

def NeverSpills (workspace : Workspace) : List Command → Prop
  | [] => True
  | command :: rest =>
    ¬ workspace.Spills command ∧ (workspace.perform command).2.NeverSpills rest

structure Replays (workspace : Workspace) (kept : List Command) : Prop where
  workspace_eq : (empty.run kept).2 = workspace
  succeed : ∀ reply ∈ (empty.run kept).1, ∃ program, reply = .ok (.loaded program)

theorem run_cons (workspace : Workspace) (command : Command) (rest : List Command) :
    workspace.run (command :: rest) =
      ((workspace.perform command).1 :: ((workspace.perform command).2.run rest).1,
        ((workspace.perform command).2.run rest).2) :=
  rfl

theorem run_append (workspace : Workspace) (first second : List Command) :
    workspace.run (first ++ second) =
      ((workspace.run first).1 ++ ((workspace.run first).2.run second).1,
        ((workspace.run first).2.run second).2) := by
  induction first generalizing workspace with
  | nil => rfl
  | cons command rest ih =>
    rw [cons_append, run_cons, run_cons, ih]
    rfl

theorem Replays.load (replays : workspace.Replays kept) {program : Node} {next : Workspace}
    (performed : workspace.perform command = (.ok (.loaded program), next)) :
    next.Replays (kept ++ [command]) := by
  have whole : empty.run (kept ++ [command]) =
      ((empty.run kept).1 ++ [.ok (.loaded program)], next) := by
    rw [run_append, replays.workspace_eq, run_cons, performed]
    rfl
  constructor
  · rw [whole]
  · rw [whole]
    intro reply member
    rcases mem_append.1 member with old | new
    · exact replays.succeed reply old
    · exact ⟨program, mem_singleton.1 new⟩

theorem Replays.perform (replays : workspace.Replays kept) (whole : ¬ workspace.Spills command) :
    (workspace.perform command).2.Replays (command.keep kept (workspace.perform command).1) := by
  rcases perform_of_whole whole with ⟨fault, performed⟩ |
    ⟨loading, scopes, found, _, performed⟩ | ⟨rfl, performed⟩ | ⟨question, reply, rfl, performed⟩
  · rw [performed]
    cases command with
    | clear => cases performed
    | _ => exact replays
  · rw [performed]
    have loaded := replays.load performed
    cases command with
    | clear => cases found
    | ask question => cases found
    | _ => exact loaded
  · rw [performed]
    refine ⟨rfl, ?_⟩
    intro reply member
    cases member
  · rw [performed]
    exact replays

theorem Replays.run (replays : workspace.Replays kept) {commands : List Command}
    (whole : workspace.NeverSpills commands) :
    (workspace.run commands).2.Replays (workspace.loads kept commands) := by
  induction commands generalizing workspace kept with
  | nil => exact replays
  | cons command rest ih => exact ih (replays.perform whole.1) whole.2

theorem Sourced.run (sourced : workspace.Sourced) {commands : List Command}
    (whole : workspace.NeverSpills commands) : (workspace.run commands).2.Sourced := by
  induction commands generalizing workspace with
  | nil => exact sourced
  | cons command rest ih => exact ih (sourced.perform whole.1) whole.2

end Workspace

end Namesake
