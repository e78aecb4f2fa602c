import Namesake.Renaming
import Namesake.SourceFile

/-!
Each event belongs to a channel, which is shown in front of its message.
-/

namespace Namesake

inductive Event where
  | leftOut (notice : Notice)
  | repaired (file : String) (inserted dropped : Nat)
  | declared (file : String) (names : Nat)
  | loaded (file : String) (statements : Nat)
  | completed (pairs : Nat)
  | inferred (programs types methods receivers : Nat)
  | grouped (name : Name) (tokens groups : Nat)
  | renamed (file : String) (offset : Int) (kind : RenameKind) (groups : Nat)

namespace Event

def channel : Event → String
  | leftOut _ => "jsrename.frontend.parser"
  | repaired .. => "jsrename.frontend.parser"
  | declared .. => "jsrename.passes.scope_analysis"
  | loaded .. => "jsrename.engine.buffer"
  | completed _ => "jsrename.passes.type_graph"
  | inferred .. => "jsrename.passes.type_inference"
  | grouped .. => "jsrename.passes.renaming"
  | renamed .. => "jsrename.engine.buffer"

def message : Event → String
  | leftOut notice => notice.message
  | repaired file inserted dropped =>
    s!"{file}: inserted {inserted} semicolons, dropped {dropped} tokens"
  | declared file names => s!"{file}: {names} top-level declarations"
  | loaded file statements => s!"loaded {file}: {statements} top-level statements"
  | completed pairs => s!"completed {pairs} deferred unifications"
  | inferred programs types methods receivers =>
    s!"inferred {programs} programs: {types} type nodes, {methods} potential methods, " ++
      s!"{receivers} receivers unified"
  | grouped name tokens groups =>
    "property '" ++ name.value.display ++ s!"': {tokens} occurrences in {groups} groups"
  | renamed file offset kind groups => s!"{file}@{offset}: " ++ kind.name ++
      s!" rename, {groups} groups"

def render (event : Event) : String :=
  event.channel ++ ": " ++ event.message ++ "\n"

end Event

def Parsed.events (parsed : Parsed) (file : String) : List Event :=
  let repairs :=
    match parsed.result with
    | .error _ => []
    | .ok _ =>
      if parsed.inserted = 0 && parsed.dropped = 0 then []
      else [.repaired file parsed.inserted parsed.dropped]
  parsed.notices.map .leftOut ++ repairs

def Inference.events (inference : Inference) (root : Node) : List Event :=
  (inference.completed.filter (0 < ·)).map .completed ++
    [.inferred root.programs.length inference.typing.graph.size inference.typing.methods.length
      inference.receivers]

def Renaming.events (outcome : Renaming) (root : Node) : List Event :=
  let types :=
    match outcome.inference with
    | some inference => inference.events root
    | none => []
  let groups :=
    if outcome.kind = .property then
      [.grouped outcome.name outcome.groups.flatten.length outcome.groups.length]
    else []
  types ++ groups

end Namesake
