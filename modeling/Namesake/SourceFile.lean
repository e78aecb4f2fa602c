import Namesake.Fault

/-!
Parsing a source file reads its derivation and builds the syntax tree.  The program extends
over the whole text, blank ends included.
-/

namespace Namesake

structure SourceFile where
  name : String
  text : String

structure Parsed where
  result : Except Fault Node
  inserted : Nat
  dropped : Nat
  notices : List Notice

namespace SourceFile

def span (file : SourceFile) : Location :=
  let chars := file.text.toList
  let lastLine := chars.reverse.takeWhile (· ≠ '\n')
  .between file.name ⟨0, 1, 0⟩ ⟨chars.length, chars.count '\n' + 1, lastLine.length⟩

def relocate (location : Location) : Node → Node
  | .mk kind fields _ => .mk kind fields (some location)

def parse (file : SourceFile) (tolerant : Bool) : Parsed :=
  let outcome := Derivation.read file.text tolerant
  let result : Except Fault Node :=
    match outcome.result with
    | .error found => .error (.unexpected file.name file.text found)
    | .ok derivation =>
      match derivation.toNode file.name with
      | .error error => .error (.notAllowed error)
      | .ok program => .ok (relocate file.span program)
  { result, inserted := outcome.inserted, dropped := outcome.dropped, notices := outcome.notices }

end SourceFile

end Namesake
