import Namesake.Node

/-!
A message about something odd in a tree shows it in full: a node with its kind, all its fields
and its location, and a list in brackets.
-/

namespace Namesake

def Location.renderFull (location : Location) : String :=
  let entries :=
    [ ("file", (Text.ofString location.file).quoted),
      ("line", location.first.line.render), ("column", location.first.column.render),
      ("start", location.first.offset.render), ("end", location.last.offset.render),
      ("end_line", location.last.line.render), ("end_column", location.last.column.render) ]
  "SourceLocation(" ++ ", ".intercalate (entries.map fun entry => entry.1 ++ "=" ++ entry.2) ++ ")"

def Location.renderOption : Option Location → String
  | none => Data.null.render
  | some location => location.renderFull

mutual

def Node.render : Node → String
  | .mk kind fields location =>
    kind.name ++ "(" ++ ", ".intercalate (Field.renderEntries kind.attributes fields ++
      ["location=" ++ Location.renderOption location]) ++ ")"

def Field.render : Field → String
  | .data value => value.render
  | .node child => child.render
  | .list items => "[" ++ ", ".intercalate (Field.renderItems items) ++ "]"

def Field.renderItems : List Field → List String
  | [] => []
  | item :: rest => item.render :: Field.renderItems rest

def Field.renderEntries : List Attribute → List Field → List String
  | entry :: entries, field :: rest =>
    (entry.name ++ "=" ++ field.render) :: Field.renderEntries entries rest
  | _, _ => []

end

def Field.display : Field → String
  | .data value => value.display
  | field => field.render

end Namesake
