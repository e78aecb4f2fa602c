import Namesake.Node

/-!
A tree is a program or a collection of trees.  This module lists the programs of a tree, finds the
innermost node at an offset, and gives the nodes around a node, up to the outermost program.
-/

namespace Namesake.Node

mutual

def programsFrom (address : Address) : Node → List Occurrence
  | .mk .program fields location => [⟨address, .mk .program fields location⟩]
  | .mk .programCollection [.list items] _ => programItems address 0 items
  | _ => []

def programItems (address : Address) (place : Nat) : List Field → List Occurrence
  | [] => []
  | .node child :: rest =>
    programsFrom (⟨0, some place⟩ :: address) child ++ programItems address (place + 1) rest
  | .data _ :: rest => programItems address (place + 1) rest
  | .list _ :: rest => programItems address (place + 1) rest

end

def programs (root : Node) : List Occurrence :=
  programsFrom [] root

def file? (node : Node) : Option String :=
  (node.dataAt? "file").bind fun value => value.text?.bind Text.toString?

def programOf? (root : Node) (file : String) : Option Occurrence :=
  root.programs.find? fun program => program.node.file? = some file

def collection (trees : List Node) : Node :=
  .mk .programCollection [.list (trees.map .node)] none

def covers (node : Node) (offset : Data) : Bool :=
  match node.location with
  | some location => location.contains offset
  | none => false

mutual

/-- The innermost node at an offset that the given node covers.  Of several children that cover the
offset the first one counts. -/
def innermost (offset : Data) (address : Address) : Node → Occurrence
  | .mk kind fields location =>
    (innermostInFields offset address 0 fields).getD ⟨address, .mk kind fields location⟩

def innermostInFields (offset : Data) (address : Address) (index : Nat) :
    List Field → Option Occurrence
  | [] => none
  | field :: rest =>
    (innermostInField offset address index field).or
      (innermostInFields offset address (index + 1) rest)

def innermostInField (offset : Data) (address : Address) (index : Nat) :
    Field → Option Occurrence
  | .data _ => none
  | .node child =>
    if child.covers offset then some (innermost offset (⟨index, none⟩ :: address) child) else none
  | .list items => innermostInItems offset address index 0 items

def innermostInItems (offset : Data) (address : Address) (index place : Nat) :
    List Field → Option Occurrence
  | [] => none
  | .node child :: rest =>
    if child.covers offset then
      some (innermost offset (⟨index, some place⟩ :: address) child)
    else innermostInItems offset address index (place + 1) rest
  | .data _ :: rest => innermostInItems offset address index (place + 1) rest
  | .list _ :: rest => innermostInItems offset address index (place + 1) rest

end

def nodeAtOffset? (tree : Occurrence) (offset : Data) : Option Occurrence :=
  if tree.node.covers offset then some (innermost offset tree.address tree.node) else none

def around (root : Node) (address : Address) : List Occurrence :=
  let inside := (root.above address).reverse.dropWhile fun outer =>
    outer.node.kind = .programCollection
  match inside with
  | [] => []
  | top :: _ => if top.node.kind = .program then inside.reverse else []

def parent? (root : Node) (address : Address) : Option Occurrence :=
  (root.around address).head?

def enclosingFunction? (root : Node) (address : Address) : Option Occurrence :=
  (root.around address).find? fun outer => outer.node.kind.isFunction || outer.node.kind = .program

def fileOf? (root : Node) (place : Occurrence) : Option String :=
  ((place :: root.around place.address).find? fun outer => outer.node.kind = .program).bind
    fun program => program.node.file?

end Namesake.Node
