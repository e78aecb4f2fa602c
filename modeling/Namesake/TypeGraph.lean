import Namesake.Text

/-!
A type is a class of type nodes.  Every class has a representative, which holds the types of the
properties of the class; the other nodes only lead to it.  Where two unified classes have the same
property, the two types wait until `complete` unifies them in turn, the latest first.
-/

namespace Namesake

abbrev TypeId := Nat

structure TypeNode where
  /-- The next node towards the representative; the node itself if it is the representative. -/
  parent : TypeId
  /-- A bound on the length of the paths that lead to the node, if it is a representative. -/
  rank : Nat := 0
  properties : List (Text × TypeId) := []
  isNamespace : Bool := false
deriving DecidableEq

structure TypeGraph where
  nodes : Array TypeNode := #[]
  pending : List (TypeId × TypeId) := []

namespace TypeGraph

def empty : TypeGraph :=
  { }

def size (graph : TypeGraph) : Nat :=
  graph.nodes.size

def node (graph : TypeGraph) (id : TypeId) : TypeNode :=
  graph.nodes[id]?.getD { parent := id }

def update (graph : TypeGraph) (id : TypeId) (change : TypeNode → TypeNode) : TypeGraph :=
  { graph with nodes := graph.nodes.modify id change }

def newNode (graph : TypeGraph) : TypeId × TypeGraph :=
  (graph.size, { graph with nodes := graph.nodes.push { parent := graph.size } })

/-- The end of the path from a node, if the path has at most the given number of steps. -/
def rootWithin (graph : TypeGraph) : Nat → TypeId → TypeId
  | 0, id => id
  | steps + 1, id =>
    let next := (graph.node id).parent
    if next = id then id else rootWithin graph steps next

def root (graph : TypeGraph) (id : TypeId) : TypeId :=
  graph.rootWithin graph.size id

/-- Lets every node on the path from a node lead straight to the end of the path. -/
def compressWithin (root : TypeId) : Nat → TypeId → TypeGraph → TypeGraph
  | 0, _, graph => graph
  | steps + 1, id, graph =>
    let next := (graph.node id).parent
    if next = root then graph
    else compressWithin root steps next (graph.update id fun node => { node with parent := root })

def representative (graph : TypeGraph) (id : TypeId) : TypeId × TypeGraph :=
  let root := graph.root id
  (root, compressWithin root graph.size id graph)

def property (graph : TypeGraph) (id : TypeId) (name : Text) : TypeId × TypeGraph :=
  let (root, graph) := graph.representative id
  match (graph.node root).properties.lookup name with
  | some target => graph.representative target
  | none =>
    let (target, graph) := graph.newNode
    let graph := graph.update root fun node =>
      { node with properties := node.properties ++ [(name, target)] }
    graph.representative target

def markNamespace (graph : TypeGraph) (id : TypeId) : TypeGraph :=
  let (root, graph) := graph.representative id
  graph.update root fun node => { node with isNamespace := true }

def propertyCount (graph : TypeGraph) : Nat :=
  graph.nodes.foldl (fun count node => count + node.properties.length) 0

def waiting (pending : List (TypeId × TypeId)) (left right : TypeId) : List (TypeId × TypeId) :=
  if left = right then pending else (left, right) :: pending

def unifyLater (graph : TypeGraph) (left right : TypeId) : TypeGraph :=
  { graph with pending := waiting graph.pending left right }

/-- Properties joined with others.  For a property that both have, the first type stays and the two
types wait to be unified. -/
def mergeProperties (pending : List (TypeId × TypeId)) (properties : List (Text × TypeId)) :
    List (Text × TypeId) → List (Text × TypeId) × List (TypeId × TypeId)
  | [] => (properties, pending)
  | (name, target) :: rest =>
    match properties.lookup name with
    | some existing => mergeProperties (waiting pending existing target) properties rest
    | none => mergeProperties pending (properties ++ [(name, target)]) rest

def absorb (graph : TypeGraph) (kept absorbed : TypeId) : TypeGraph :=
  let old := graph.node absorbed
  let (properties, pending) :=
    mergeProperties graph.pending (graph.node kept).properties old.properties
  let graph := graph.update kept fun node =>
    { node with properties, isNamespace := node.isNamespace || old.isNamespace }
  let graph := graph.update absorbed fun _ => { parent := kept }
  { graph with pending }

/-- Unifies the classes of two nodes.  The class of higher rank takes in the other, the first one if
the ranks are equal. -/
def unify (graph : TypeGraph) (left right : TypeId) : TypeGraph :=
  let (left, graph) := graph.representative left
  let (right, graph) := graph.representative right
  if left = right then graph
  else
    let leftRank := (graph.node left).rank
    let rightRank := (graph.node right).rank
    if leftRank < rightRank then graph.absorb right left
    else if leftRank = rightRank then
      (graph.update left fun node => { node with rank := node.rank + 1 }).absorb left right
    else graph.absorb left right

def completeWithin : Nat → Nat → TypeGraph → Nat × TypeGraph
  | 0, merged, graph => (merged, graph)
  | steps + 1, merged, graph =>
    match graph.pending with
    | [] => (merged, graph)
    | (left, right) :: rest =>
      completeWithin steps (merged + 1) (unify { graph with pending := rest } right left)

/-- Unifies the waiting pairs until none is left, and counts them.  Every pair that starts to wait on
the way costs the graph a property, which bounds their number. -/
def complete (graph : TypeGraph) : Nat × TypeGraph :=
  completeWithin (graph.pending.length + graph.propertyCount) 0 graph

def describe (graph : TypeGraph) (id : TypeId) : String × TypeGraph :=
  let (root, graph) := graph.representative id
  (s!"TypeNode(id={id + 1}, rep={root + 1})", graph)

end TypeGraph

end Namesake
