import Namesake.Node

/-!
A search goes through a tree in the order of its text.  At each node it may find something, and
it decides whether to go on below the node and what to remember there.
-/

namespace Namesake

structure Look (Memory Found : Type) where
  found : List Found := []
  below : Option Memory := none

namespace Node

variable {Memory Found : Type}

mutual

def gather (look : Memory → Occurrence → Look Memory Found) (memory : Memory)
    (address : Address) : Node → List Found
  | .mk kind fields location =>
    let here := look memory ⟨address, .mk kind fields location⟩
    match here.below with
    | none => here.found
    | some memory => here.found ++ gatherFields look memory address 0 fields

def gatherFields (look : Memory → Occurrence → Look Memory Found) (memory : Memory)
    (address : Address) (index : Nat) : List Field → List Found
  | [] => []
  | field :: rest =>
    gatherField look memory address index field ++
      gatherFields look memory address (index + 1) rest

def gatherField (look : Memory → Occurrence → Look Memory Found) (memory : Memory)
    (address : Address) (index : Nat) : Field → List Found
  | .data _ => []
  | .node child => gather look memory (⟨index, none⟩ :: address) child
  | .list items => gatherItems look memory address index 0 items

def gatherItems (look : Memory → Occurrence → Look Memory Found) (memory : Memory)
    (address : Address) (index place : Nat) : List Field → List Found
  | [] => []
  | .node child :: rest =>
    gather look memory (⟨index, some place⟩ :: address) child ++
      gatherItems look memory address index (place + 1) rest
  | .data _ :: rest => gatherItems look memory address index (place + 1) rest
  | .list _ :: rest => gatherItems look memory address index (place + 1) rest

end

end Node

namespace Occurrence

variable {Memory Found : Type}

def gather (look : Memory → Occurrence → Look Memory Found) (memory : Memory)
    (place : Occurrence) : List Found :=
  place.node.gather look memory place.address

def children (place : Occurrence) : List Occurrence :=
  place.node.steps.map fun (step, child) => ⟨step :: place.address, child⟩

def child? (place : Occurrence) (name : String) : Option Occurrence :=
  (place.node.nodeAt? name).map fun child => ⟨place.node.stepTo name :: place.address, child⟩

end Occurrence

end Namesake
