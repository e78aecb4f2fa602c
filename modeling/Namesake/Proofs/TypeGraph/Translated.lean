import Mathlib.Logic.Function.Basic
import Namesake.Inference

/-!
Under names that are as different as the old ones, every operation of a type graph takes the
same steps.
-/

namespace Namesake

def translateKeys (translation : Text → Text) (entries : List (Text × TypeId)) :
    List (Text × TypeId) :=
  entries.map (Prod.map translation id)

def TypeNode.translate (translation : Text → Text) (node : TypeNode) : TypeNode :=
  { node with properties := translateKeys translation node.properties }

def TypeGraph.translate (translation : Text → Text) (graph : TypeGraph) : TypeGraph :=
  { graph with nodes := graph.nodes.map (TypeNode.translate translation) }

section

variable {translation : Text → Text}

theorem translateKeys_concat (entries : List (Text × TypeId)) (name : Text) (type : TypeId) :
    translateKeys translation (entries ++ [(name, type)]) =
      translateKeys translation entries ++ [(translation name, type)] :=
  List.map_append

theorem lookup_translateKeys (injective : translation.Injective) (entries : List (Text × TypeId))
    (name : Text) :
    (translateKeys translation entries).lookup (translation name) = entries.lookup name := by
  induction entries with
  | nil => rfl
  | cons entry rest ih =>
    obtain ⟨key, type⟩ := entry
    have same : (translation name == translation key) = (name == key) := by
      simp only [beq_eq_decide, injective.eq_iff]
    rw [translateKeys, List.map_cons, Prod.map_apply, List.lookup_cons, List.lookup_cons, same]
    split
    · rfl
    · exact ih

end

namespace TypeGraph

variable {translation : Text → Text}

section Paths

variable (graph : TypeGraph)

theorem size_translate : (graph.translate translation).size = graph.size :=
  Array.size_map

theorem pending_translate : (graph.translate translation).pending = graph.pending :=
  rfl

theorem withPending_translate (pending : List (TypeId × TypeId)) :
    ({ graph with pending } : TypeGraph).translate translation =
      { graph.translate translation with pending } :=
  rfl

theorem node_translate (id : TypeId) :
    (graph.translate translation).node id = (graph.node id).translate translation := by
  rw [node, node, translate, Array.getElem?_map]
  cases graph.nodes[id]? <;> rfl

theorem parent_translate (id : TypeId) :
    ((graph.translate translation).node id).parent = (graph.node id).parent := by
  rw [node_translate]
  rfl

theorem update_translate (id : TypeId) {change change' : TypeNode → TypeNode}
    (alike : ∀ node, (change node).translate translation = change' (node.translate translation)) :
    (graph.update id change).translate translation = (graph.translate translation).update id change' := by
  have nodes : (graph.nodes.modify id change).map (TypeNode.translate translation) =
      (graph.nodes.map (TypeNode.translate translation)).modify id change' := by
    apply Array.ext_getElem?
    intro index
    rw [Array.getElem?_map, Array.getElem?_modify, Array.getElem?_modify, Array.getElem?_map]
    split
    · cases graph.nodes[index]? with
      | none => rfl
      | some node => exact congrArg some (alike node)
    · rfl
  rw [update, update, translate, translate, nodes]

theorem newNode_translate :
    (graph.translate translation).newNode =
      (graph.newNode.1, graph.newNode.2.translate translation) := by
  rw [newNode, newNode, size_translate, translate, translate, Array.map_push]
  rfl

theorem rootWithin_translate (steps : Nat) (id : TypeId) :
    (graph.translate translation).rootWithin steps id = graph.rootWithin steps id := by
  induction steps generalizing id with
  | zero => rfl
  | succ steps ih =>
    rw [rootWithin, rootWithin, parent_translate, ih]

theorem root_translate (id : TypeId) : (graph.translate translation).root id = graph.root id := by
  rw [root, root, size_translate, rootWithin_translate]

theorem compressWithin_translate (root : TypeId) (steps : Nat) (id : TypeId) (graph : TypeGraph) :
    compressWithin root steps id (graph.translate translation) =
      (compressWithin root steps id graph).translate translation := by
  induction steps generalizing id graph with
  | zero => rfl
  | succ steps ih =>
    rw [compressWithin, compressWithin, parent_translate]
    split
    · rfl
    · rw [← ih, update_translate]
      intro node
      rfl

theorem representative_translate (id : TypeId) :
    (graph.translate translation).representative id =
      ((graph.representative id).1, (graph.representative id).2.translate translation) := by
  rw [representative, representative, root_translate, size_translate, compressWithin_translate]

end Paths

section Names

variable (injective : translation.Injective)

include injective in
theorem property_translate (graph : TypeGraph) (id : TypeId) (name : Text) :
    (graph.translate translation).property id (translation name) =
      ((graph.property id name).1, (graph.property id name).2.translate translation) := by
  unfold property
  rw [representative_translate]
  dsimp only
  rw [node_translate]
  have found : ((graph.representative id).2.node (graph.representative id).1
      |>.translate translation).properties.lookup (translation name) =
        ((graph.representative id).2.node (graph.representative id).1).properties.lookup name :=
    lookup_translateKeys injective _ name
  rw [found]
  split
  · rw [representative_translate]
  · rw [newNode_translate]
    dsimp only
    rw [← update_translate, representative_translate]
    intro node
    simp only [TypeNode.translate, translateKeys_concat]

theorem markNamespace_translate (graph : TypeGraph) (id : TypeId) :
    (graph.translate translation).markNamespace id =
      (graph.markNamespace id).translate translation := by
  unfold markNamespace
  rw [representative_translate]
  dsimp only
  rw [update_translate]
  intro node
  rfl

theorem propertyCount_translate (graph : TypeGraph) :
    (graph.translate translation).propertyCount = graph.propertyCount := by
  rw [propertyCount, propertyCount, translate, Array.foldl_map]
  simp only [TypeNode.translate, translateKeys, List.length_map]

include injective in
theorem mergeProperties_translate (pending : List (TypeId × TypeId))
    (properties others : List (Text × TypeId)) :
    mergeProperties pending (translateKeys translation properties)
        (translateKeys translation others) =
      (translateKeys translation (mergeProperties pending properties others).1,
        (mergeProperties pending properties others).2) := by
  induction others generalizing pending properties with
  | nil => rfl
  | cons entry rest ih =>
    obtain ⟨name, target⟩ := entry
    have unfolded : translateKeys translation ((name, target) :: rest) =
        (translation name, target) :: translateKeys translation rest := rfl
    rw [unfolded, mergeProperties, mergeProperties, lookup_translateKeys injective]
    split
    · exact ih _ _
    · rw [← translateKeys_concat, ih]

include injective in
theorem absorb_translate (graph : TypeGraph) (kept absorbed : TypeId) :
    (graph.translate translation).absorb kept absorbed =
      (graph.absorb kept absorbed).translate translation := by
  have merged := mergeProperties_translate injective graph.pending (graph.node kept).properties
    (graph.node absorbed).properties
  have swept : ((graph.translate translation).update kept fun node =>
        { node with
          properties := translateKeys translation (mergeProperties graph.pending
            (graph.node kept).properties (graph.node absorbed).properties).1,
          isNamespace := node.isNamespace || (graph.node absorbed).isNamespace }).update absorbed
            (fun _ => { parent := kept }) =
      TypeGraph.translate translation ((graph.update kept fun node =>
        { node with
          properties := (mergeProperties graph.pending (graph.node kept).properties
            (graph.node absorbed).properties).1,
          isNamespace := node.isNamespace || (graph.node absorbed).isNamespace }).update absorbed
            fun _ => { parent := kept }) := by
    rw [update_translate, update_translate]
    · intro node
      rfl
    · intro node
      rfl
  simp only [absorb, node_translate, pending_translate, TypeNode.translate, merged, swept]
  rfl

include injective in
theorem unify_translate (graph : TypeGraph) (left right : TypeId) :
    (graph.translate translation).unify left right =
      (graph.unify left right).translate translation := by
  have ranked (graph : TypeGraph) (id : TypeId) :
      ((graph.translate translation).update id fun node => { node with rank := node.rank + 1 }) =
        (graph.update id fun node => { node with rank := node.rank + 1 }).translate translation := by
    rw [update_translate]
    intro node
    rfl
  unfold unify
  simp only [representative_translate, node_translate, TypeNode.translate, ranked,
    absorb_translate injective]
  split
  · rfl
  · split
    · rfl
    · split <;> rfl

include injective in
theorem completeWithin_translate (steps merged : Nat) (graph : TypeGraph) :
    completeWithin steps merged (graph.translate translation) =
      ((completeWithin steps merged graph).1,
        (completeWithin steps merged graph).2.translate translation) := by
  induction steps generalizing merged graph with
  | zero => rfl
  | succ steps ih =>
    rw [completeWithin, completeWithin, pending_translate]
    split
    · rfl
    · rw [← withPending_translate, unify_translate injective, ih]

include injective in
theorem complete_translate (graph : TypeGraph) :
    (graph.translate translation).complete =
      (graph.complete.1, graph.complete.2.translate translation) := by
  rw [complete, complete, propertyCount_translate, pending_translate,
    completeWithin_translate injective]

theorem queueReceivers_translate (methods : List (TypeId × TypeId)) (unified : Nat)
    (graph : TypeGraph) :
    (graph.translate translation).queueReceivers methods unified =
      ((graph.queueReceivers methods unified).1,
        (graph.queueReceivers methods unified).2.translate translation) := by
  have later (graph : TypeGraph) (left right : TypeId) :
      (graph.translate translation).unifyLater left right =
        (graph.unifyLater left right).translate translation := rfl
  induction methods generalizing unified graph with
  | nil => rfl
  | cons method rest ih =>
    obtain ⟨base, receiver⟩ := method
    simp only [queueReceivers, representative_translate, node_translate, TypeNode.translate, later,
      ih]
    split <;> rfl

end Names

end TypeGraph

end Namesake
