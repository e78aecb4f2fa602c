import Namesake.Proofs.Scope.Carried

/-!
`Node.translate` gives every identifier another name, and with it every string that is a key:
the key of an object literal and the string in the brackets of a member.
-/

namespace Namesake

open List

def Kind.isKeyField : Kind → Nat → Bool
  | .property, 0 => true
  | .memberExpression, 1 => true
  | _, _ => false

def Field.translateText (translation : Text → Text) : Field → Field
  | .data (.text spelling) => .data (.text (translation spelling))
  | field => field

/-- The fields of a token under another name.  A literal has one only if it is a key. -/
def Kind.translateName (translation : Text → Text) : Kind → Bool → List Field → List Field
  | .identifier, _, value :: rest => value.translateText translation :: rest
  | .literal, true, value :: rest => value.translateText translation :: rest
  | _, _, fields => fields

mutual

/-- A node under other names.  Whether it is a key is known from its place. -/
def Node.translate (translation : Text → Text) (isKey : Bool) : Node → Node
  | .mk kind fields location =>
    .mk kind (kind.translateName translation isKey (Field.translateAll translation kind 0 fields))
      location

def Field.translate (translation : Text → Text) (isKey : Bool) : Field → Field
  | .data value => .data value
  | .node child => .node (child.translate translation isKey)
  | .list items => .list (Field.translateItems translation items)

def Field.translateAll (translation : Text → Text) (kind : Kind) (index : Nat) :
    List Field → List Field
  | [] => []
  | field :: rest =>
    field.translate translation (kind.isKeyField index) ::
      Field.translateAll translation kind (index + 1) rest

def Field.translateItems (translation : Text → Text) : List Field → List Field
  | [] => []
  | item :: rest => item.translate translation false :: Field.translateItems translation rest

end

def Field.translateName (translation : Text → Text) (name : Field) : Field :=
  (name.translate translation false).translateText translation

/-- Whether a step leads to a key, if it leads to a string. -/
def Kind.isKeyStep (kind : Kind) (step : Step) : Bool :=
  step.item.isNone && kind.isKeyField step.field

def Node.isKeyAt (root : Node) : Address → Bool
  | [] => false
  | step :: rest => (root.at? rest).any fun parent => parent.kind.isKeyStep step

def Occurrence.translated (translation : Text → Text) (root : Node) (place : Occurrence) :
    Occurrence :=
  ⟨place.address, place.node.translate translation (root.isKeyAt place.address)⟩

section

variable {translation : Text → Text}

@[simp]
theorem Node.kind_translate (node : Node) (isKey : Bool) :
    (node.translate translation isKey).kind = node.kind := by
  obtain ⟨kind, fields, location⟩ := node
  rfl

theorem Field.fits_translateText {file : String} {slot : Slot} {field : Field}
    (fits : field.Fits file slot) (takesText : slot = .text ∨ slot = .data) :
    (field.translateText translation).Fits file slot := by
  unfold Field.translateText
  split
  · rcases takesText with rfl | rfl
    · exact ⟨_, rfl⟩
    · trivial
  · exact fits

theorem Kind.allFit_translateName {file : String} {kind : Kind} {isKey : Bool} {slots : List Slot}
    {fields : List Field} (member : slots ∈ kind.signatures)
    (fit : Field.AllFit file slots fields) :
    Field.AllFit file slots (kind.translateName translation isKey fields) := by
  unfold Kind.translateName
  split
  · obtain rfl : slots = [.text] := mem_singleton.1 member
    exact ⟨Field.fits_translateText fit.1 (.inl rfl), fit.2⟩
  · obtain rfl : slots = [.data, .data, .data] := mem_singleton.1 member
    exact ⟨Field.fits_translateText fit.1 (.inr rfl), fit.2⟩
  · exact fit

mutual

theorem Node.fits_translate {file : String} {category : Category} (isKey : Bool) :
    ∀ node : Node, node.Fits file category → (node.translate translation isKey).Fits file category
  | .mk kind fields location => by
    rintro ⟨allowed, located, slots, member, fit⟩
    exact ⟨allowed, located, slots, member,
      Kind.allFit_translateName member (Field.allFit_translateAll kind 0 fields slots fit)⟩

theorem Field.allFit_translateAll {file : String} (kind : Kind) (index : Nat) :
    ∀ (fields : List Field) (slots : List Slot), Field.AllFit file slots fields →
      Field.AllFit file slots (Field.translateAll translation kind index fields)
  | [], _, fit => fit
  | _ :: _, [], fit => fit.elim
  | field :: rest, slot :: slots, fit =>
    ⟨Field.fits_translate (kind.isKeyField index) field slot fit.1,
      Field.allFit_translateAll kind (index + 1) rest slots fit.2⟩

theorem Field.fits_translate {file : String} (isKey : Bool) :
    ∀ (field : Field) (slot : Slot), Field.Fits file slot field →
      Field.Fits file slot (field.translate translation isKey)
  | .data _, _, fits => fits
  | .node child, slot, fits => by
    cases slot with
    | one category => exact Node.fits_translate isKey child fits
    | optional category => exact Node.fits_translate isKey child fits
    | _ => exact fits.elim
  | .list items, slot, fits => by
    cases slot with
    | many category => exact Field.itemsFit_translateItems items category false fits
    | several category =>
      refine ⟨?_, Field.itemsFit_translateItems items category false fits.2⟩
      intro isEmpty
      cases items with
      | nil => exact fits.1 rfl
      | cons item rest => cases isEmpty
    | sparse category => exact Field.itemsFit_translateItems items category true fits
    | _ => exact fits.elim

theorem Field.itemsFit_translateItems {file : String} :
    ∀ (items : List Field) (category : Category) (holes : Bool),
      Field.ItemsFit file category holes items →
        Field.ItemsFit file category holes (Field.translateItems translation items)
  | [], _, _, fit => fit
  | .node child :: rest, category, holes, fit =>
    ⟨Node.fits_translate false child fit.1, Field.itemsFit_translateItems rest category holes fit.2⟩
  | .data _ :: rest, category, holes, fit =>
    ⟨fit.1, Field.itemsFit_translateItems rest category holes fit.2⟩
  | .list _ :: _, _, _, fit => fit.elim

end

theorem Field.translateItems_nodes (trees : List Node) :
    Field.translateItems translation (trees.map .node) =
      (trees.map (Node.translate translation false)).map .node := by
  induction trees with
  | nil => rfl
  | cons tree trees ih => exact congrArg (List.cons _) ih

theorem Node.translate_collection (trees : List Node) (isKey : Bool) :
    (Node.collection trees).translate translation isKey =
      .collection (trees.map (Node.translate translation false)) := by
  unfold Node.collection
  rw [← Field.translateItems_nodes]
  rfl

theorem Node.Shaped.translate {root : Node} (shaped : root.Shaped) (isKey : Bool) :
    (root.translate translation isKey).Shaped := by
  induction shaped generalizing isKey with
  | program fits => exact .program (Node.fits_translate isKey _ fits)
  | @collection trees _ ih =>
    rw [Node.translate_collection]
    apply Node.Shaped.collection
    intro tree member
    obtain ⟨origin, originMember, rfl⟩ := mem_map.1 member
    exact ih origin originMember false

namespace Node

def translateChild (translation : Text → Text) (kind : Kind) (entry : Step × Node) : Step × Node :=
  (entry.1, entry.2.translate translation (kind.isKeyStep entry.1))

theorem fieldChildren_translateText (index : Nat) (field : Field) :
    fieldChildren index (field.translateText translation) = fieldChildren index field := by
  unfold Field.translateText
  split <;> rfl

theorem zipIdx_translateName (kind : Kind) (isKey : Bool) (fields : List Field) :
    ((kind.translateName translation isKey fields).zipIdx 0).flatMap
        (fun (field, place) => fieldChildren place field) =
      (fields.zipIdx 0).flatMap fun (field, place) => fieldChildren place field := by
  unfold Kind.translateName
  split
  · simp only [zipIdx_cons, flatMap_cons, fieldChildren_translateText]
  · simp only [zipIdx_cons, flatMap_cons, fieldChildren_translateText]
  · rfl

theorem steps_translate (node : Node) (isKey : Bool) :
    (node.translate translation isKey).steps =
      node.steps.map (translateChild translation node.kind) := by
  obtain ⟨kind, fields, location⟩ := node
  have recursion : Recursion (· ++ ·) []
      (fun step child => [translateChild translation kind (step, child)])
      (fun index fields => ((Field.translateAll translation kind index fields).zipIdx index).flatMap
        fun (field, place) => fieldChildren place field)
      (fun index field => fieldChildren index (field.translate translation (kind.isKeyField index)))
      (fun index place items => ((Field.translateItems translation items).zipIdx place).filterMap
        fun (item, inner) => item.node?.map fun child => (⟨index, some inner⟩, child)) := by
    constructor <;> intros <;> rfl
  exact (zipIdx_translateName kind isKey _).trans (recursion.eq_ofSteps (map _)
    (fun _ _ => map_append) (fun _ _ => rfl) (.mk kind fields location))

end Node

namespace Occurrence

variable {root : Node}
variable {place : Occurrence}

@[simp]
theorem address_translated (place : Occurrence) :
    (place.translated translation root).address = place.address :=
  rfl

@[simp]
theorem kind_translated (place : Occurrence) :
    (place.translated translation root).node.kind = place.node.kind :=
  Node.kind_translate _ _

theorem isKeyAt_child (inside : place.IsIn root) (step : Step) :
    root.isKeyAt (step :: place.address) = place.node.kind.isKeyStep step := by
  have found : root.at? place.address = some place.node := inside
  rw [Node.isKeyAt, found]
  rfl

theorem children_translated (inside : place.IsIn root) :
    (place.translated translation root).children =
      place.children.map (translated translation root) := by
  simp only [children, translated, Node.steps_translate, map_map]
  apply map_congr_left
  rintro ⟨step, child⟩ _
  simp only [Function.comp_apply, Node.translateChild, translated, isKeyAt_child inside]

theorem carries_translated : Carries (·.IsIn root) (translated translation root) :=
  ⟨kind_translated, fun inside member => inside.child member, children_translated, fun _ _ => rfl⟩

theorem walk_translate :
    (root.translate translation false).walk = root.walk.map (translated translation root) :=
  carries_translated.walk ⟨[], root⟩ rfl

theorem IsIn.translated (inside : place.IsIn root) :
    (place.translated translation root).IsIn (root.translate translation false) := by
  rw [← Node.mem_walk, walk_translate]
  exact mem_map_of_mem (Node.mem_walk.2 inside)

end Occurrence

end

end Namesake
