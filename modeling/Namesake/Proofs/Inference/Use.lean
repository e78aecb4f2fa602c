import Namesake.Proofs.Inference.Constraint

/-!
Inference passes over names that are not read as variables: labels, names that are declared, keys
and names after a dot.  It gets to every other node of a tree.
-/

namespace Namesake

open List

def Slot.takesNodes (slot : Slot) : Bool :=
  slot.category?.any fun category => category ≠ .identifier && category ≠ .key

namespace Node

variable {root node child : Node} {file : String} {category : Category} {step : Step}

theorem isSome_useIn? (use : Use) {slots : List Slot} {slot : Slot}
    (member : slots ∈ node.kind.signatures) (fit : Field.AllFit file slots node.fields)
    (found : slots[step.field]? = some slot) (takesNodes : slot.takesNodes = true) :
    (node.useIn? use step).isSome = true := by
  obtain ⟨kind, fields, location⟩ := node
  obtain ⟨field, item⟩ := step
  cases kind with
  | emptyStatement | debuggerStatement | thisExpression =>
    cases mem_singleton.1 member
    cases found
  | breakStatement | continueStatement | identifier =>
    cases mem_singleton.1 member
    obtain _ | field := field
    all_goals cases found
    cases takesNodes
  | literal =>
    cases mem_singleton.1 member
    obtain _ | _ | _ | field := field
    all_goals cases found
    all_goals cases takesNodes
  | labeledStatement | catchClause | variableDeclarator =>
    cases mem_singleton.1 member
    obtain _ | _ | field := field
    all_goals cases found
    · cases takesNodes
    · rfl
  | functionDeclaration | functionExpression =>
    cases mem_singleton.1 member
    obtain _ | _ | _ | field := field
    all_goals cases found
    · cases takesNodes
    · cases takesNodes
    · rfl
  | property =>
    simp only [Node.kind, Kind.signatures, mem_cons, not_mem_nil, or_false] at member
    rcases member with rfl | rfl | rfl
    all_goals
      obtain ⟨_, _, _, rfl, _⟩ := fit.three
      obtain _ | _ | _ | field := field
      all_goals cases found
      · cases takesNodes
      · rfl
      · cases takesNodes
  | memberExpression =>
    rcases mem_pair.1 member with rfl | rfl
    all_goals
      obtain ⟨_, _, _, rfl, _, _, flagFits⟩ := fit.three
      obtain rfl := Field.fits_flag.1 flagFits
      obtain _ | _ | _ | field := field
      all_goals cases found
    · rfl
    · cases takesNodes
    · cases takesNodes
    · rfl
    · rfl
    · cases takesNodes
  | sequenceExpression =>
    cases mem_singleton.1 member
    obtain ⟨_, rfl, itemsFit⟩ := fit.one
    obtain ⟨_, _, rfl, _⟩ := Field.fits_several.1 itemsFit
    rfl
  | switchStatement =>
    cases mem_singleton.1 member
    obtain ⟨_, _, rfl, _⟩ := fit.two
    rfl
  | logicalExpression =>
    rcases mem_pair.1 member with rfl | rfl
    all_goals
      obtain ⟨_, _, _, rfl, _⟩ := fit.three
      rfl
  | forStatement | forInStatement =>
    rcases mem_pair.1 member with rfl | rfl
    all_goals
      obtain ⟨_, _, rfl, _⟩ := Field.allFit_cons.1 fit
      simp only [useIn?]
      split <;> rfl
  | _ => rfl

theorem Fits.isSome_useIn? (fits : node.Fits file category) (use : Use)
    (found : node.child? step = some child) (notIdentifier : child.kind ≠ .identifier)
    (notLiteral : child.kind ≠ .literal) : (node.useIn? use step).isSome = true := by
  obtain ⟨slots, member, slot, inner, slotFound, isInner, childFits, fit⟩ := fits.childSlot found
  refine Node.isSome_useIn? use member fit slotFound ?_
  have childKind := childFits.kind_mem
  rw [Slot.takesNodes, isInner, Option.any_some, Bool.and_eq_true, decide_eq_true_iff,
    decide_eq_true_iff]
  constructor
  · rintro rfl
    exact notIdentifier (mem_singleton.1 childKind)
  · rintro rfl
    rcases mem_cons.1 childKind with isIdentifier | childKind
    · exact notIdentifier isIdentifier
    · exact notLiteral (mem_singleton.1 childKind)

theorem Shaped.isSome_use? (shaped : root.Shaped) {address : Address}
    (found : root.at? address = some node) (notIdentifier : node.kind ≠ .identifier)
    (notLiteral : node.kind ≠ .literal) : (root.use? address).isSome = true := by
  induction address generalizing node with
  | nil => rfl
  | cons step address ih =>
    obtain ⟨parent, parentFound, childFound⟩ := exists_at?_of_cons found
    have inFitting {file : String} {category : Category} (fits : parent.Fits file category) :
        (root.use? (step :: address)).isSome = true := by
      obtain ⟨parentNotIdentifier, parentNotLiteral⟩ := fits.kind_of_child childFound
      obtain ⟨use, used⟩ :=
        Option.isSome_iff_exists.1 (ih parentFound parentNotIdentifier parentNotLiteral)
      rw [use?, used, parentFound]
      exact fits.isSome_useIn? use childFound notIdentifier notLiteral
    rcases shaped.at? parentFound with ⟨parentShaped, _⟩ | ⟨_, _, _, fits⟩
    · cases parentShaped with
      | program fits => exact inFitting fits
      | collection _ =>
        obtain ⟨use, used⟩ := Option.isSome_iff_exists.1
          (ih parentFound (by simp [Node.collection, Node.kind])
            (by simp [Node.collection, Node.kind]))
        rw [use?, used, parentFound]
        rfl
    · exact inFitting fits

end Node

end Namesake
