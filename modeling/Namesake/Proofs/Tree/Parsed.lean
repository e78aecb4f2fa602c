import Mathlib.Data.List.TakeWhile
import Namesake.Node.Place
import Namesake.Proofs.Syntax.Evaluation
import Namesake.Proofs.Syntax.Forms

/-!
A tree is parsed if it is the program of a source file or a collection of parsed trees.  Below a
program every node then fits the place where it stands.
-/

namespace Namesake

open List

namespace Node

variable {address : Address} {root node parent : Node} {place : Occurrence} {step : Step}

/-- Whether a tree is the program of a source file, or a collection of such trees. -/
inductive IsParsed : Node → Prop
  | program {file : SourceFile} {tolerant : Bool} {node : Node}
      (parsed : (file.parse tolerant).result = .ok node) : IsParsed node
  | collection {trees : List Node} (parsed : ∀ tree ∈ trees, IsParsed tree) :
      IsParsed (.collection trees)

/-- Whether a tree has the shape of a program, or is a collection of such trees. -/
inductive Shaped : Node → Prop
  | program {file : String} {node : Node} (fits : node.Fits file .program) : Shaped node
  | collection {trees : List Node} (shaped : ∀ tree ∈ trees, Shaped tree) :
      Shaped (.collection trees)

theorem IsParsed.shaped (parsed : root.IsParsed) : root.Shaped := by
  induction parsed with
  | program parsed => exact .program (SourceFile.fits_parse parsed)
  | collection _ ih => exact .collection ih

theorem exists_isParsed {file : SourceFile} {tolerant : Bool} {holds : Node → Prop}
    [DecidablePred holds]
    (checked : (file.parse tolerant).result.toOption.any (fun root => holds root) = true) :
    ∃ root, (file.parse tolerant).result = .ok root ∧ root.IsParsed ∧ holds root := by
  cases parseEq : (file.parse tolerant).result with
  | error fault =>
    rw [parseEq] at checked
    cases checked
  | ok root =>
    rw [parseEq] at checked
    exact ⟨root, rfl, .program parseEq, of_decide_eq_true checked⟩

theorem at?_append (path base : Address) :
    root.at? (path ++ base) = (root.at? base).bind (·.at? path) := by
  induction path with
  | nil =>
    rw [nil_append]
    cases root.at? base <;> rfl
  | cons step path ih =>
    rw [cons_append, at?_cons, ih, Option.bind_assoc]
    rfl

theorem Fits.kind_of_child {child : Node} {file : String} {category : Category}
    (fits : node.Fits file category) (found : node.child? step = some child) :
    node.kind ≠ .identifier ∧ node.kind ≠ .literal := by
  constructor
  · intro isIdentifier
    obtain ⟨spelling, location, rfl⟩ := fits.identifier isIdentifier
    simpa [steps, fields, fieldChildren] using mem_steps.2 found
  · intro isLiteral
    obtain ⟨value, raw, regex, location, rfl⟩ := fits.literal isLiteral
    simpa [steps, fields, fieldChildren] using mem_steps.2 found

/-- Whether a node has its shape and is neither a program nor a collection. -/
def Inner (node : Node) : Prop :=
  ∃ file category, category ≠ Category.program ∧ node.Fits file category

theorem Inner.child {child : Node} (inner : node.Inner) (found : node.child? step = some child) :
    child.Inner := by
  obtain ⟨file, category, _, fits⟩ := inner
  obtain ⟨other, notProgram, childFits⟩ := fits.child found
  exact ⟨file, other, notProgram, childFits⟩

theorem Inner.kind_ne (inner : node.Inner) :
    node.kind ≠ .program ∧ node.kind ≠ .programCollection := by
  obtain ⟨file, category, notProgram, fits⟩ := inner
  exact Category.isInner_of_mem_kinds notProgram node.kind fits.kind_mem

theorem Shaped.kind_eq (shaped : node.Shaped) :
    node.kind = .program ∨ node.kind = .programCollection := by
  cases shaped with
  | program fits => exact .inl (mem_singleton.1 fits.kind_mem)
  | collection _ => exact .inr rfl

theorem steps_collection (trees : List Node) :
    (Node.collection trees).steps = itemChildren 0 (trees.map .node) := by
  simp [steps, Node.collection, fields, fieldChildren]

theorem Shaped.child {child : Node} (shaped : node.Shaped) (found : node.child? step = some child) :
    node.kind = .programCollection ∧ child.Shaped ∨ node.kind = .program ∧ child.Inner := by
  cases shaped with
  | program fits =>
    obtain ⟨other, notProgram, childFits⟩ := fits.child found
    exact .inr ⟨mem_singleton.1 fits.kind_mem, _, other, notProgram, childFits⟩
  | @collection trees shaped =>
    refine .inl ⟨rfl, ?_⟩
    have member := mem_steps.2 found
    rw [steps_collection] at member
    obtain ⟨index, _, itemFound⟩ := mem_itemChildren.1 member
    obtain ⟨item, itemEq, nodeEq⟩ := Option.bind_eq_some_iff.1 itemFound
    obtain ⟨tree, treeMember, rfl⟩ := mem_map.1 (mem_of_getElem? itemEq)
    cases nodeEq
    exact shaped _ treeMember

def AllCollections (places : List Occurrence) : Prop :=
  ∀ place ∈ places, place.node.kind = .programCollection

theorem Shaped.at? (shaped : root.Shaped) (found : root.at? address = some node) :
    node.Shaped ∧ AllCollections (root.above address) ∨ node.Inner := by
  induction address generalizing node with
  | nil =>
    cases found
    exact .inl ⟨shaped, by intro place member; cases member⟩
  | cons step address ih =>
    obtain ⟨parent, parentFound, childFound⟩ := exists_at?_of_cons found
    rcases ih parentFound with ⟨parentShaped, collections⟩ | inner
    · rcases parentShaped.child childFound with ⟨kindEq, childShaped⟩ | ⟨_, inner⟩
      · refine .inl ⟨childShaped, ?_⟩
        rw [above_cons parentFound]
        exact forall_mem_cons.2 ⟨kindEq, collections⟩
      · exact .inr inner
    · exact .inr (inner.child childFound)

theorem Shaped.inner (shaped : root.Shaped) (inside : place.IsIn root)
    (notProgram : place.node.kind ≠ .program)
    (notCollection : place.node.kind ≠ .programCollection) : place.node.Inner := by
  rcases shaped.at? inside with ⟨placeShaped, _⟩ | inner
  · rcases placeShaped.kind_eq with kindEq | kindEq
    · exact absurd kindEq notProgram
    · exact absurd kindEq notCollection
  · exact inner

theorem Shaped.fits (shaped : root.Shaped) (inside : place.IsIn root)
    (notCollection : place.node.kind ≠ .programCollection) :
    ∃ file category, place.node.Fits file category := by
  obtain ⟨address, node⟩ := place
  rcases shaped.at? inside with ⟨placeShaped, _⟩ | ⟨file, category, _, fits⟩
  · cases placeShaped with
    | program fits => exact ⟨_, _, fits⟩
    | collection _ => exact absurd rfl notCollection
  · exact ⟨file, category, fits⟩

theorem Shaped.inner_of_child (shaped : root.Shaped) {child : Occurrence} (inside : place.IsIn root)
    (notCollection : place.node.kind ≠ .programCollection) (member : child ∈ place.children) :
    child.node.Inner := by
  obtain ⟨step, _, found⟩ := Occurrence.mem_children.1 member
  rcases shaped.at? inside with ⟨placeShaped, _⟩ | inner
  · rcases placeShaped.child found with ⟨isCollection, _⟩ | ⟨_, inner⟩
    · exact absurd isCollection notCollection
    · exact inner
  · exact inner.child found

theorem Shaped.children_of_token (shaped : root.Shaped) {token : Occurrence}
    (inside : token.IsIn root)
    (isToken : token.node.kind = .identifier ∨ token.node.kind = .literal) :
    token.children = [] := by
  have notCollection : token.node.kind ≠ .programCollection := by
    rcases isToken with kindEq | kindEq <;> simp [kindEq]
  obtain ⟨file, category, fits⟩ := shaped.fits inside notCollection
  refine eq_nil_iff_forall_not_mem.2 fun child member => ?_
  obtain ⟨step, _, found⟩ := Occurrence.mem_children.1 member
  obtain ⟨notIdentifier, notLiteral⟩ := fits.kind_of_child found
  exact isToken.elim notIdentifier notLiteral

/-- The nodes above a node from the outermost inwards, without the collections around them. -/
def inside (root : Node) (address : Address) : List Occurrence :=
  (root.above address).reverse.dropWhile fun outer => outer.node.kind = .programCollection

theorem inside_eq_nil (collections : AllCollections (root.above address)) :
    root.inside address = [] := by
  refine dropWhile_eq_nil_iff.2 fun place member => ?_
  simpa using collections place (mem_reverse.1 member)

theorem inside_cons (found : root.at? address = some parent)
    (notCollection : parent.kind ≠ .programCollection) :
    root.inside (step :: address) = root.inside address ++ [⟨address, parent⟩] := by
  unfold inside
  rw [above_cons found, reverse_cons, dropWhile_append]
  split
  · rename_i isEmpty
    rw [isEmpty_iff.1 isEmpty]
    simp [notCollection]
  · rfl

theorem Shaped.inside_eq_cons (shaped : root.Shaped) (found : root.at? address = some node)
    (inner : node.Inner) :
    ∃ top rest, root.inside address = top :: rest ∧ top.node.kind = .program := by
  induction address generalizing node with
  | nil =>
    cases found
    rcases shaped.kind_eq with kindEq | kindEq
    · exact absurd kindEq inner.kind_ne.1
    · exact absurd kindEq inner.kind_ne.2
  | cons step address ih =>
    obtain ⟨parent, parentFound, childFound⟩ := exists_at?_of_cons found
    rcases shaped.at? parentFound with ⟨parentShaped, collections⟩ | parentInner
    · rcases parentShaped.child childFound with ⟨_, childShaped⟩ | ⟨kindEq, _⟩
      · rcases childShaped.kind_eq with kindEq | kindEq
        · exact absurd kindEq inner.kind_ne.1
        · exact absurd kindEq inner.kind_ne.2
      · rw [inside_cons parentFound (by simp [kindEq]), inside_eq_nil collections]
        exact ⟨_, [], rfl, kindEq⟩
    · obtain ⟨top, rest, insideEq, kindEq⟩ := ih parentFound parentInner
      rw [inside_cons parentFound parentInner.kind_ne.2, insideEq]
      exact ⟨top, rest ++ [⟨address, parent⟩], rfl, kindEq⟩

theorem around_eq (top : ∀ first ∈ (root.inside address).head?, first.node.kind = .program) :
    root.around address = (root.inside address).reverse := by
  unfold around
  dsimp only
  split
  · rename_i insideEq
    exact (congrArg List.reverse (insideEq : root.inside address = [])).symm
  · rename_i first rest insideEq
    have isFirst : first ∈ (root.inside address).head? := congrArg List.head? insideEq
    exact if_pos (top first isFirst)

/-- Around a node that stands in a program are the nodes above it up to the program; around any other
node is nothing. -/
theorem Shaped.around (shaped : root.Shaped) (found : root.at? address = some node) :
    root.around address = (root.inside address).reverse := by
  refine around_eq fun first firstEq => ?_
  rcases shaped.at? found with ⟨_, collections⟩ | inner
  · rw [inside_eq_nil collections] at firstEq
    cases firstEq
  · obtain ⟨top, rest, insideEq, kindEq⟩ := shaped.inside_eq_cons found inner
    rw [insideEq] at firstEq
    cases firstEq
    exact kindEq

theorem Shaped.around_cons (shaped : root.Shaped) (found : root.at? (step :: address) = some node)
    (parentFound : root.at? address = some parent)
    (notCollection : parent.kind ≠ .programCollection) :
    root.around (step :: address) = ⟨address, parent⟩ :: root.around address := by
  rw [shaped.around found, shaped.around parentFound, inside_cons parentFound notCollection]
  simp

theorem Shaped.above_of_collection (shaped : root.Shaped)
    (parentFound : root.at? address = some parent)
    (isCollection : parent.kind = .programCollection) :
    AllCollections (root.above (step :: address)) := by
  rw [above_cons parentFound]
  rcases shaped.at? parentFound with ⟨_, collections⟩ | inner
  · exact forall_mem_cons.2 ⟨isCollection, collections⟩
  · exact absurd isCollection inner.kind_ne.2

theorem Shaped.find?_around (shaped : root.Shaped) (found : root.at? address = some node)
    {wanted : Occurrence → Bool}
    (noCollection : ∀ outer, outer.node.kind = .programCollection → wanted outer = false) :
    (root.around address).find? wanted = (root.above address).find? wanted := by
  induction address generalizing node with
  | nil => rw [shaped.around found]; rfl
  | cons step address ih =>
    obtain ⟨parent, parentFound, _⟩ := exists_at?_of_cons found
    by_cases isCollection : parent.kind = .programCollection
    · have collections : AllCollections (root.above (step :: address)) :=
        shaped.above_of_collection parentFound isCollection
      rw [shaped.around found, inside_eq_nil collections, reverse_nil, List.find?_nil]
      refine (List.find?_eq_none.2 fun outer member => ?_).symm
      simp [noCollection outer (collections outer member)]
    · rw [shaped.around_cons found parentFound isCollection, above_cons parentFound,
        List.find?_cons, List.find?_cons, ih parentFound]

theorem Shaped.exists_enclosingFunction (shaped : root.Shaped)
    (found : root.at? address = some node) (inner : node.Inner) :
    ∃ function, root.enclosingFunction? address = some function := by
  obtain ⟨top, rest, insideEq, isProgram⟩ := shaped.inside_eq_cons found inner
  refine Option.isSome_iff_exists.1 (List.find?_isSome.2 ⟨top, ?_, by simp [isProgram]⟩)
  rw [shaped.around found, insideEq]
  exact mem_reverse.2 mem_cons_self

theorem Shaped.parent? (shaped : root.Shaped) (found : root.at? (step :: address) = some node)
    (parentFound : root.at? address = some parent)
    (notCollection : parent.kind ≠ .programCollection) :
    root.parent? (step :: address) = some ⟨address, parent⟩ := by
  rw [Node.parent?, shaped.around_cons found parentFound notCollection]
  rfl

theorem Shaped.exists_parent (shaped : root.Shaped) (inside : place.IsIn root)
    (inner : place.node.Inner) :
    ∃ (step : Step) (parent : Occurrence), place.address = step :: parent.address ∧
      parent.IsIn root ∧
      place ∈ parent.children ∧ parent.node.kind ≠ .programCollection := by
  obtain ⟨address, node⟩ := place
  cases address with
  | nil =>
    cases inside
    rcases shaped.kind_eq with kindEq | kindEq
    · exact absurd kindEq inner.kind_ne.1
    · exact absurd kindEq inner.kind_ne.2
  | cons step rest =>
    obtain ⟨parent, parentFound, childFound⟩ := exists_at?_of_cons inside
    refine ⟨step, ⟨rest, parent⟩, rfl, parentFound,
      Occurrence.mem_children.2 ⟨step, rfl, childFound⟩, ?_⟩
    intro isCollection
    rcases shaped.at? parentFound with ⟨parentShaped, _⟩ | parentInner
    · rcases parentShaped.child childFound with ⟨_, childShaped⟩ | ⟨isProgram, _⟩
      · rcases childShaped.kind_eq with kindEq | kindEq
        · exact absurd kindEq inner.kind_ne.1
        · exact absurd kindEq inner.kind_ne.2
      · exact absurd (isProgram.symm.trans isCollection) (by decide)
    · exact absurd isCollection parentInner.kind_ne.2

end Node

end Namesake
