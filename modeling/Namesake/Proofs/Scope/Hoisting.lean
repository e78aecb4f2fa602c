import Mathlib.Data.List.Induction
import Namesake.Proofs.Scope.Declarations

/-!
The search for the declarations of a scope goes down from it and stops at inner functions.  Seen
from a declaration, it belongs to the nearest function or program above it.
-/

namespace Namesake

open Occurrence List

namespace Node

/-- Whether a node is a declarator or a function declaration whose nearest function or program is
the given one. -/
def isHoistedTo (root : Node) (scope place : Occurrence) : Bool :=
  (place.node.kind = .functionDeclaration || place.node.kind = .variableDeclarator) &&
    (root.enclosingFunction? place.address).map Occurrence.address = some scope.address

/-- The declarations of a scope in order: its own ones, which are all that a catch clause has, and
then the names of what is hoisted to it, in the order of the text. -/
def declaredIn (root : Node) (scope : Occurrence) : List Declaration :=
  scope.ownDeclarations ++ if scope.node.kind = .catchClause then []
    else (root.walk.filter (root.isHoistedTo scope)).flatMap fun place => place.declarationsIn 0

/-- Whether a node keeps the names that are declared below it. -/
def keepsNames (node : Node) : Bool :=
  node.kind.isFunction || node.kind = .program

theorem keepsNames_of_collection (outer : Occurrence)
    (isCollection : outer.node.kind = .programCollection) : outer.node.keepsNames = false := by
  rw [keepsNames, isCollection]
  rfl

section Shaped

variable {root : Node} {place scope : Occurrence} (shaped : root.Shaped)

include shaped

theorem enclosingFunction?_child (inside : place.IsIn root) {child : Occurrence}
    (member : child ∈ place.children) :
    root.enclosingFunction? child.address =
      if place.node.keepsNames then some place else root.enclosingFunction? place.address := by
  have around := shaped.find?_around (inside.child member) keepsNames_of_collection
  have outer := shaped.find?_around inside keepsNames_of_collection
  obtain ⟨step, addressEq, _⟩ := mem_children.1 member
  rw [addressEq, above_cons inside, List.find?_cons, ← outer] at around
  rw [addressEq]
  refine around.trans ?_
  cases place.node.keepsNames <;> rfl

theorem suffix_of_isHoistedTo (inside : place.IsIn root) (keeps : place.node.keepsNames = true)
    {inner : Occurrence} (innerIn : inner.IsIn root) (below : place.address <:+ inner.address)
    (apart : place.address ≠ inner.address) (hoisted : root.isHoistedTo scope inner = true) :
    place.address <:+ scope.address := by
  obtain ⟨path, pathEq⟩ := below
  have notEmpty : path ≠ [] := by
    rintro rfl
    exact apart pathEq
  have around := shaped.find?_around innerIn keepsNames_of_collection
  rw [Occurrence.IsIn, ← pathEq] at innerIn
  obtain ⟨function, found, suffix⟩ := @Occurrence.exists_find?_above _ _ _ inside
    (fun outer => outer.node.keepsNames) keeps _ notEmpty innerIn
  rw [pathEq, ← around] at found
  have enclosed : root.enclosingFunction? inner.address = some function := found
  rw [isHoistedTo, enclosed] at hoisted
  simp only [Option.map_some, Option.some.injEq, Bool.and_eq_true, decide_eq_true_eq] at hoisted
  exact hoisted.2 ▸ suffix

theorem exists_of_isHoistedTo {inner : Occurrence} (innerIn : inner.IsIn root)
    (hoisted : root.isHoistedTo scope inner = true) :
    ∃ step path, inner.address = path ++ step :: scope.address := by
  have around := shaped.find?_around innerIn keepsNames_of_collection
  obtain ⟨_, enclosed⟩ := Bool.and_eq_true_iff.1 hoisted
  obtain ⟨function, found, same⟩ := Option.map_eq_some_iff.1 (of_decide_eq_true enclosed)
  have inAbove := mem_of_find?_eq_some (around.symm.trans found)
  exact same ▸ (of_mem_above inAbove).2

theorem filter_walk_isHoistedTo (place : Occurrence) (inside : place.IsIn root)
    (enclosed : (root.enclosingFunction? place.address).map Occurrence.address = some scope.address)
    (below : ¬ place.address <:+ scope.address) :
    (place.walk.filter (root.isHoistedTo scope)).flatMap (fun inner => inner.declarationsIn 0) =
      place.hoisted := by
  induction place using Occurrence.induct with
  | step place ih =>
    have own : (if root.isHoistedTo scope place then place.declarationsIn 0 else []) =
        place.outerDeclarations := by
      rw [isHoistedTo, enclosed, decide_eq_true rfl, Bool.and_true]
      rfl
    have inner : ((place.children.flatMap Occurrence.walk).filter
        (root.isHoistedTo scope)).flatMap (fun inner => inner.declarationsIn 0) =
          if place.node.keepsNames then [] else place.children.flatMap Occurrence.hoisted := by
      rw [filter_flatMap, flatMap_assoc]
      split
      · rename_i keeps
        refine flatMap_eq_nil_iff.2 fun child member => ?_
        rw [filter_eq_nil_iff.2, flatMap_nil]
        intro inner innerMember hoisted
        have childIn := inside.child member
        obtain ⟨_, addressEq, _⟩ := mem_children.1 member
        obtain ⟨innerIn, suffix⟩ := (mem_walk_iff child childIn).1 innerMember
        rw [addressEq] at suffix
        refine below (suffix_of_isHoistedTo shaped inside keeps innerIn
          ((suffix_cons _ _).trans suffix) (fun same => ?_) hoisted)
        rw [← same] at suffix
        exact absurd suffix.length_le (Nat.not_succ_le_self _)
      · rename_i passes
        refine flatMap_congr fun child member => ?_
        obtain ⟨_, addressEq, _⟩ := mem_children.1 member
        refine ih child member (inside.child member) ?_ fun suffix => below ?_
        · rw [enclosingFunction?_child shaped inside member, if_neg passes]
          exact enclosed
        · rw [addressEq] at suffix
          exact (suffix_cons _ _).trans suffix
    rw [walk_eq, Scopes.hoisted_eq, ← own, filter_cons]
    change _ = _ ++ if place.node.keepsNames then [] else _
    rw [← inner]
    cases root.isHoistedTo scope place <;> rfl

theorem declaredIn_eq (inside : scope.IsIn root) (isScope : scope.node.kind.isScope = true) :
    root.declaredIn scope = scope.declarations := by
  unfold declaredIn Occurrence.declarations
  refine congrArg (scope.ownDeclarations ++ ·) ?_
  split
  · rfl
  · rename_i notClause
    have keeps : scope.node.keepsNames = true := by
      simp only [Kind.isScope, Bool.or_eq_true, decide_eq_true_eq] at isScope
      simp only [keepsNames, Bool.or_eq_true, decide_eq_true_eq]
      tauto
    have below (inner : Occurrence) (innerIn : inner.IsIn root)
        (hoisted : root.isHoistedTo scope inner = true) : scope.address <:+ inner.address := by
      obtain ⟨step, path, addressEq⟩ := exists_of_isHoistedTo shaped innerIn hoisted
      exact ⟨path ++ [step], by simp [addressEq]⟩
    have notItself : root.isHoistedTo scope scope ≠ true := by
      intro hoisted
      obtain ⟨step, path, addressEq⟩ := exists_of_isHoistedTo shaped inside hoisted
      have length := congrArg List.length addressEq
      simp only [length_append, length_cons] at length
      omega
    rw [filter_walk_of_suffix inside below, walk_eq, filter_cons_of_neg notItself,
      filter_flatMap, flatMap_assoc]
    refine flatMap_congr fun child member => ?_
    obtain ⟨_, addressEq, _⟩ := mem_children.1 member
    refine filter_walk_isHoistedTo shaped child (inside.child member) ?_ fun suffix => ?_
    · rw [enclosingFunction?_child shaped inside member, if_pos keeps]
      rfl
    · rw [addressEq] at suffix
      exact absurd suffix.length_le (Nat.not_succ_le_self _)

end Shaped

end Node

def Declaration.spelling : Declaration → Text
  | (.text name, _) => name
  | (.other _ _, _) => ⟨[]⟩

theorem Env.declares_text {names : List (Text × Address)} {name : Text} :
    (Env.ofDeclarations (names.map (Prod.map Name.text id))).declares (.text name) = true ↔
      name ∈ names.map Prod.fst := by
  rw [Env.declares_ofDeclarations]
  simp [Prod.map]

theorem Env.keys_ofDeclarations (names : List (Text × Address)) :
    (Env.ofDeclarations (names.map (Prod.map Name.text id))).map Prod.fst =
      (names.map Prod.fst).eraseDups.map Name.text := by
  induction names using List.reverseRecOn with
  | nil => rfl
  | append_singleton names entry ih =>
    obtain ⟨name, address⟩ := entry
    rw [map_append, Env.ofDeclarations_append, map_append, eraseDups_append, map_append, ← ih]
    change (Env.declare _ (.text name) address).map Prod.fst = _
    unfold Env.declare
    split
    · rename_i declared
      rw [Env.declares_text] at declared
      simp [List.removeAll, declared]
    · rename_i undeclared
      rw [Env.declares_text] at undeclared
      simp [List.removeAll, undeclared, eraseDups_cons]

theorem Env.find?_text (names : List (Text × Address)) (name : Text) :
    (Env.ofDeclarations (names.map (Prod.map Name.text id))).find? (.text name) =
      names.lookup name := by
  rw [Env.find?_ofDeclarations]
  induction names with
  | nil => rfl
  | cons entry rest ih =>
    obtain ⟨own, address⟩ := entry
    rw [map_cons, lookup_cons]
    by_cases same : name = own
    · subst same
      rw [List.find?_cons_of_pos (by simp), beq_self_eq_true]
      rfl
    · rw [List.find?_cons_of_neg (by simp [Ne.symm same]), beq_eq_false_iff_ne.2 same]
      exact ih

theorem Node.Shaped.text_of_declarations {root : Node} (shaped : root.Shaped) {scope : Occurrence}
    (inside : scope.IsIn root) :
    ∃ names : List (Text × Address), scope.declarations = names.map (Prod.map Name.text id) := by
  refine ⟨scope.declarations.map fun entry => (entry.spelling, entry.2), ?_⟩
  rw [map_map]
  refine (map_id _).symm.trans (map_congr_left fun declaration member => ?_)
  have isText : ∃ name, declaration.1 = .text name := by
    rcases of_mem_declarations inside member with ⟨_, rfl⟩ | ⟨token, tokenIn, declared⟩
    · exact ⟨_, rfl⟩
    · exact shaped.text_of_name? tokenIn (Occurrence.declaration?_eq_some.1 declared).1
  obtain ⟨name, nameEq⟩ := isText
  obtain ⟨_, address⟩ := declaration
  cases nameEq
  rfl

/-- The environment of a scope has the names that the scope declares, each of them once and in the
order of their first declarations, and maps each name to the node that declares it first. -/
theorem env_eq_first_declarations {root : Node} (parsed : root.IsParsed) :
    ∃ codebase, Codebase.ofRoot root = .ok codebase ∧ codebase.root = root ∧
      ∀ scope ∈ root.walk, scope.node.kind.isScope = true →
        ∃ (env : Env) (names : List (Text × Address)),
          codebase.scopes.env? scope.address = some env ∧
          root.declaredIn scope = names.map (Prod.map Name.text id) ∧
          env.map Prod.fst = (names.map Prod.fst).eraseDups.map Name.text ∧
          ∀ name, env.find? (.text name) = names.lookup name := by
  refine ⟨root.codebase, Codebase.ofRoot_eq parsed.shaped, rfl, fun scope member isScope => ?_⟩
  have inside := Node.mem_walk.1 member
  obtain ⟨names, namesEq⟩ := parsed.shaped.text_of_declarations inside
  refine ⟨_, names, Codebase.env?_codebase inside isScope, ?_, ?_, ?_⟩
  · rw [Node.declaredIn_eq parsed.shaped inside isScope, namesEq]
  · rw [namesEq, Env.keys_ofDeclarations]
  · intro name
    rw [namesEq, Env.find?_text]

/-- A function expression whose parameters, own name and hoisted names repeat each other. -/
theorem env_eq_first_declarations_repeated :
    ∃ root, ((⟨"", "x=function g(a,a){try{}catch(b){var b,a}function g(){}}"⟩ :
        SourceFile).parse false).result = .ok root ∧
      root.IsParsed ∧ ∃ codebase scope env, Codebase.ofRoot root = .ok codebase ∧
        scope ∈ root.walk ∧ scope.node.kind = .functionExpression ∧
        codebase.scopes.env? scope.address = some env ∧
        env.map Prod.fst = ["a", "arguments", "g", "b"].map fun word => .text (.ofString word) := by
  have checked : ((⟨"", "x=function g(a,a){try{}catch(b){var b,a}function g(){}}"⟩ :
      SourceFile).parse false).result.toOption.any (fun root => ∃ scope ∈ root.walk,
        scope.node.kind = .functionExpression ∧ (root.declaredIn scope).map Declaration.spelling =
          ["a", "a", "arguments", "g", "b", "a", "g"].map Text.ofString) = true := by
    decide +kernel
  obtain ⟨root, parseEq, parsed, scope, member, isFunction, spelled⟩ := Node.exists_isParsed checked
  obtain ⟨codebase, analysed, _, declared⟩ := env_eq_first_declarations parsed
  obtain ⟨env, names, envEq, namesEq, keysEq, _⟩ := declared scope member (by rw [isFunction]; rfl)
  refine ⟨root, parseEq, parsed, codebase, scope, env, analysed, member, isFunction, envEq, ?_⟩
  rw [namesEq, List.map_map] at spelled
  rw [keysEq, show names.map Prod.fst = _ from spelled]
  have once : (["a", "a", "arguments", "g", "b", "a", "g"].map Text.ofString).eraseDups =
      ["a", "arguments", "g", "b"].map Text.ofString := by decide
  rw [once, List.map_map]
  rfl

end Namesake
