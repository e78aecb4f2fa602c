import Namesake.Proofs.Inference.Expression
import Namesake.Proofs.Inference.Statement

/-!
Every node of a tree of source files can be visited, by induction from the leaves upwards, and
so every program.
-/

namespace Namesake

open World

namespace Infer

variable {root : Node}

theorem visited (shaped : root.Shaped) (place : Occurrence) (inside : place.IsIn root) :
    ∀ inner ∈ place.walk, Visited root inner := by
  induction place using Occurrence.induct with
  | step place ih =>
    have below : Below root place.address := by
      intro step inner innerIn suffix
      obtain ⟨node, found⟩ := Node.exists_at?_of_suffix suffix innerIn
      have childIn : (⟨step :: place.address, node⟩ : Occurrence).IsIn root := found
      have member : (⟨step :: place.address, node⟩ : Occurrence) ∈ place.children := by
        rw [Node.at?_cons, show root.at? place.address = _ from inside] at found
        exact Occurrence.mem_children.2 ⟨step, rfl, found⟩
      exact ih _ member childIn inner ((Occurrence.mem_walk_iff _ childIn).2 ⟨innerIn, suffix⟩)
    rw [Occurrence.walk_eq]
    intro inner member
    rcases List.mem_cons.1 member with rfl | member
    · exact ⟨fun kinds fits used => below.visitsStatement shaped inside used kinds fits,
        fun kinds fits used => below.visitsExpression shaped inside used kinds fits⟩
    · obtain ⟨child, childMember, member⟩ := List.mem_flatMap.1 member
      exact ih child childMember (inside.child childMember) inner member

theorem below (shaped : root.Shaped) (address : Address) : Below root address :=
  fun _ inner inside _ =>
    visited shaped inner inside inner (Occurrence.walk_eq inner ▸ List.mem_cons_self)

theorem visits_root (shaped : root.Shaped) {node : Node} (nodeShaped : node.Shaped)
    (address : Address) (inside : (⟨address, node⟩ : Occurrence).IsIn root)
    (used : root.use? address = some .tree) :
    Visits root address (visitRoot root.scopes address node) () := by
  induction nodeShaped generalizing address with
  | @program file node fits =>
    obtain ⟨kind, fields, location⟩ := node
    obtain rfl : kind = .program := List.mem_singleton.1 fits.kind_mem
    obtain ⟨body, sourceType, rfl, bodyFits, typeFits⟩ := (fits.allFit_of rfl).two
    obtain ⟨_, rfl⟩ := Field.fits_text.1 typeFits
    intro before ready
    have reached := Reached.start inside used ready
    refine ((below shaped address).statements reached rfl rfl bodyFits fun _ => rfl).mono
      fun _ _ reached => ⟨rfl, ?_⟩
    exact (reached.skipData rfl).finishIdle (Nat.le_refl 2) rfl rfl
  | @collection trees _ ih =>
    intro before ready
    refine (runs_items (visitRootItems root.scopes address) rfl rfl (fun _ => rfl)
      (fun member childIn childUsed ready goesOn => ?_) (Reached.start inside used ready)).mono
      fun _ _ reached => ⟨rfl, reached.finishIdle (Nat.le_refl 1) rfl rfl⟩
    exact (ih _ member _ childIn childUsed _ ready).bind fun _ after ran => goesOn after ran.2.1 ran.2.2

end Infer

namespace World

/-- The world before anything is read, with the global object as its only type. -/
def start : World where
  typing := Typing.start
  history := [(.newNode, some Typing.globalType)]
  label _ := .global

theorem good_start (constraints : Constraint → Prop) : start.Good constraints where
  run := TypeGraph.Run.start.step .newNode (by simp [TypeGraph.Operation.operands])
  explained := ⟨by simp [start], by simp [start], by simp [start]⟩
  asked := by simp [start]
  marked := by simp [start]
  globalIn := Nat.zero_lt_one
  globalLabel := rfl
  types address id found := by cases found
  boundOnce scope name left right _ _ labelled := by cases labelled
  methods pair member := by cases member

theorem ready_start (root : Node) : Ready root [] start where
  good := good_start _
  stands := ⟨[], rfl, .nil⟩
  fresh _ _ := ⟨rfl, rfl, fun _ _ _ labelled => by cases labelled⟩

end World

theorem exists_visited {root : Node} (shaped : root.Shaped) :
    ∃ world : World, Infer.visitRoot root.scopes [] root Typing.start = .ok ((), world.typing) ∧
        world.Good root.Demands ∧ Done root world [] := by
  obtain ⟨_, world, visitEq, _, within, done⟩ :=
    Infer.visits_root shaped shaped [] rfl rfl World.start (World.ready_start root)
  exact ⟨world, visitEq, within.good, done⟩

end Namesake
