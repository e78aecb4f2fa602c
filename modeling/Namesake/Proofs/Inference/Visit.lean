import Namesake.Proofs.Inference.Function

/-!
To visit a node that inference has not touched does what the node and all nodes below it demand.
-/

namespace Namesake

open Option Occurrence List World

variable {other : Address} {items : List Field} {child : Node} {step : Step}
variable {address : Address} {field item : Nat}

/-- Whether inference did what a node demands and left its scope behind. -/
structure Settled (root : Node) (world : World) (place : Occurrence) : Prop where
  demands : ∀ demand ∈ root.constraintsAt place, world.Satisfies demand
  scope : place.node.isShadowing = true → (root.use? place.address).isSome = true → world.Left place

def Done (root : Node) (world : World) (address : Address) : Prop :=
  ∀ place : Occurrence, place.IsIn root → address <:+ place.address → Settled root world place

/-- Whether a node can be visited now. -/
structure Ready (root : Node) (address : Address) (world : World) : Prop where
  good : world.Good root.Demands
  stands : world.Stands root address
  fresh : ∀ other, address <:+ other → world.Untouched other

def Visits {α : Type} (root : Node) (address : Address) (step : Infer α) (result : α) : Prop :=
  ∀ before, Ready root address before → Infer.Runs step before fun answer after =>
    answer = result ∧ Within root.Demands address before after ∧ Done root after address

section Done

variable {root : Node} {address : Address} {first second : World}

theorem World.Extends.settled (grown : first.Extends second) {place : Occurrence}
    (settled : Settled root first place) : Settled root second place :=
  ⟨fun demand member => grown.satisfies (settled.demands demand member),
    fun isShadowing used => grown.left (settled.scope isShadowing used)⟩

theorem World.Extends.done (grown : first.Extends second) (done : Done root first address) :
    Done root second address :=
  fun place inside below => grown.settled (done place inside below)

theorem Node.use?_eq_none {outer inner : Address} (suffix : outer <:+ inner)
    (unused : root.use? outer = none) : root.use? inner = none := by
  obtain ⟨path, rfl⟩ := suffix
  induction path with
  | nil => exact unused
  | cons step path ih =>
    rw [cons_append, Node.use?, ih]
    rfl

theorem done_of_unused (world : World) (unused : root.use? address = none) :
    Done root world address := by
  intro place _ below
  have noUse := Node.use?_eq_none below unused
  refine ⟨fun demand member => ?_, fun _ used => ?_⟩
  · rw [Node.constraintsAt, noUse] at member
    cases member
  · rw [noUse] at used
    cases used

theorem done_of_absent (world : World) (absent : root.at? address = none) :
    Done root world address := by
  intro place inside below
  obtain ⟨node, found⟩ := Node.exists_at?_of_suffix below inside
  rw [absent] at found
  cases found

theorem done_of_childless {place : Occurrence} (world : World) (inside : place.IsIn root)
    {step : Step} (absent : place.node.child? step = none) :
    Done root world (step :: place.address) := by
  refine done_of_absent world ?_
  rw [Node.at?_cons, show root.at? place.address = _ from inside]
  exact absent

theorem done_of_children {place : Occurrence} (inside : place.IsIn root)
    (settled : Settled root first place)
    (children : ∀ step, Done root first (step :: place.address)) :
    Done root first place.address := by
  rintro inner innerIn ⟨path, addressEq⟩
  rcases eq_nil_or_concat path with rfl | ⟨path, step, rfl⟩
  · rw [innerIn.eq_of_address inside addressEq.symm]
    exact settled
  · exact children step inner innerIn ⟨path, by simpa using addressEq⟩

end Done

def Step.Before (field item : Nat) (step : Step) : Prop :=
  step.field < field ∨ step.field = field ∧ ∃ index, step.item = some index ∧ index < item

/-- The addresses of a node and of all that it has passed. -/
def Around (address : Address) (field item : Nat) (other : Address) : Prop :=
  other = address ∨ ∃ step : Step, step.Before field item ∧ step :: address <:+ other

/-- How far the visit of a node has come: all before an item of a field is done. -/
structure Reached (root : Node) (place : Occurrence) (use : Use) (field item : Nat)
    (origin world : World) : Prop where
  inside : place.IsIn root
  used : root.use? place.address = some use
  within : Within root.Demands place.address origin world
  stands : world.Stands root place.address
  done : ∀ step : Step, step.Before field item → Done root world (step :: place.address)
  fresh : ∀ step : Step, ¬ step.Before field item → (place.node.child? step).isSome = true →
    ∀ other, step :: place.address <:+ other → world.Untouched other

abbrev around (root : Node) (address : Address) (field item : Nat) (world : World) :
    Infer.Setting :=
  ⟨root.Demands, Around address field item, Around address field item, world⟩

theorem Step.not_before_zero (step : Step) : ¬ step.Before 0 0 := by
  rintro (less | ⟨_, _, _, less⟩)
  · exact Nat.not_lt_zero _ less
  · exact Nat.not_lt_zero _ less

theorem Around.suffix (around : Around address field item other) : address <:+ other := by
  rcases around with rfl | ⟨step, _, below⟩
  · exact suffix_refl _
  · exact (suffix_cons step address).trans below

theorem Around.self : Around address field item address :=
  .inl rfl

theorem Around.of_field (step : Step) (less : step.field < field)
    (below : step :: address <:+ other) :
    Around address field item other :=
  .inr ⟨step, .inl less, below⟩

theorem Around.of_item {index : Nat} (less : index < item)
    (below : Infer.inItem address field index <:+ other) : Around address field item other :=
  .inr ⟨⟨field, some index⟩, .inr ⟨rfl, index, rfl, less⟩, below⟩

theorem eq_of_cons_suffix {left right : Step} (ofLeft : left :: address <:+ other)
    (ofRight : right :: address <:+ other) : left = right := by
  have same := (suffix_of_suffix_length_le ofLeft ofRight (by simp)).eq_of_length (by simp)
  exact (List.cons.inj same).1

theorem not_cons_suffix (step : Step) (address : Address) : ¬ step :: address <:+ address :=
  fun below => absurd below.length_le (Nat.not_succ_le_self _)

namespace Reached

variable {root : Node} {place : Occurrence} {use : Use} {field item : Nat}
  {origin world after : World}

theorem start (inside : place.IsIn root) (used : root.use? place.address = some use)
    (ready : Ready root place.address world) : Reached root place use 0 0 world world where
  inside := inside
  used := used
  within := .refl ready.good
  stands := ready.stands
  done step before := absurd before step.not_before_zero
  fresh step _ _ other below := ready.fresh other ((suffix_cons step _).trans below)

theorem still (reached : Reached root place use field item origin world) :
    Advance root.Demands (Around place.address field item) (Around place.address field item) world
      world :=
  .refl reached.within.good

theorem own (reached : Reached root place use field item origin world)
    (advance : Advance root.Demands (Around place.address field item)
      (Around place.address field item) world after) :
    Reached root place use field item origin after := by
  refine { reached with
    within := reached.within.trans (advance.mono (fun _ => Around.suffix) fun _ => Around.suffix)
    stands := reached.stands.of_extends advance.grown advance.stack
    done := fun step before => advance.grown.done (reached.done step before)
    fresh := fun step notBefore isChild other below => ?_ }
  have outside : ¬ Around place.address field item other := by
    rintro (rfl | ⟨passed, before, belowPassed⟩)
    · exact not_cons_suffix step _ below
    · rw [eq_of_cons_suffix below belowPassed] at notBefore
      exact notBefore before
  exact advance.untouched outside outside (reached.fresh step notBefore isChild other below)

theorem does {α : Type} {known : List (TypeName × TypeId)} {step : Infer α} {result : α}
    {demands : List Constraint} (reached : Reached root place use field item origin world)
    (knows : Infer.Knows known world)
    (does : Infer.Does (around root place.address field item world) known step result demands) :
    Infer.Runs step world fun answer after => answer = result ∧ world.Extends after ∧
      Reached root place use field item origin after ∧
      ∀ demand ∈ demands, after.Satisfies demand :=
  (does world reached.still knows).mono fun _ _ ran =>
    ⟨ran.1, ran.2.grown, reached.own ran.2.advance, ran.2.satisfied⟩

theorem skip {field' item' : Nat} (reached : Reached root place use field item origin world)
    (further : ∀ step : Step, step.Before field item → step.Before field' item')
    (done : ∀ step : Step, step.Before field' item' → ¬ step.Before field item →
      Done root world (step :: place.address)) :
    Reached root place use field' item' origin world := by
  refine { reached with
    done := fun step before => ?_
    fresh := fun step notBefore => reached.fresh step fun before => notBefore (further step before) }
  by_cases already : step.Before field item
  · exact reached.done step already
  · exact done step before already

theorem ready (reached : Reached root place use field item origin world)
    (notScope : place.node.isShadowing = false) (notBefore : ¬ step.Before field item)
    (isChild : (place.node.child? step).isSome = true) :
    Ready root (step :: place.address) world := by
  have inside : root.at? place.address = some place.node := reached.inside
  have same : root.shadowing (step :: place.address) = root.shadowing place.address := by
    rw [Node.shadowing, Node.above_cons inside, filter_cons_of_neg (by simp [notScope])]
    rfl
  obtain ⟨envs, stackEq, binds⟩ := reached.stands
  exact ⟨reached.within.good, ⟨envs, stackEq, same ▸ binds⟩, reached.fresh step notBefore isChild⟩

theorem pass {field' item' : Nat} (reached : Reached root place use field item origin world)
    (further : ∀ other : Step, other.Before field item → other.Before field' item')
    (before : step.Before field' item')
    (others : ∀ other : Step, other.Before field' item' → ¬ other.Before field item → other = step
      ∨ place.node.child? other = none)
    (within : Within root.Demands (step :: place.address) world after)
    (done : Done root after (step :: place.address)) :
    Reached root place use field' item' origin after where
  inside := reached.inside
  used := reached.used
  within := reached.within.trans (Within.outer within)
  stands := reached.stands.of_extends within.grown within.stack
  done other otherBefore := by
    by_cases already : other.Before field item
    · exact within.grown.done (reached.done other already)
    · rcases others other otherBefore already with rfl | absent
      · exact done
      · exact done_of_childless after reached.inside absent
  fresh other notOther isOther address below := by
    have outside : ¬ step :: place.address <:+ address := by
      intro belowStep
      rw [eq_of_cons_suffix below belowStep] at notOther
      exact notOther before
    exact within.untouched outside outside
      (reached.fresh other (fun otherBefore => notOther (further other otherBefore)) isOther address
        below)

theorem demanded (reached : Reached root place use field item origin world)
    {demand : Constraint}
    (member : demand ∈ place.node.constraints (root.resolve place.address) use place.address) :
    root.Demands demand :=
  Node.demands_of_mem reached.inside reached.used member

theorem finish (reached : Reached root place use field 0 origin world)
    (passed : place.node.fields.length ≤ field)
    (satisfied : ∀ demand ∈ place.node.constraints (root.resolve place.address) use place.address,
      world.Satisfies demand)
    (left : place.node.isShadowing = true → world.Left place) :
    Within root.Demands place.address origin world ∧ Done root world place.address := by
  have settled : Settled root world place := by
    refine ⟨fun demand member => satisfied demand ?_, fun isShadowing _ => left isShadowing⟩
    rw [Node.constraintsAt, reached.used] at member
    exact member
  refine ⟨reached.within, done_of_children reached.inside settled fun step => ?_⟩
  by_cases before : step.Before field 0
  · exact reached.done step before
  · refine done_of_childless world reached.inside ?_
    rw [Node.child?,
      List.getElem?_eq_none (passed.trans (Nat.not_lt.1 fun less => before (.inl less)))]

theorem finishPlain (reached : Reached root place use field 0 origin world)
    (passed : place.node.fields.length ≤ field) (notScope : place.node.isShadowing = false)
    (satisfied : ∀ demand ∈ place.node.constraints (root.resolve place.address) use place.address,
      world.Satisfies demand) :
    Within root.Demands place.address origin world ∧ Done root world place.address :=
  reached.finish passed satisfied fun isShadowing => by
    rw [notScope] at isShadowing
    cases isShadowing

/-- The node does what it demands, and then its visit is over. -/
theorem finishes {α : Type} {known : List (TypeName × TypeId)} {step : Infer α} {result : α}
    (reached : Reached root place use field 0 origin world)
    (passed : place.node.fields.length ≤ field) (notScope : place.node.isShadowing = false)
    (knows : Infer.Knows known world)
    (does : Infer.Does (around root place.address field 0 world) known step result
      (place.node.constraints (root.resolve place.address) use place.address)) :
    Infer.Runs step world fun answer after => answer = result ∧
      Within root.Demands place.address origin after ∧ Done root after place.address :=
  (reached.does knows does).mono fun _ _ ran =>
    ⟨ran.1, ran.2.2.1.finishPlain passed notScope ran.2.2.2⟩

theorem finishIdle (reached : Reached root place use field 0 origin world)
    (passed : place.node.fields.length ≤ field) (notScope : place.node.isShadowing = false)
    (idle : place.node.constraints (root.resolve place.address) use place.address = []) :
    Within root.Demands place.address origin world ∧ Done root world place.address := by
  refine reached.finishPlain passed notScope fun demand member => ?_
  rw [idle] at member
  cases member

end Reached

section Fields

variable {root node : Node} {address : Address} {use : Use} {field item : Nat}
  {origin world : World}

theorem Step.Before.succ (before : step.Before field item) :
    step.Before (field + 1) 0 := by
  rcases before with less | ⟨same, _⟩
  · exact .inl (Nat.lt_succ_of_lt less)
  · exact .inl (same ▸ Nat.lt_succ_self _)

theorem Step.Before.succItem (before : step.Before field item) : step.Before field (item + 1) := by
  refine before.imp id fun sameField => ?_
  obtain ⟨same, index, isItem, less⟩ := sameField
  exact ⟨same, index, isItem, Nat.lt_succ_of_lt less⟩

theorem Step.field_of_before (before : step.Before (field + 1) 0)
    (notBefore : ¬ step.Before field item) : step.field = field := by
  rcases before with less | ⟨_, _, _, less⟩
  · exact Nat.le_antisymm (Nat.le_of_lt_succ less) (Nat.not_lt.1 fun less => notBefore (.inl less))
  · exact absurd less (Nat.not_lt_zero _)

theorem Step.eq_of_before (before : step.Before field (item + 1))
    (notBefore : ¬ step.Before field item) : step = ⟨field, some item⟩ := by
  obtain ⟨stepField, stepItem⟩ := step
  rcases before with less | ⟨rfl, index, rfl, less⟩
  · exact absurd (.inl less) notBefore
  · have atLeast : item ≤ index := Nat.not_lt.1 fun less => notBefore (.inr ⟨rfl, index, rfl, less⟩)
    rw [Nat.le_antisymm (Nat.le_of_lt_succ less) atLeast]

section

variable (reached : Reached root ⟨address, node⟩ use field item origin world)

include reached

theorem Reached.use?_cons (step : Step) : root.use? (step :: address) = node.useIn? use step := by
  have inside : root.at? address = some node := reached.inside
  have used : root.use? address = some use := reached.used
  rw [Node.use?, used, bind_some, inside, bind_some]

theorem Reached.skipField
    (nothing : ∀ step : Step, step.field = field → ¬ step.Before field item →
      node.useIn? use step = none ∨ node.child? step = none) :
    Reached root ⟨address, node⟩ use (field + 1) 0 origin world := by
  refine reached.skip (fun step before => before.succ) fun step before notBefore => ?_
  rcases nothing step (Step.field_of_before before notBefore) notBefore with unused | absent
  · refine done_of_unused world ?_
    rw [reached.use?_cons]
    exact unused
  · exact done_of_childless world reached.inside absent

theorem Reached.endList (found : node.fields[field]? = some (.list items))
    (passed : items.length ≤ item) :
    Reached root ⟨address, node⟩ use (field + 1) 0 origin world := by
  refine reached.skipField fun step isField notBefore => .inr ?_
  rw [Node.child?, isField, found]
  cases isItem : step.item with
  | none => rfl
  | some index =>
    have atLeast : item ≤ index :=
      Nat.not_lt.1 fun less => notBefore (.inr ⟨isField, index, isItem, less⟩)
    simp [List.getElem?_eq_none (passed.trans atLeast)]

theorem Reached.skipHole (found : node.fields[field]? = some (.list items)) {value : Data}
    (itemFound : items[item]? = some (.data value)) :
    Reached root ⟨address, node⟩ use field (item + 1) origin world := by
  refine reached.skip (fun step before => before.succItem) fun step before notBefore => ?_
  rw [Step.eq_of_before before notBefore]
  exact done_of_childless world reached.inside (by simp [Node.child?, found, itemFound, Field.node?])

theorem Reached.readyItem (notScope : node.isShadowing = false)
    (found : node.fields[field]? = some (.list items))
    (itemFound : items[item]? = some (.node child)) :
    Ready root (Infer.inItem address field item) world := by
  refine reached.ready notScope (fun before => ?_)
    (by simp [Node.child?, found, itemFound, Field.node?])
  rcases before with less | ⟨_, index, isItem, less⟩
  · exact Nat.lt_irrefl _ less
  · cases isItem
    exact Nat.lt_irrefl _ less

theorem Reached.passItem {after : World}
    (within : Within root.Demands (Infer.inItem address field item) world after)
    (done : Done root after (Infer.inItem address field item)) :
    Reached root ⟨address, node⟩ use field (item + 1) origin after := by
  exact reached.pass (fun other before => before.succItem)
    (.inr ⟨rfl, item, rfl, Nat.lt_succ_self item⟩)
    (fun other before notBefore => .inl (Step.eq_of_before before notBefore)) within done

end

variable (reached : Reached root ⟨address, node⟩ use field 0 origin world)

include reached

theorem Reached.skipData {value : Data} (found : node.fields[field]? = some (.data value)) :
    Reached root ⟨address, node⟩ use (field + 1) 0 origin world := by
  refine reached.skipField fun step isField _ => .inr ?_
  simp [Node.child?, isField, found]

theorem Reached.readyField (notScope : node.isShadowing = false)
    (found : node.fields[field]? = some (.node child)) :
    Ready root (Infer.inField address field) world := by
  refine reached.ready notScope (fun before => ?_) (by simp [Node.child?, found])
  rcases before with less | ⟨_, _, isItem, _⟩
  · exact Nat.lt_irrefl _ less
  · cases isItem

theorem Reached.passField (found : node.fields[field]? = some (.node child)) {after : World}
    (within : Within root.Demands (Infer.inField address field) world after)
    (done : Done root after (Infer.inField address field)) :
    Reached root ⟨address, node⟩ use (field + 1) 0 origin after := by
  refine reached.pass (fun _ before => before.succ) (.inl (Nat.lt_succ_self field))
    (fun other before notBefore => ?_) within done
  obtain ⟨otherField, otherItem⟩ := other
  obtain rfl : otherField = field := Step.field_of_before before notBefore
  cases otherItem with
  | none => exact .inl rfl
  | some index => exact .inr (by simp [Node.child?, found])

end Fields

namespace World.Opened

variable {constraints : Constraint → Prop} {typed : Address → Prop} {scope : Address}
  {env : TypeEnv} {before after : World}

theorem untouched (opened : Opened constraints typed scope env before after) {other : Address}
    (notTyped : ¬ typed other) (different : other ≠ scope) (untouched : before.Untouched other) :
    after.Untouched other where
  type := (opened.types other notTyped).trans untouched.type
  env := (opened.envs other).trans untouched.env
  names name id inside labelled := by
    have isOld := opened.names other name id different inside labelled
    rw [opened.grown.label id isOld] at labelled
    exact untouched.names name id isOld labelled

theorem stands {root : Node} {place : Occurrence} (inside : place.IsIn root)
    (isShadowing : place.node.isShadowing = true)
    (opened : Opened constraints typed place.address env before after)
    (names : ∀ name, (env.lookup name).isSome = true ↔ place.binds name = true)
    (stands : before.Stands root place.address) (step : Step) :
    after.Stands root (step :: place.address) := by
  have found : root.at? place.address = some place.node := inside
  have nearest : root.shadowing (step :: place.address) =
      place :: root.shadowing place.address := by
    rw [Node.shadowing, Node.above_cons found, filter_cons_of_pos (by exact isShadowing)]
    rfl
  obtain ⟨envs, stackEq, binds⟩ := stands
  refine ⟨env :: envs, ?_, ?_⟩
  · rw [opened.stack, stackEq]
    rfl
  · rw [nearest]
    exact .cons (opened.binds names) (binds.imp fun _ _ => opened.grown.binds)

end World.Opened

namespace Infer

variable {α : Type} {root : Node} {typed : Address → Prop} {env : TypeEnv} {use : Use}
  {before middle : World}
variable {rest : List Field}

theorem runs_scopeBody {place : Occurrence} (inside : place.IsIn root)
    (used : root.use? place.address = some use) (isShadowing : place.node.isShadowing = true)
    (ready : Ready root place.address before)
    (opened : Opened root.Demands typed place.address env before middle)
    (names : ∀ name, (env.lookup name).isSome = true ↔ place.binds name = true)
    {field : Nat} (covers : ∀ address, typed address → place.address <:+ address)
    (apart : ∀ address, inField place.address field <:+ address → ¬ typed address)
    (passed : place.node.fields.length ≤ field + 1) {body : Node}
    (found : place.node.fields[field]? = some (.node body))
    (unused : ∀ step : Step, step.field < field → place.node.useIn? use step = none)
    (visits : Visits root (inField place.address field)
      (visitStatement root.scopes (inField place.address field) (.node body)) ())
    {next : Infer α} {post : α → World → Prop}
    (goesOn : ∀ last, Reached root place use (field + 1) 0 before last → middle.Extends last →
      last.Left place → Runs next last post) :
    Runs (do
      visitStatement root.scopes (inField place.address field) (.node body)
      leaveScope place.address
      next : Infer α) middle post := by
  have placeFound : root.at? place.address = some place.node := inside
  have bodyReady : Ready root (inField place.address field) middle := by
    refine ⟨opened.good, opened.stands inside isShadowing names ready.stands _,
      fun other below => opened.untouched (apart other below) ?_ ?_⟩
    · rintro rfl
      exact not_cons_suffix _ _ below
    · exact ready.fresh other ((suffix_cons _ _).trans below)
  refine (visits middle bodyReady).bind fun _ after ran => ?_
  obtain ⟨_, within, bodyDone⟩ := ran
  have untouched := ready.fresh place.address (suffix_refl _)
  refine (runs_leaveScope opened within untouched.env names covers).bind fun _ last ran => ?_
  obtain ⟨whole, grown, left⟩ := ran
  refine goesOn last ⟨inside, used, whole, ready.stands.of_extends whole.grown whole.stack, ?_, ?_⟩
    (within.grown.trans grown) left
  · rintro ⟨stepField, stepItem⟩ isBefore
    rcases Nat.lt_or_ge stepField field with less | atLeast
    · refine done_of_unused last ?_
      rw [Node.use?, used, bind_some, placeFound, bind_some]
      exact unused _ less
    · obtain rfl : stepField = field := by
        rcases isBefore with less | ⟨_, _, _, none⟩
        · exact Nat.le_antisymm (Nat.le_of_lt_succ less) atLeast
        · exact absurd none (Nat.not_lt_zero _)
      cases stepItem with
      | none => exact grown.done bodyDone
      | some index =>
        exact done_of_childless last inside (by simp [Node.child?, found])
  · intro step notBefore isChild
    have noField : place.node.fields[step.field]? = none :=
      List.getElem?_eq_none (passed.trans (Nat.not_lt.1 fun less => notBefore (.inl less)))
    simp [Node.child?, noField] at isChild

/-- What is known of a node that can be visited. -/
structure Visited (root : Node) (place : Occurrence) : Prop where
  statement : ∀ {file : String} {category : Category},
    category.kinds ⊆ .catchClause :: Category.statement.kinds → place.node.Fits file category →
      root.use? place.address = some .statement → Visits root place.address
          (visitStatement root.scopes place.address (.node place.node)) ()
  expression : ∀ {file : String} {category : Category} {unused : Bool},
    category.kinds ⊆ Category.expression.kinds → place.node.Fits file category →
      root.use? place.address = some (.expression unused) → Visits root place.address
          (visitExpression root.scopes unused place.address (.node place.node))
          place.node.isPrimitive

def Below (root : Node) (address : Address) : Prop :=
  ∀ (step : Step) (inner : Occurrence), inner.IsIn root → step :: address <:+ inner.address →
    Visited root inner

section Children

variable {node : Node} {address : Address} {file : String} {category : Category}
  {index place : Nat} {origin world : World}

theorem Below.inner (below : Below root address) (step : Step) : Below root (step :: address) :=
  fun _ inner inside suffix => below step inner inside ((suffix_cons _ _).trans suffix)

theorem getElem?_of_drop {item : Field} (dropEq : items.drop place = item :: rest) :
    items[place]? = some item ∧ items.drop (place + 1) = rest := by
  have first : (items.drop place)[0]? = items[place]? := by simp
  rw [dropEq] at first
  refine ⟨first.symm, ?_⟩
  rw [← drop_drop, dropEq]
  rfl

theorem forall_mem_nodes {children : List Node}
    (fit : ∀ child ∈ children, child.Fits file category) :
    ∀ item ∈ children.map Field.node, ∃ child, item = .node child ∧ child.Fits file category := by
  intro item member
  obtain ⟨child, childMember, rfl⟩ := mem_map.1 member
  exact ⟨child, rfl, fit child childMember⟩

/-- A visitor that goes from item to item comes to the end of a list and does what it demands if it
gets past each item and does what the item demands. -/
theorem runs_demandedItems (visitItems : Nat → List Field → Infer Unit)
    (demands : Nat → List Field → List Constraint) {known : List (TypeName × TypeId)}
    (found : node.fields[index]? = some (.list items))
    (visits_nil : ∀ place, visitItems place [] = pure ()) (demands_nil : ∀ place, demands place [] = [])
    (pass : ∀ {place item rest world}, items[place]? = some item →
      Reached root ⟨address, node⟩ use index place origin world → Knows known world →
      (∀ demand ∈ demands place (item :: rest), root.Demands demand) →
      ∃ own, demands place (item :: rest) = own ++ demands (place + 1) rest ∧
        ∀ {post}, (∀ after, world.Extends after →
          Reached root ⟨address, node⟩ use index (place + 1) origin after →
          (∀ demand ∈ own, after.Satisfies demand) →
          Runs (visitItems (place + 1) rest) after post) →
        Runs (visitItems place (item :: rest)) world post)
    (dropEq : items.drop place = rest)
    (reached : Reached root ⟨address, node⟩ use index place origin world) (knows : Knows known world)
    (demanded : ∀ demand ∈ demands place rest, root.Demands demand) :
    Runs (visitItems place rest) world fun _ after => world.Extends after ∧
      Reached root ⟨address, node⟩ use (index + 1) 0 origin after ∧
      ∀ demand ∈ demands place rest, after.Satisfies demand := by
  induction rest generalizing place world with
  | nil =>
    rw [visits_nil, demands_nil]
    exact .pure ⟨.refl _, reached.endList found (drop_eq_nil_iff.1 dropEq), by simp⟩
  | cons item rest ih =>
    obtain ⟨itemFound, restEq⟩ := getElem?_of_drop dropEq
    obtain ⟨own, demandsEq, goesPast⟩ := pass itemFound reached knows demanded
    rw [demandsEq] at demanded ⊢
    refine goesPast fun middle grown reached satisfied => ?_
    refine (ih restEq reached (knows.of_extends grown) (forall_mem_append.1 demanded).2).mono
      fun _ after ran => ?_
    obtain ⟨grown', reached, satisfied'⟩ := ran
    exact ⟨grown.trans grown', reached, forall_mem_append.2
      ⟨fun demand member => grown'.satisfies (satisfied demand member), satisfied'⟩⟩

/-- The same of nodes that are visited for themselves. -/
theorem runs_items (visitItems : Nat → List Field → Infer Unit) (notScope : node.isShadowing = false)
    {children : List Node} (found : node.fields[index]? = some (.list (children.map .node)))
    (visits_nil : ∀ place, visitItems place [] = pure ())
    (pass : ∀ {place child rest world post}, child ∈ children →
      (⟨inItem address index place, child⟩ : Occurrence).IsIn root →
      root.use? (inItem address index place) = node.useIn? use ⟨index, some place⟩ →
      Ready root (inItem address index place) world →
      (∀ after, Within root.Demands (inItem address index place) world after →
        Done root after (inItem address index place) →
        Runs (visitItems (place + 1) rest) after post) →
      Runs (visitItems place (.node child :: rest)) world post)
    (reached : Reached root ⟨address, node⟩ use index 0 origin world) :
    Runs (visitItems 0 (children.map .node)) world fun _ after =>
      Reached root ⟨address, node⟩ use (index + 1) 0 origin after := by
  refine (runs_demandedItems visitItems (fun _ _ => []) found visits_nil (fun _ => rfl)
    (fun itemFound reached _ _ => ⟨[], rfl, fun goesOn => ?_⟩) rfl reached .nil (by simp)).mono
    fun _ _ ran => ran.2.1
  obtain ⟨child, member, rfl⟩ := mem_map.1 (mem_of_getElem? itemFound)
  refine pass member (isIn_item reached.inside index found itemFound) (reached.use?_cons _)
    (reached.readyItem notScope found itemFound) fun after within done => ?_
  exact goesOn after within.grown (reached.passItem within done) (by simp)

variable {field : Field} {next : Bool → Infer α} {post : α → World → Prop}
variable (below : Below root address)

section Items

variable (reached : Reached root ⟨address, node⟩ use index place origin world)
  (notScope : node.isShadowing = false) (found : node.fields[index]? = some (.list items))

include below reached notScope found

theorem Below.expressionItem (itemFound : items[place]? = some (.node child))
    (fits : child.Fits file .expression) {unused : Bool}
    (used : node.useIn? use ⟨index, some place⟩ = some (.expression unused))
    (goesOn : ∀ after, world.Extends after →
      Reached root ⟨address, node⟩ use index (place + 1) origin after →
        Runs (next child.isPrimitive) after post) :
    Runs (visitExpression root.scopes unused (inItem address index place) (.node child) >>= next)
      world post := by
  have childIn := isIn_item reached.inside index found itemFound
  have visited := below _ _ childIn (suffix_refl _)
  have visits := visited.expression (List.Subset.refl _) fits ((reached.use?_cons _).trans used)
  refine (visits world (reached.readyItem notScope found itemFound)).bind fun _ after ran => ?_
  obtain ⟨rfl, within, done⟩ := ran
  exact goesOn after within.grown (reached.passItem within done)

end Items

variable (reached : Reached root ⟨address, node⟩ use index 0 origin world)
  (notScope : node.isShadowing = false) (found : node.fields[index]? = some field)

include below reached notScope found

theorem Below.statement (kinds : category.kinds ⊆ .catchClause :: Category.statement.kinds)
    (fits : field.Fits file (.optional category))
    (used : node.useIn? use ⟨index, none⟩ = some .statement) :
    Runs (visitStatement root.scopes (inField address index) field) world fun _ after =>
      Reached root ⟨address, node⟩ use (index + 1) 0 origin after := by
  rcases Field.fits_optional.1 fits with rfl | ⟨child, rfl, childFits⟩
  · exact .pure (reached.skipData found)
  · have childIn := isIn_field reached.inside index found
    have visited := below _ _ childIn (suffix_refl _)
    have visits := visited.statement kinds childFits ((reached.use?_cons _).trans used)
    exact (visits world (reached.readyField notScope found)).mono
      fun _ _ ran => reached.passField found ran.2.1 ran.2.2

theorem Below.expression (kinds : category.kinds ⊆ Category.expression.kinds)
    (fits : field.Fits file (.optional category)) {unused : Bool}
    (used : node.useIn? use ⟨index, none⟩ = some (.expression unused))
    (goesOn : ∀ after, Within root.Demands (inField address index) world after →
      Reached root ⟨address, node⟩ use (index + 1) 0 origin after →
        Runs (next field.isPrimitive) after post) :
    Runs (visitExpression root.scopes unused (inField address index) field >>= next) world post := by
  rcases Field.fits_optional.1 fits with rfl | ⟨child, rfl, childFits⟩
  · refine goesOn world (.refl reached.within.good) (reached.skipData found)
  · have childIn := isIn_field reached.inside index found
    have visited := below _ _ childIn (suffix_refl _)
    have visits := visited.expression kinds childFits ((reached.use?_cons _).trans used)
    refine (visits world (reached.readyField notScope found)).bind fun _ after ran => ?_
    obtain ⟨rfl, within, done⟩ := ran
    exact goesOn after within (reached.passField found within done)

theorem Below.statements (fits : field.Fits file (.many .statement))
    (used : ∀ place, node.useIn? use ⟨index, some place⟩ = some .statement) :
    Runs (visitStatements root.scopes address index field) world fun _ after =>
      Reached root ⟨address, node⟩ use (index + 1) 0 origin after := by
  obtain ⟨children, rfl, fit⟩ := Field.fits_many.1 fits
  refine runs_items (visitStatementItems root.scopes address index) notScope found (fun _ => rfl)
    (fun member childIn childUsed ready goesOn => ?_) reached
  have visited := below _ _ childIn (suffix_refl _)
  have visits := visited.statement (by decide) (fit _ member) (childUsed.trans (used _))
  exact (visits _ ready).bind fun _ after ran => goesOn after ran.2.1 ran.2.2

end Children

section Functions

variable {address : Address} {kind : Kind} {location : Option Location} {file : String}
variable {id : Field}

theorem text_of_mem_env (shaped : root.Shaped) {place : Occurrence} (inside : place.IsIn root) :
    ∀ entry ∈ Env.ofDeclarations place.declarations, ∃ spelling, entry.1 = .text spelling := by
  intro entry member
  rcases Env.mem_declareAll member with none | declared
  · cases none
  · rcases of_mem_declarations inside declared with ⟨_, rfl⟩ | ⟨token, tokenIn, tokenEq⟩
    · exact ⟨_, rfl⟩
    · exact shaped.text_of_name? tokenIn (Occurrence.declaration?_eq_some.1 tokenEq).1

theorem binds_arguments {place : Occurrence} (isFunction : place.node.kind.isFunction = true) :
    place.binds (Text.ofString "arguments") = true := by
  refine binds_iff.2 (.inr ⟨place.address, mem_append_left _ ?_⟩)
  have kindIs : place.node.kind = .functionDeclaration ∨ place.node.kind = .functionExpression := by
    simpa [Kind.isFunction] using isFunction
  rcases kindIs with kindEq | kindEq <;> simp [Occurrence.ownDeclarations, kindEq, argumentsName]

theorem binds_ownName {name : Text} (spelled : id.spelling? = some name) :
    Occurrence.binds ⟨address, .mk .functionExpression (id :: rest) location⟩ name = true := by
  obtain ⟨idLocation, rfl⟩ := Field.spelling?_eq_some.1 spelled
  refine binds_iff.2 (.inr ⟨inField address 0, mem_append_left _ ?_⟩)
  simp only [Occurrence.ownDeclarations, Node.kind, Scopes.declarationsIn_zero_node]
  exact mem_append_right _ mem_cons_self

theorem Entered.names_iff {body : Field} {parameters : List Field} {isExpression : Bool}
    {after : World} (isFunction : kind.isFunction = true)
    (ofExpression : isExpression = true → kind = .functionExpression)
    (entered : Entered root.Demands address isExpression id parameters (.ofDeclarations
      (Occurrence.declarations ⟨address, .mk kind [id, .list parameters, body] location⟩)) before
      after env)
    (name : Text) :
    (env.lookup name).isSome = true ↔
      Occurrence.binds ⟨address, .mk kind [id, .list parameters, body] location⟩ name = true := by
  rw [entered.names]
  constructor
  · rintro ((parameter | ⟨⟨_, declaration⟩, member, rfl⟩ | ⟨isExpression, spelled⟩) | synthetic)
    · exact binds_of_parameter isFunction parameter
    · rcases Env.mem_declareAll member with none | declared
      · cases none
      · exact binds_iff.2 (.inr ⟨declaration, declared⟩)
    · cases ofExpression isExpression
      exact binds_ownName spelled
    · rcases synthetic with rfl | rfl | rfl
      · exact binds_iff.2 (.inl ⟨isFunction, .inl rfl⟩)
      · exact binds_iff.2 (.inl ⟨isFunction, .inr rfl⟩)
      · exact binds_arguments isFunction
  · intro binds
    rcases binds_iff.1 binds with ⟨_, rfl | rfl⟩ | declared
    · exact .inr (.inl rfl)
    · exact .inr (.inr (.inl rfl))
    · have declares := Env.declares_ofDeclarations.2 declared
      refine .inl (.inr (.inl ?_))
      simpa [Env.declares, Env.find?, Name.same_text] using declares

theorem Below.runs_function (shaped : root.Shaped) (below : Below root address)
    {parameters : List Node} {body : Node}
    (inside : (⟨address, .mk kind [id, .list (parameters.map .node), .node body] location⟩ :
      Occurrence).IsIn root)
    (used : root.use? address = some use) (isFunction : kind.isFunction = true)
    (isExpression : Bool) (ofExpression : isExpression = true → kind = .functionExpression)
    (idFits : id.Fits file (.optional .identifier))
    (fit : ∀ parameter ∈ parameters, parameter.Fits file .identifier)
    (bodyFits : body.Fits file .block) (ready : Ready root address before)
    (ownDemanded : isExpression = true → ∀ demand ∈ Constraint.ofOwnName address id, root.Demands
      demand)
    (demanded : ∀ demand ∈ Constraint.ofFunction address (.list (parameters.map .node)),
      root.Demands demand)
    {next : Infer α} {post : α → World → Prop}
    (goesOn : ∀ after, Reached root ⟨address, .mk kind [id, .list (parameters.map .node), .node
      body] location⟩ use 3 0 before after → after.Left ⟨address, .mk kind [id, .list
      (parameters.map .node), .node body] location⟩ → (isExpression = true → ∀ demand ∈
      Constraint.ofOwnName address id, after.Satisfies demand) → (∀ demand ∈ Constraint.ofFunction
      address (.list (parameters.map .node)), after.Satisfies demand) → Runs next after post) :
    Runs (do
      enterFunction root.scopes address isExpression id (.list (parameters.map .node))
      visitStatement root.scopes (inField address 2) (.node body)
      leaveScope address
      next : Infer α) before post := by
  have kindIs : kind = .functionDeclaration ∨ kind = .functionExpression := by
    simpa [Kind.isFunction] using isFunction
  have isScope : kind.isScope = true := by rcases kindIs with rfl | rfl <;> rfl
  have useIn (step : Step) :
      (Node.mk kind [id, .list (parameters.map .node), .node body] location).useIn? use step =
        if step.field = 2 then some .statement else none := by
    rcases kindIs with rfl | rfl <;> rfl
  have isShadowing : (Node.mk kind [id, .list (parameters.map .node), .node body]
      location).isShadowing = true := by
    rcases kindIs with rfl | rfl <;> rfl
  have bodyUsed : root.use? (inField address 2) = some .statement := by
    have found : root.at? address = some (.mk kind _ location) := inside
    rw [inField, Node.use?, used, bind_some, found, bind_some, useIn]
    rfl
  have visited := below _ _ (isIn_field inside 2 rfl) (suffix_refl _)
  refine (runs_enterFunction ready.good (Codebase.env?_codebase inside isScope)
    (text_of_mem_env shaped inside) idFits fit (ready.fresh _ (suffix_refl _))
    (fun step => (ready.fresh _ (suffix_cons step _)).type) ownDemanded demanded).bind
    fun _ first ran => ?_
  obtain ⟨env, entered⟩ := ran
  have apart : ∀ other, inField address 2 <:+ other → ¬ AtHead address other := by
    rintro other below (rfl | ⟨step, less, rfl⟩)
    · exact not_cons_suffix _ _ below
    · cases eq_of_cons_suffix below (suffix_refl _)
      exact absurd less (by decide)
  refine runs_scopeBody inside used isShadowing ready entered.opened
    (entered.names_iff isFunction ofExpression) (fun _ => AtHead.suffix) apart (Nat.le_refl 3) rfl
    (fun step less => ?_) (visited.statement (by decide) bodyFits bodyUsed)
    fun last reached grown left => ?_
  · rw [useIn, if_neg (Nat.ne_of_lt less)]
  · exact goesOn last reached left (fun isExpression demand member =>
        grown.satisfies (entered.ownName isExpression demand member))
      fun demand member => grown.satisfies (entered.head demand member)

end Functions

end Infer

end Namesake
