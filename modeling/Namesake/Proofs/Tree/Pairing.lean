import Namesake.Proofs.Tree.Transfer

/-!
A `Pairing` of two trees pairs their programs, each with one that is the same, so every node in
a program of one tree has a counterpart in the other tree.
-/

namespace Namesake

open Occurrence List

theorem Node.Inner.of_mem_walk (place : Occurrence) (inner : place.node.Inner)
    {below : Occurrence} (member : below ∈ place.walk) : below.node.Inner := by
  induction place using Occurrence.induct with
  | step place ih =>
    rw [walk_eq] at member
    rcases mem_cons.1 member with rfl | member
    · exact inner
    · obtain ⟨child, childMember, member⟩ := mem_flatMap.1 member
      obtain ⟨step, _, found⟩ := mem_children.1 childMember
      exact ih child childMember (inner.child found) member

namespace Occurrence

def isProgram (place : Occurrence) : Bool :=
  place.node.kind = .program

theorem isProgram_iff {place : Occurrence} :
    place.isProgram = true ↔ place.node.kind = .program := by
  simp [isProgram]

end Occurrence

namespace Node

variable {program : Occurrence}

theorem programItems_eq (address : Address) (start : Nat) (trees : List Node) :
    programItems address start (trees.map .node) =
      (((trees.map Field.node).zipIdx start).filterMap fun (item, index) =>
        item.node?.map fun child => ((⟨0, some index⟩ : Step), child)).flatMap
          fun entry => entry.2.programsFrom (entry.1 :: address) := by
  induction trees generalizing start with
  | nil => rfl
  | cons tree rest ih => exact congrArg (tree.programsFrom _ ++ ·) (ih (start + 1))

theorem programsFrom_collection (address : Address) (trees : List Node) :
    (collection trees).programsFrom address =
      (Occurrence.children ⟨address, collection trees⟩).flatMap
        fun child => child.node.programsFrom child.address := by
  refine (programItems_eq address 0 trees).trans ?_
  rw [Occurrence.children, steps_collection, flatMap_map]
  rfl

theorem Shaped.of_mem_collection {trees : List Node} (shaped : ∀ tree ∈ trees, Shaped tree)
    {address : Address} {child : Occurrence}
    (member : child ∈ Occurrence.children ⟨address, .collection trees⟩) : child.node.Shaped := by
  obtain ⟨step, _, found⟩ := mem_children.1 member
  rcases (Shaped.collection shaped).child found with ⟨_, childShaped⟩ | ⟨isProgram, _⟩
  · exact childShaped
  · cases isProgram

theorem Shaped.programsFrom_eq (place : Occurrence) (shaped : place.node.Shaped) :
    place.node.programsFrom place.address = place.walk.filter Occurrence.isProgram := by
  induction place using Occurrence.induct with
  | step place ih =>
    obtain ⟨address, node⟩ := place
    rw [walk_eq]
    cases shaped with
    | program fits =>
      have isProgram : node.kind = .program := mem_singleton.1 fits.kind_mem
      have noneBelow : (Occurrence.children ⟨address, node⟩ |>.flatMap
          Occurrence.walk).filter Occurrence.isProgram = [] := by
        refine filter_eq_nil_iff.2 fun inner member => ?_
        obtain ⟨child, childMember, member⟩ := mem_flatMap.1 member
        obtain ⟨step, _, found⟩ := mem_children.1 childMember
        obtain ⟨other, notProgram, childFits⟩ := fits.child found
        have isInner : child.node.Inner := ⟨_, other, notProgram, childFits⟩
        simpa [Occurrence.isProgram] using (isInner.of_mem_walk child member).kind_ne.1
      rw [filter_cons_of_pos (isProgram_iff.2 isProgram), noneBelow]
      obtain ⟨kind, fields, location⟩ := node
      obtain rfl : kind = .program := isProgram
      rfl
    | @collection trees shaped =>
      rw [filter_cons_of_neg (by simp [Occurrence.isProgram, kind]), filter_flatMap]
      refine (programsFrom_collection address trees).trans (flatMap_congr fun child member =>
          ih child member (of_mem_collection shaped member))

theorem Shaped.filter_walk_eq {chosen : Occurrence → Bool}
    (noCollection : ∀ place : Occurrence, place.node.kind = .programCollection →
      chosen place = false) (place : Occurrence) (shaped : place.node.Shaped) :
    place.walk.filter chosen =
      (place.node.programsFrom place.address).flatMap fun program => program.walk.filter chosen := by
  induction place using Occurrence.induct with
  | step place ih =>
    obtain ⟨address, node⟩ := place
    cases shaped with
    | program fits =>
      obtain ⟨kind, fields, location⟩ := node
      obtain rfl : kind = .program := mem_singleton.1 fits.kind_mem
      exact (flatMap_singleton _ _).symm
    | @collection trees shaped =>
      rw [walk_eq, filter_cons_of_neg (Bool.eq_false_iff.1 (noCollection _ rfl)), filter_flatMap]
      refine Eq.trans ?_ (congrArg (List.flatMap _) (programsFrom_collection address trees)).symm
      rw [flatMap_assoc]
      exact flatMap_congr fun child member =>
        ih child member (of_mem_collection shaped member)

variable {root : Node} (shaped : root.Shaped)

include shaped

theorem Shaped.programs_eq : root.programs = root.walk.filter Occurrence.isProgram :=
  Shaped.programsFrom_eq ⟨[], root⟩ shaped

theorem Shaped.mem_programs :
    program ∈ root.programs ↔ program.IsIn root ∧ program.node.kind = .program := by
  rw [shaped.programs_eq, mem_filter, mem_walk, isProgram_iff]

theorem Shaped.nodup_programs : (root.programs.map Occurrence.address).Nodup := by
  rw [shaped.programs_eq]
  exact root.nodup_walk.sublist (filter_sublist.map _)

theorem Shaped.exists_program {place : Occurrence} (inside : place.IsIn root)
    (notCollection : place.node.kind ≠ .programCollection) :
    ∃ program ∈ root.programs, program.address <:+ place.address := by
  obtain ⟨address, node⟩ := place
  induction address generalizing node with
  | nil =>
    cases inside
    have isProgram := shaped.kind_eq.resolve_right notCollection
    exact ⟨⟨[], _⟩, shaped.mem_programs.2 ⟨rfl, isProgram⟩, suffix_refl _⟩
  | cons step address ih =>
    obtain ⟨parent, parentFound, childFound⟩ := exists_at?_of_cons inside
    by_cases isCollection : parent.kind = .programCollection
    · have isProgram : node.kind = .program := by
        rcases shaped.at? parentFound with ⟨parentShaped, _⟩ | inner
        · rcases parentShaped.child childFound with ⟨_, childShaped⟩ | ⟨isProgram, _⟩
          · exact childShaped.kind_eq.resolve_right notCollection
          · rw [isCollection] at isProgram
            cases isProgram
        · exact absurd isCollection inner.kind_ne.2
      exact ⟨_, shaped.mem_programs.2 ⟨inside, isProgram⟩, suffix_refl _⟩
    · obtain ⟨program, member, suffix⟩ := ih parent parentFound isCollection
      exact ⟨program, member, suffix.trans (suffix_cons step address)⟩

theorem Shaped.inner_of_mem_program {place : Occurrence} (member : program ∈ root.programs)
    (below : place ∈ program.walk) : place = program ∨ place.node.Inner := by
  obtain ⟨inside, isProgram⟩ := shaped.mem_programs.1 member
  rw [walk_eq] at below
  rcases mem_cons.1 below with rfl | below
  · exact .inl rfl
  · obtain ⟨child, childMember, below⟩ := mem_flatMap.1 below
    have isInner := shaped.inner_of_child inside (by simp [isProgram]) childMember
    exact .inr (isInner.of_mem_walk child below)

theorem Shaped.eq_of_suffix {outer inner : Occurrence} (outerMember : outer ∈ root.programs)
    (innerMember : inner ∈ root.programs) (suffix : outer.address <:+ inner.address) :
    outer = inner := by
  obtain ⟨outerIn, _⟩ := shaped.mem_programs.1 outerMember
  obtain ⟨innerIn, innerProgram⟩ := shaped.mem_programs.1 innerMember
  have member := (mem_walk_iff outer outerIn).2 ⟨innerIn, suffix⟩
  rcases shaped.inner_of_mem_program outerMember member with same | isInner
  · exact same.symm
  · exact absurd innerProgram isInner.kind_ne.1

theorem Shaped.program_unique {first second : Occurrence} (firstMember : first ∈ root.programs)
    (secondMember : second ∈ root.programs) {address : Address}
    (ofFirst : first.address <:+ address) (ofSecond : second.address <:+ address) :
    first = second := by
  rcases suffix_or_suffix_of_suffix ofFirst ofSecond with suffix | suffix
  · exact shaped.eq_of_suffix firstMember secondMember suffix
  · exact (shaped.eq_of_suffix secondMember firstMember suffix).symm

theorem Shaped.above_program (member : program ∈ root.programs) :
    AllCollections (root.above program.address) := by
  obtain ⟨inside, isProgram⟩ := shaped.mem_programs.1 member
  rcases shaped.at? inside with ⟨_, collections⟩ | inner
  · exact collections
  · exact absurd isProgram inner.kind_ne.1

end Node

/-- The programs of two trees in pairs, each with one that is the same. -/
structure Pairing (left right : Node) where
  pairs : List (Occurrence × Occurrence)
  lefts : (pairs.map Prod.fst).Perm left.programs
  rights : (pairs.map Prod.snd).Perm right.programs
  same : ∀ pair ∈ pairs, pair.1.node = pair.2.node

theorem exists_forall₂_of_perm {α β : Type} {read : α → β} {list other : List α}
    (perm : (list.map read).Perm (other.map read)) :
    ∃ arranged, arranged.Perm other ∧
      List.Forall₂ (fun left right => read left = read right) list arranged := by
  induction list generalizing other with
  | nil =>
    obtain rfl : other = [] := map_eq_nil_iff.1 perm.symm.eq_nil
    exact ⟨[], .refl _, .nil⟩
  | cons first rest ih =>
    obtain ⟨second, member, same⟩ := mem_map.1 (perm.subset mem_cons_self)
    obtain ⟨before, after, rfl⟩ := append_of_mem member
    have moved : (before ++ second :: after).Perm (second :: (before ++ after)) := perm_middle
    have restPerm := perm.trans (moved.map read)
    rw [map_cons, map_cons, same] at restPerm
    obtain ⟨arranged, arrangedPerm, related⟩ := ih restPerm.cons_inv
    exact ⟨second :: arranged, (arrangedPerm.cons second).trans moved.symm, .cons same.symm related⟩

namespace Pairing

variable {left right : Node}

theorem nonempty_iff : Nonempty (Pairing left right) ↔
    (left.programs.map Occurrence.node).Perm (right.programs.map Occurrence.node) := by
  constructor
  · rintro ⟨pairs, lefts, rights, same⟩
    have nodes : pairs.map (Occurrence.node ∘ Prod.fst) = pairs.map (Occurrence.node ∘ Prod.snd) :=
      map_congr_left same
    have ofLeft := lefts.map Occurrence.node
    have ofRight := rights.map Occurrence.node
    rw [map_map] at ofLeft ofRight
    rw [nodes] at ofLeft
    exact ofLeft.symm.trans ofRight
  · intro perm
    obtain ⟨arranged, arrangedPerm, related⟩ := exists_forall₂_of_perm perm
    have lengthEq := related.length_eq
    refine ⟨⟨left.programs.zip arranged, ?_, ?_, ?_⟩⟩
    · rw [map_fst_zip (Nat.le_of_eq lengthEq)]
    · rwa [map_snd_zip (Nat.le_of_eq lengthEq.symm)]
    · exact fun pair member => (forall₂_zip related member)

def symm (pairing : Pairing left right) : Pairing right left where
  pairs := pairing.pairs.map Prod.swap
  lefts := by simpa [Function.comp_def] using pairing.rights
  rights := by simpa [Function.comp_def] using pairing.lefts
  same pair member := by
    obtain ⟨other, otherMember, rfl⟩ := mem_map.1 member
    exact (pairing.same other otherMember).symm

def move (pairing : Pairing left right) (address : Address) : Address :=
  match pairing.pairs.find? fun pair => pair.1.address.isSuffixOf address with
  | some (program, other) =>
    address.take (address.length - program.address.length) ++ other.address
  | none => address

def carry (pairing : Pairing left right) (place : Occurrence) : Occurrence :=
  ⟨pairing.move place.address, place.node⟩

def Holds (pairing : Pairing left right) (address : Address) : Prop :=
  ∃ pair ∈ pairing.pairs, pair.1.address <:+ address

variable (pairing : Pairing left right)

variable {pairing} in
theorem Holds.cons {address : Address} (holds : pairing.Holds address) (step : Step) :
    pairing.Holds (step :: address) := by
  obtain ⟨pair, member, suffix⟩ := holds
  exact ⟨pair, member, suffix.trans (suffix_cons step address)⟩

theorem mem_programs_left {pair : Occurrence × Occurrence} (member : pair ∈ pairing.pairs) :
    pair.1 ∈ left.programs :=
  pairing.lefts.subset (mem_map_of_mem member)

theorem mem_programs_right {pair : Occurrence × Occurrence} (member : pair ∈ pairing.pairs) :
    pair.2 ∈ right.programs :=
  pairing.rights.subset (mem_map_of_mem member)

theorem exists_pair {program : Occurrence} (member : program ∈ left.programs) :
    ∃ pair ∈ pairing.pairs, pair.1 = program :=
  mem_map.1 (pairing.lefts.symm.subset member)

section Left

variable (leftShaped : left.Shaped)
variable {address : Address} {pair : Occurrence × Occurrence}

include leftShaped

theorem holds_of_isIn {place : Occurrence} (inside : place.IsIn left)
    (notCollection : place.node.kind ≠ .programCollection) : pairing.Holds place.address := by
  obtain ⟨program, member, suffix⟩ := leftShaped.exists_program inside notCollection
  obtain ⟨pair, pairMember, rfl⟩ := pairing.exists_pair member
  exact ⟨pair, pairMember, suffix⟩

theorem eq_of_suffix {first second : Occurrence × Occurrence} (firstMember : first ∈ pairing.pairs)
    (secondMember : second ∈ pairing.pairs) (ofFirst : first.1.address <:+ address)
    (ofSecond : second.1.address <:+ address) :
    first = second := by
  have nodup : (pairing.pairs.map Prod.fst).Nodup :=
    pairing.lefts.nodup_iff.2 (.of_map _ leftShaped.nodup_programs)
  refine inj_on_of_nodup_map nodup firstMember secondMember ?_
  exact leftShaped.program_unique (pairing.mem_programs_left firstMember)
    (pairing.mem_programs_left secondMember) ofFirst ofSecond

theorem move_append (member : pair ∈ pairing.pairs) (path : Address) :
    pairing.move (path ++ pair.1.address) = path ++ pair.2.address := by
  have suffix : pair.1.address <:+ path ++ pair.1.address := suffix_append _ _
  unfold move
  cases found : pairing.pairs.find? fun pair' =>
      pair'.1.address.isSuffixOf (path ++ pair.1.address) with
  | none =>
    have missing := List.find?_eq_none.1 found pair member
    exact absurd (isSuffixOf_iff_suffix.2 suffix) missing
  | some other =>
    have accepted : other.1.address.isSuffixOf (path ++ pair.1.address) = true :=
      List.find?_some (p := fun pair' : Occurrence × Occurrence =>
        pair'.1.address.isSuffixOf (path ++ pair.1.address)) found
    have otherSuffix := isSuffixOf_iff_suffix.1 accepted
    obtain rfl := pairing.eq_of_suffix leftShaped (mem_of_find?_eq_some found) member
      otherSuffix suffix
    simp

theorem move_program (member : pair ∈ pairing.pairs) :
    pairing.move pair.1.address = pair.2.address :=
  pairing.move_append leftShaped member []

theorem carry_program (member : pair ∈ pairing.pairs) :
    pairing.carry pair.1 = pair.2 := by
  rw [carry, pairing.move_program leftShaped member, pairing.same pair member]

theorem move_cons (holds : pairing.Holds address) (step : Step) :
    pairing.move (step :: address) = step :: pairing.move address := by
  obtain ⟨pair, member, path, rfl⟩ := holds
  rw [pairing.move_append leftShaped member path]
  exact pairing.move_append leftShaped member (step :: path)

theorem holds_move (holds : pairing.Holds address) :
    pairing.symm.Holds (pairing.move address) := by
  obtain ⟨pair, member, path, rfl⟩ := holds
  rw [pairing.move_append leftShaped member path]
  exact ⟨pair.swap, mem_map_of_mem member, suffix_append _ _⟩

theorem symm_move (rightShaped : right.Shaped) (holds : pairing.Holds address)
    : pairing.symm.move (pairing.move address) = address := by
  obtain ⟨pair, member, path, rfl⟩ := holds
  rw [pairing.move_append leftShaped member path]
  exact pairing.symm.move_append rightShaped (mem_map_of_mem member) path

theorem at?_move (rightShaped : right.Shaped) (holds : pairing.Holds address)
    : right.at? (pairing.move address) = left.at? address := by
  obtain ⟨pair, member, path, rfl⟩ := holds
  have leftIn := (leftShaped.mem_programs.1 (pairing.mem_programs_left member)).1
  have rightIn := (rightShaped.mem_programs.1 (pairing.mem_programs_right member)).1
  rw [pairing.move_append leftShaped member path, Node.at?_append, Node.at?_append, leftIn, rightIn,
    pairing.same pair member]

theorem isIn_carry (rightShaped : right.Shaped) {place : Occurrence}
    (holds : pairing.Holds place.address) :
    (pairing.carry place).IsIn right ↔ place.IsIn left := by
  rw [Occurrence.IsIn, carry, pairing.at?_move leftShaped rightShaped holds]
  rfl

theorem symm_carry (rightShaped : right.Shaped) {place : Occurrence}
    (holds : pairing.Holds place.address) :
    pairing.symm.carry (pairing.carry place) = place := by
  unfold carry
  rw [pairing.symm_move leftShaped rightShaped holds]

def transfer (rightShaped : right.Shaped) : Transfer left right where
  leftShaped
  rightShaped
  Holds := pairing.Holds
  move := pairing.move
  holds_cons := Holds.cons
  move_cons := pairing.move_cons leftShaped
  move_injective first second same := by
    rw [← pairing.symm_move leftShaped rightShaped first, same,
      pairing.symm_move leftShaped rightShaped second]
  at?_move := pairing.at?_move leftShaped rightShaped
  outermost := by
    rintro _ ⟨pair, member, path, rfl⟩
    cases path with
    | nil =>
      refine .inr ⟨leftShaped.above_program (pairing.mem_programs_left member), ?_⟩
      rw [nil_append, pairing.move_program leftShaped member]
      exact rightShaped.above_program (pairing.mem_programs_right member)
    | cons step path =>
      exact .inl ⟨step, _, rfl, pair, member, suffix_append path _⟩

end Left

end Pairing

end Namesake
