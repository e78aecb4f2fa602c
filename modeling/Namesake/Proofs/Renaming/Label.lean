import Namesake.Proofs.Renaming.Target

/-!
A label belongs to the nearest statement around it that has the label, or to the function or the
program around it if no statement in there has the label.
-/

namespace Namesake

open Occurrence List

namespace Codebase

def isHome (name : Name) (place : Occurrence) : Bool :=
  isLabelled name place || place.node.kind.isFunction || place.node.kind = .program

def home? (codebase : Codebase) (name : Name) (address : Address) : Option Occurrence :=
  (codebase.root.above address).find? (isHome name)

end Codebase

def Target.ofHome (name : Name) : Option Occurrence → Target
  | none => .jump none
  | some home =>
    if Codebase.isLabelled name home then .label home.address else .jump (some home.address)

theorem Target.eq_some_of_ofHome {name : Name} {left : Option Occurrence} {right : Occurrence}
    (same : ofHome name left = ofHome name (some right)) :
    ∃ home, left = some home ∧ home.address = right.address := by
  cases left with
  | none => grind [ofHome]
  | some home => exact ⟨home, rfl, by grind [ofHome]⟩

namespace Codebase

variable {codebase : Codebase} {typing : Typing} {name : Name} {spelling : Text}
variable {home token place : Occurrence}

theorem labelled?_eq (places : List Occurrence) :
    labelled? name places = (places.find? (isHome name)).filter (isLabelled name) := by
  induction places with
  | nil => rfl
  | cons place rest ih =>
    rw [labelled?, List.find?_cons, ih, isHome]
    cases labelled : isLabelled name place with
    | true => simp [Option.filter, labelled]
    | false =>
      cases ends : place.node.kind.isFunction || place.node.kind = .program with
      | true => simp [Option.filter, labelled, ends]
      | false => simp [ends]

theorem kind_of_isLabelled (labelled : isLabelled name place = true) :
    place.node.kind = .labeledStatement := by
  rw [isLabelled, Bool.and_eq_true, decide_eq_true_eq] at labelled
  exact labelled.1

theorem kind_ne_of_isHome (ends : isHome name place = true)
    (notLabelled : isLabelled name place = false) :
    place.node.kind ≠ .identifier ∧ place.node.kind ≠ .programCollection ∧
      place.node.kind.holdsLabel = false := by
  have isFunction : place.node.kind.isFunction = true ∨ place.node.kind = .program := by
    simpa [isHome, notLabelled] using ends
  generalize place.node.kind = kind at isFunction
  cases kind <;> first | decide | simp [Kind.isFunction] at isFunction

theorem find?_function {places : List Occurrence} (found : places.find? (isHome name) = some home)
    (notLabelled : isLabelled name home = false) :
    places.find? (fun outer => outer.node.kind.isFunction || outer.node.kind = .program) =
      some home := by
  induction places with
  | nil => cases found
  | cons place rest ih =>
    rw [List.find?_cons, isHome] at found
    rw [List.find?_cons]
    cases ends : place.node.kind.isFunction || place.node.kind = .program with
    | true => simpa [Bool.or_assoc, ends] using found
    | false =>
      cases labelled : isLabelled name place with
      | true =>
        simp only [labelled, Bool.true_or, Option.some.injEq] at found
        rw [← found, labelled] at notLabelled
        cases notLabelled
      | false =>
        refine ih ?_
        simpa [Bool.or_assoc, labelled, ends] using found

theorem home?_cons_of_isHome {step : Step} {parent : Occurrence}
    (inside : parent.IsIn codebase.root) (isHome : isHome name parent = true) :
    codebase.home? name (step :: parent.address) = some parent := by
  rw [home?, Node.above_cons inside, List.find?_cons_of_pos isHome]

theorem home?_cons_of_not_isHome {step : Step} {parent : Occurrence}
    (inside : parent.IsIn codebase.root) (notHome : isHome name parent = false) :
    codebase.home? name (step :: parent.address) = codebase.home? name parent.address := by
  rw [home?, Node.above_cons inside, List.find?_cons_of_neg (by simp [notHome])]
  rfl

theorem of_home? {address : Address} (found : codebase.home? name address = some home) :
    home.IsIn codebase.root ∧ isHome name home = true ∧
      ∃ step path, address = path ++ step :: home.address := by
  obtain ⟨inside, below⟩ := of_mem_above (mem_of_find?_eq_some found)
  exact ⟨inside, List.find?_some found, below⟩

theorem exists_home?_below (inside : place.IsIn codebase.root) (isHome : isHome name place = true)
    (tokenIn : token.IsIn codebase.root) (path : Address) (notEmpty : path ≠ [])
    (addressEq : token.address = path ++ place.address) :
    ∃ home, codebase.home? name token.address = some home ∧ place.address <:+ home.address := by
  rw [Occurrence.IsIn, addressEq] at tokenIn
  rw [addressEq]
  exact exists_find?_above inside isHome notEmpty tokenIn

section Shaped

variable (shaped : codebase.root.Shaped)
variable {child : Occurrence}

include shaped

theorem exists_home? (inside : place.IsIn codebase.root) (inner : place.node.Inner) :
    ∃ home, codebase.home? name place.address = some home := by
  obtain ⟨top, rest, insideEq, isProgram⟩ := shaped.inside_eq_cons inside inner
  have part : (codebase.root.inside place.address).Sublist
      (codebase.root.above place.address).reverse := dropWhile_sublist _
  rw [insideEq] at part
  have member := mem_reverse.1 (part.mem mem_cons_self)
  exact Option.isSome_iff_exists.1 (List.find?_isSome.2 ⟨top, member, by simp [isHome, isProgram]⟩)

theorem find?_around_isHome (inside : token.IsIn codebase.root) :
    (codebase.root.around token.address).find? (isHome name) =
      codebase.home? name token.address := by
  refine shaped.find?_around inside fun outer isCollection => ?_
  simp [isHome, isLabelled, isCollection, Kind.isFunction]

theorem labelDeclaration?_eq (inside : token.IsIn codebase.root) :
    codebase.labelDeclaration? token name =
      (codebase.home? name token.address).filter (isLabelled name) := by
  rw [labelDeclaration?, labelled?_eq, find?_around_isHome shaped inside]

theorem enclosingFunction?_eq (inside : token.IsIn codebase.root)
    (found : codebase.home? name token.address = some home)
    (notLabelled : isLabelled name home = false) :
    codebase.root.enclosingFunction? token.address = some home :=
  find?_function ((find?_around_isHome shaped inside).trans found) notLabelled

theorem targetOf?_label (inside : token.IsIn codebase.root) :
    codebase.targetOf? typing token name .label =
      some (.ofHome name (codebase.home? name token.address)) := by
  rw [targetOf?, labelDeclaration?_eq shaped inside]
  cases found : codebase.home? name token.address with
  | none =>
    have outside : codebase.root.enclosingFunction? token.address = none := by
      refine List.find?_eq_none.2 fun outer member isFunction => ?_
      refine List.find?_eq_none.1 ((find?_around_isHome shaped inside).trans found) outer member ?_
      rw [isHome, Bool.or_assoc, isFunction, Bool.or_true]
    simp [Option.filter, outside, Target.ofHome]
  | some home =>
    cases labelled : isLabelled name home with
    | true => simp [Option.filter, labelled, Target.ofHome]
    | false =>
      have function := enclosingFunction?_eq shaped inside found labelled
      simp [Option.filter, labelled, function, Target.ofHome]

omit shaped in
theorem role_of_ofHome {role : Role} {home : Option Occurrence}
    (ofRole : codebase.targetOf? typing token name role = some (.ofHome name home)) :
    role = .label := by
  cases home with
  | none => exact of_targetOf? ofRole
  | some home =>
    rw [Target.ofHome] at ofRole
    split at ofRole
    · exact of_targetOf? ofRole
    · exact of_targetOf? ofRole

theorem target?_eq_ofHome (inside : token.IsIn codebase.root) (homeIn : home.IsIn codebase.root) :
    codebase.target? typing token = some (.ofHome (.text spelling) (some home), spelling) ↔
      codebase.root.usage? token = .ok (some ⟨.label, .text spelling⟩) ∧
        codebase.home? (.text spelling) token.address = some home := by
  rw [target?_eq_some]
  constructor
  · rintro ⟨role, used, ofRole⟩
    obtain rfl := role_of_ofHome ofRole
    rw [targetOf?_label shaped inside, Option.some.injEq] at ofRole
    obtain ⟨other, found, same⟩ := Target.eq_some_of_ofHome ofRole
    obtain ⟨otherIn, _⟩ := of_home? found
    rw [found, otherIn.eq_of_address homeIn same]
    exact ⟨used, rfl⟩
  · rintro ⟨used, found⟩
    exact ⟨.label, used, by rw [targetOf?_label shaped inside, found]⟩

theorem target?_ne_ofHome (typing : Typing) (spelling : Text) (inside : token.IsIn codebase.root)
    (homeIn : home.IsIn codebase.root) (notIdentifier : token.node.kind ≠ .identifier) :
    codebase.target? typing token ≠ some (.ofHome (.text spelling) (some home), spelling) := by
  intro belongs
  obtain ⟨used, _⟩ := (target?_eq_ofHome shaped inside homeIn).1 belongs
  exact notIdentifier (shaped.kind_of_usage?_label inside used)

theorem filter_walk_of_isHome (inside : place.IsIn codebase.root)
    (ends : isHome (.text spelling) place = true) (member : child ∈ place.children)
    (homeIn : home.IsIn codebase.root) (outer : home.address.length < place.address.length) :
    child.walk.filter (fun token => codebase.target? typing token =
      some (.ofHome (.text spelling) (some home), spelling)) = [] := by
  refine filter_eq_nil_iff.2 fun token tokenMember belongs => ?_
  obtain ⟨step, addressEq, _⟩ := mem_children.1 member
  obtain ⟨tokenIn, path, pathEq⟩ := (mem_walk_iff child (inside.child member)).1 tokenMember
  rw [addressEq] at pathEq
  obtain ⟨inner, innerFound, below⟩ := exists_home?_below inside ends tokenIn (path ++ [step])
    (by simp) (by rw [← pathEq]; simp)
  obtain ⟨_, found⟩ := (target?_eq_ofHome shaped tokenIn homeIn).1 (of_decide_eq_true belongs)
  rw [innerFound] at found
  cases found
  exact absurd outer (Nat.not_lt.2 below.length_le)

omit shaped in
theorem children_labeledStatement (inner : place.node.Inner)
    (isLabelling : place.node.kind = .labeledStatement) :
    ∃ label body, place.children = [label, body] ∧ place.child? "label" = some label ∧
      place.child? "body" = some body ∧ label.address = ⟨0, none⟩ :: place.address ∧
      label.node.kind = .identifier ∧ label.node.Inner ∧
      body.node.kind ≠ .identifier ∧ body.node.Inner := by
  obtain ⟨address, node⟩ := place
  obtain ⟨file, _, _, fits⟩ := inner
  obtain ⟨label, body, location, rfl, labelFits, bodyFits⟩ := fits.nodes isLabelling rfl
  have bodyKind : body.kind ≠ .identifier := fun isIdentifier =>
    absurd (isIdentifier ▸ bodyFits.kind_mem) (by decide)
  exact ⟨⟨_, label⟩, ⟨_, body⟩, rfl, rfl, rfl, rfl, mem_singleton.1 labelFits.kind_mem,
    ⟨file, _, by decide, labelFits⟩, bodyKind, ⟨file, _, by decide, bodyFits⟩⟩

theorem isLabelled_of_usage? (inside : place.IsIn codebase.root)
    (isLabelling : place.node.kind = .labeledStatement) (tokenIn : token.IsIn codebase.root)
    (addressEq : token.address = ⟨0, none⟩ :: place.address)
    (used : codebase.root.usage? token = .ok (some ⟨.label, .text spelling⟩)) :
    isLabelled (.text spelling) place = true := by
  obtain ⟨label, body, childrenEq, labelEq, _, labelAddress, isIdentifier, labelInner, _⟩ :=
    children_labeledStatement
      (shaped.inner inside (by simp [isLabelling]) (by simp [isLabelling])) isLabelling
  have labelIn := inside.child (childrenEq ▸ mem_cons_self : label ∈ place.children)
  obtain rfl := tokenIn.eq_of_address labelIn (addressEq.trans labelAddress.symm)
  obtain ⟨named, _⟩ := (shaped.usage?_label tokenIn).1 used
  rw [Occurrence.tokenName?_eq_name? labelInner isIdentifier] at named
  simp [isLabelled, isLabelling, labelEq, isNamed_text.2 named]

theorem holdsLabel_of_usage? (inside : place.IsIn codebase.root) (member : child ∈ place.children)
    (used : codebase.root.usage? child = .ok (some ⟨.label, name⟩)) :
    place.node.kind.holdsLabel = true ∧ child.address = ⟨0, none⟩ :: place.address := by
  obtain ⟨step, addressEq, _⟩ := mem_children.1 member
  obtain ⟨_, parent, parentIn, holdsLabel, parentEq⟩ :=
    (shaped.usage?_label (inside.child member)).1 used
  have same : parent.address = place.address := by
    rw [parentEq, List.cons.injEq] at addressEq
    exact addressEq.2
  obtain rfl := parentIn.eq_of_address inside same
  exact ⟨holdsLabel, parentEq⟩

omit shaped in
theorem gather_identifier (inner : token.node.Inner)
    (isIdentifier : token.node.kind = .identifier) :
    token.gather (lookForJumps name) () = [] := by
  rw [gather_eq, children_of_identifier inner isIdentifier]
  simp [lookForJumps, isLabelled, isIdentifier, Kind.isFunction]

theorem gather_of_identifier (inside : token.IsIn codebase.root) (inner : token.node.Inner)
    (isIdentifier : token.node.kind = .identifier) (homeIn : home.IsIn codebase.root)
    (notLabel : codebase.root.usage? token ≠ .ok (some ⟨.label, .text spelling⟩)) :
    token.gather (lookForJumps (.text spelling)) () =
      token.walk.filter fun token => codebase.target? typing token =
        some (.ofHome (.text spelling) (some home), spelling) := by
  have notHere : codebase.target? typing token ≠
      some (.ofHome (.text spelling) (some home), spelling) :=
    fun belongs => notLabel ((target?_eq_ofHome shaped inside homeIn).1 belongs).1
  rw [gather_identifier inner isIdentifier, walk_eq, children_of_identifier inner isIdentifier]
  simp [notHere]

omit shaped in
theorem children_jump (inner : place.node.Inner)
    (isJump : place.node.kind = .breakStatement ∨ place.node.kind = .continueStatement) :
    place.children = (place.child? "label").toList ∧ ∀ label ∈ place.children,
      label.address = ⟨0, none⟩ :: place.address ∧ label.node.kind = .identifier ∧
        label.node.Inner := by
  obtain ⟨address, kind, fields, location⟩ := place
  obtain ⟨file, _, _, fits⟩ := inner
  obtain ⟨label, _, nodeEq, labelFits⟩ := fits.jump isJump
  cases nodeEq
  rcases Field.fits_optional.1 labelFits with rfl | ⟨child, rfl, childFits⟩
  · rcases isJump with rfl | rfl
    · exact ⟨rfl, by simp [Occurrence.children, Node.steps, Node.fields, Node.fieldChildren]⟩
    · exact ⟨rfl, by simp [Occurrence.children, Node.steps, Node.fields, Node.fieldChildren]⟩
  · refine ⟨by rcases isJump with rfl | rfl <;> rfl, fun label member => ?_⟩
    cases mem_singleton.1 member
    exact ⟨rfl, mem_singleton.1 childFits.kind_mem, file, _, by decide, childFits⟩

theorem gather_jump (inside : place.IsIn codebase.root)
    (isJump : place.node.kind = .breakStatement ∨ place.node.kind = .continueStatement)
    (found : codebase.home? (.text spelling) place.address = some home) :
    place.gather (lookForJumps (.text spelling)) () =
      place.walk.filter fun token => codebase.target? typing token =
        some (.ofHome (.text spelling) (some home), spelling) := by
  have notHome : isHome (.text spelling) place = false := by
    rcases isJump with isJump | isJump <;> simp [isHome, isLabelled, isJump, Kind.isFunction]
  have goesOn : ¬ (isLabelled (.text spelling) place || place.node.kind.isFunction) = true := by
    intro stops
    rw [isHome, stops] at notHome
    cases notHome
  have homeIn := (of_home? found).1
  have notIdentifier : place.node.kind ≠ .identifier := by
    rcases isJump with isJump | isJump <;> simp [isJump]
  have notHere := target?_ne_ofHome shaped typing spelling inside homeIn notIdentifier
  rw [gather_eq, walk_eq, lookForJumps, if_neg goesOn,
    if_pos (by simpa using isJump), filter_cons_of_neg (by simpa using notHere)]
  obtain ⟨childrenEq, labels⟩ := children_jump (shaped.inner inside
    (by rcases isJump with isJump | isJump <;> simp [isJump])
    (by rcases isJump with isJump | isJump <;> simp [isJump])) isJump
  have gathered : place.children.flatMap (Occurrence.gather (lookForJumps (.text spelling)) ()) = [] :=
    flatMap_eq_nil_iff.2 fun label member =>
      gather_identifier (labels label member).2.2 (labels label member).2.1
  have walked : place.children.flatMap Occurrence.walk = place.children := by
    have each : place.children.flatMap Occurrence.walk = place.children.flatMap fun label => [label] :=
      flatMap_congr fun label member => by
        rw [walk_eq, children_of_identifier (labels label member).2.2 (labels label member).2.1]
        rfl
    rw [each]
    simp
  dsimp only
  rw [gathered, walked, append_nil, ← childrenEq]
  refine filter_congr fun label member => ?_
  obtain ⟨addressEq, isIdentifier, labelInner⟩ := labels label member
  have labelIn := inside.child member
  rw [Bool.eq_iff_iff, isNamed_text, decide_eq_true_iff,
    target?_eq_ofHome shaped labelIn homeIn, shaped.usage?_label labelIn, addressEq,
    home?_cons_of_not_isHome inside notHome]
  obtain ⟨own, ownName, tokenName⟩ := Occurrence.name?_of_inner labelInner isIdentifier
  rw [ownName, tokenName]
  have holdsLabel : place.node.kind.holdsLabel = true := by
    rcases isJump with isJump | isJump <;> simp [Kind.holdsLabel, isJump]
  exact ⟨fun named => ⟨⟨named, place, inside, holdsLabel, rfl⟩, found⟩, fun belongs => belongs.1.1⟩

theorem gather_lookForJumps (place : Occurrence) (inside : place.IsIn codebase.root)
    (inner : place.node.Inner) (notIdentifier : place.node.kind ≠ .identifier)
    (found : codebase.home? (.text spelling) place.address = some home) :
    place.gather (lookForJumps (.text spelling)) () =
      place.walk.filter fun token => codebase.target? typing token =
        some (.ofHome (.text spelling) (some home), spelling) := by
  have homeIn := (of_home? found).1
  induction place using Occurrence.induct with
  | step place ih =>
    by_cases isJump : place.node.kind = .breakStatement ∨ place.node.kind = .continueStatement
    · exact gather_jump shaped inside isJump found
    have notHere := target?_ne_ofHome shaped typing spelling inside homeIn notIdentifier
    rw [gather_eq, walk_eq, filter_cons_of_neg (by simpa using notHere),
      filter_flatMap]
    have notProgram := inner.kind_ne.1
    cases ends : isHome (.text spelling) place with
    | true =>
      have stops : (isLabelled (.text spelling) place || place.node.kind.isFunction) = true := by
        simpa [isHome, notProgram] using ends
      rw [lookForJumps, if_pos stops]
      obtain ⟨_, _, step, path, addressEq⟩ := of_home? found
      have outer : home.address.length < place.address.length := by
        rw [addressEq, length_append, length_cons]
        omega
      exact (flatMap_eq_nil_iff.2 fun child member =>
        filter_walk_of_isHome shaped inside ends member homeIn outer).symm
    | false =>
      have goesOn : ¬ (isLabelled (.text spelling) place || place.node.kind.isFunction) = true := by
        intro stops
        rw [isHome, stops] at ends
        cases ends
      rw [lookForJumps, if_neg goesOn, if_neg (by simpa using isJump)]
      refine flatMap_congr fun child member => ?_
      obtain ⟨step, addressEq, childFound⟩ := mem_children.1 member
      have childIn := inside.child member
      have childHome : codebase.home? (.text spelling) child.address = some home := by
        rw [addressEq, home?_cons_of_not_isHome inside ends, found]
      by_cases isIdentifier : child.node.kind = .identifier
      · refine gather_of_identifier shaped childIn (inner.child childFound) isIdentifier homeIn
          fun used => goesOn ?_
        obtain ⟨holdsLabel, labelEq⟩ := holdsLabel_of_usage? shaped inside member used
        have isLabelling : place.node.kind = .labeledStatement := by
          simpa [Kind.holdsLabel, not_or.1 isJump] using holdsLabel
        rw [isLabelled_of_usage? shaped inside isLabelling childIn labelEq used, Bool.true_or]
      · exact ih child member childIn (inner.child childFound) isIdentifier childHome

theorem gather_children_of_home (homeIn : home.IsIn codebase.root)
    (ends : isHome (.text spelling) home = true) (member : child ∈ home.children)
    (inner : child.node.Inner) (notIdentifier : child.node.kind ≠ .identifier) :
    child.gather (lookForJumps (.text spelling)) () =
      child.walk.filter fun token => codebase.target? typing token =
        some (.ofHome (.text spelling) (some home), spelling) := by
  obtain ⟨step, addressEq, _⟩ := mem_children.1 member
  refine gather_lookForJumps shaped child (homeIn.child member) inner notIdentifier ?_
  rw [addressEq, home?_cons_of_isHome homeIn ends]

theorem tokensOf_ofHome (homeIn : home.IsIn codebase.root)
    (notIdentifier : home.node.kind ≠ .identifier) :
    codebase.tokensOf typing (.ofHome (.text spelling) (some home)) spelling =
      home.children.flatMap fun child => child.walk.filter fun token =>
        codebase.target? typing token = some (.ofHome (.text spelling) (some home), spelling) := by
  have notHere := target?_ne_ofHome shaped typing spelling homeIn homeIn notIdentifier
  rw [tokensOf, Node.filter_walk_of_suffix homeIn, walk_eq,
    filter_cons_of_neg (by simpa using notHere), filter_flatMap]
  intro token inside belongs
  obtain ⟨_, found⟩ := (target?_eq_ofHome shaped inside homeIn).1 (of_decide_eq_true belongs)
  obtain ⟨_, _, step, path, addressEq⟩ := of_home? found
  exact ⟨path ++ [step], by rw [addressEq]; simp⟩

theorem labelGroup_of_isLabelled (homeIn : home.IsIn codebase.root)
    (labelled : isLabelled (.text spelling) home = true) :
    (home.child? "label").toList ++
        (home.child? "body").toList.flatMap (Occurrence.gather (lookForJumps (.text spelling)) ()) =
      codebase.tokensOf typing (.ofHome (.text spelling) (some home)) spelling := by
  have ends : isHome (.text spelling) home = true := by simp [isHome, labelled]
  have isLabelling := kind_of_isLabelled labelled
  obtain ⟨label, body, childrenEq, labelEq, bodyEq, addressEq, isIdentifier, labelInner, bodyKind,
    bodyInner⟩ := children_labeledStatement
      (shaped.inner homeIn (by simp [isLabelling]) (by simp [isLabelling])) isLabelling
  have labelMember : label ∈ home.children := by simp [childrenEq]
  have bodyMember : body ∈ home.children := by simp [childrenEq]
  have labelIn := homeIn.child labelMember
  have named : label.tokenName? = some (.text spelling) := by
    rw [Occurrence.tokenName?_eq_name? labelInner isIdentifier, ← isNamed_text]
    simpa [isLabelled, isLabelling, labelEq] using labelled
  have used := (shaped.usage?_label labelIn).2
    ⟨named, home, homeIn, by simp [Kind.holdsLabel, isLabelling], addressEq⟩
  have belongs : codebase.target? typing label = _ := (target?_eq_ofHome shaped labelIn homeIn).2
      ⟨used, addressEq ▸ home?_cons_of_isHome homeIn ends⟩
  rw [tokensOf_ofHome shaped homeIn (by simp [isLabelling]), childrenEq, labelEq, bodyEq,
    flatMap_cons, flatMap_singleton, walk_eq label,
    children_of_identifier labelInner isIdentifier,
    ← gather_children_of_home shaped homeIn ends bodyMember bodyInner bodyKind]
  simp [belongs]

theorem labelGroup_of_not_isLabelled (homeIn : home.IsIn codebase.root)
    (ends : isHome (.text spelling) home = true)
    (notLabelled : isLabelled (.text spelling) home = false) :
    home.children.flatMap (Occurrence.gather (lookForJumps (.text spelling)) ()) =
      codebase.tokensOf typing (.ofHome (.text spelling) (some home)) spelling := by
  obtain ⟨notIdentifier, notCollection, notLabel⟩ := kind_ne_of_isHome ends notLabelled
  rw [tokensOf_ofHome shaped homeIn notIdentifier]
  refine flatMap_congr fun child member => ?_
  have inner := shaped.inner_of_child homeIn notCollection member
  by_cases isIdentifier : child.node.kind = .identifier
  · refine gather_of_identifier shaped (homeIn.child member) inner isIdentifier homeIn fun used => ?_
    obtain ⟨holdsLabel, _⟩ := holdsLabel_of_usage? shaped homeIn member used
    rw [notLabel] at holdsLabel
    cases holdsLabel
  · exact gather_children_of_home shaped homeIn ends member inner isIdentifier

theorem labelGroup_eq (inside : token.IsIn codebase.root)
    (used : codebase.root.usage? token = .ok (some ⟨.label, .text spelling⟩)) :
    codebase.labelGroup token (.text spelling) = codebase.tokensOf typing
        (.ofHome (.text spelling) (codebase.home? (.text spelling) token.address)) spelling := by
  obtain ⟨named, _⟩ := (shaped.usage?_label inside).1 used
  obtain ⟨home, found⟩ := exists_home? shaped inside (shaped.inner_of_tokenName? inside named)
  obtain ⟨homeIn, ends, _⟩ := of_home? found
  rw [labelGroup, labelDeclaration?_eq shaped inside, found]
  cases labelled : isLabelled (.text spelling) home with
  | true =>
    rw [Option.filter, if_pos labelled]
    exact labelGroup_of_isLabelled shaped homeIn labelled
  | false =>
    rw [Option.filter, if_neg (by simp [labelled]),
      enclosingFunction?_eq shaped inside found labelled]
    simpa using labelGroup_of_not_isLabelled shaped homeIn ends labelled

end Shaped

end Codebase

end Namesake
