import Namesake.Proofs.Renaming.Binding
import Namesake.Proofs.Renaming.Label

/-!
Respelling the group of a label by a name that no label has leaves every label with the
statement that it stood for.
-/

namespace Namesake

open Node Occurrence

variable {place : Occurrence}

namespace Node

structure IsLabel (root : Node) (token : Occurrence) (name : Name) : Prop where
  inside : token.IsIn root
  used : root.usage? token = .ok (some ⟨.label, name⟩)

variable {root : Node} {tokens : List Address} {spelling : Text}
variable {token : Occurrence}

def isLabel (root : Node) (token : Occurrence) (name : Text) : Bool :=
  match root.usage? token with
  | .ok (some ⟨.label, .text own⟩) => own = name
  | _ => false

theorem isLabel_iff {name : Text} :
    token ∈ root.walk ∧ root.isLabel token name = true ↔ root.IsLabel token (.text name) := by
  rw [mem_walk]
  constructor
  · rintro ⟨inside, found⟩
    unfold isLabel at found
    split at found
    · rename_i own used
      rw [of_decide_eq_true found] at used
      exact ⟨inside, used⟩
    · cases found
  · rintro ⟨inside, used⟩
    exact ⟨inside, by simp [isLabel, used]⟩

section Shaped

variable (shaped : root.Shaped)

include shaped

theorem IsLabel.kind_eq {name : Name} (label : root.IsLabel token name) :
    token.node.kind = .identifier :=
  shaped.kind_of_usage?_label label.inside label.used

theorem IsLabel.name?_eq {name : Name} (label : root.IsLabel token name) :
    token.name? = some name := by
  obtain ⟨named, _⟩ := (shaped.usage?_label label.inside).1 label.used
  rwa [Occurrence.tokenName?_eq_name? (shaped.inner_of_tokenName? label.inside named)
    (label.kind_eq shaped)] at named

theorem isLabelled_iff (inside : place.IsIn root) {text : Text} :
    Codebase.isLabelled (.text text) place = true ↔
      place.node.kind = .labeledStatement ∧ ∃ label : Occurrence,
        label.address = ⟨0, none⟩ :: place.address ∧ root.IsLabel label (.text text) := by
  constructor
  · intro labelled
    have isLabelling := Codebase.kind_of_isLabelled labelled
    obtain ⟨label, body, childrenEq, labelEq, _, addressEq, isIdentifier, labelInner, _⟩ :=
      Codebase.children_labeledStatement
        (shaped.inner inside (by simp [isLabelling]) (by simp [isLabelling])) isLabelling
    have labelIn := inside.child (childrenEq ▸ List.mem_cons_self : label ∈ place.children)
    have named : label.tokenName? = some (.text text) := by
      rw [Occurrence.tokenName?_eq_name? labelInner isIdentifier, ← isNamed_text]
      simpa [Codebase.isLabelled, isLabelling, labelEq] using labelled
    have holdsLabel : place.node.kind.holdsLabel = true := by
      simp [Kind.holdsLabel, isLabelling]
    exact ⟨isLabelling, label, addressEq, labelIn,
      (shaped.usage?_label labelIn).2 ⟨named, place, inside, holdsLabel, addressEq⟩⟩
  · rintro ⟨isLabelling, label, addressEq, isLabel⟩
    have originalShaped : root.codebase.root.Shaped := shaped
    exact Codebase.isLabelled_of_usage? originalShaped inside isLabelling isLabel.inside addressEq
      isLabel.used

theorem IsLabel.respelled {old new : Name} (label : root.IsLabel token old)
    (renamed : (token.respelled tokens spelling).name? = some new) :
    (root.respell tokens spelling []).IsLabel (token.respelled tokens spelling) new := by
  obtain ⟨named, parent, parentIn, holdsLabel, addressEq⟩ :=
    (shaped.usage?_label label.inside).1 label.used
  have respelledIn : (token.respelled tokens spelling).IsIn (root.respell tokens spelling []) :=
    label.inside.respelled shaped
  have inner : (token.respelled tokens spelling).node.Inner :=
    (shaped.inner_of_tokenName? label.inside named).respell _
  refine ⟨respelledIn, ((shaped.respell []).usage?_label respelledIn).2 ⟨?_, ?_⟩⟩
  · rw [Occurrence.tokenName?_eq_name? inner (by simp [label.kind_eq shaped]), renamed]
  · exact ⟨parent.respelled tokens spelling, parentIn.respelled shaped,
      by simpa using holdsLabel, addressEq⟩

theorem IsLabel.exists_origin {new : Name}
    (label : (root.respell tokens spelling []).IsLabel token new) :
    ∃ origin old, root.IsLabel origin old ∧ origin.respelled tokens spelling = token := by
  obtain ⟨origin, originMember, rfl⟩ := (mem_walk_respell shaped).1 (mem_walk.2 label.inside)
  have originIn := mem_walk.1 originMember
  have isIdentifier : origin.node.kind = .identifier := by
    simpa using label.kind_eq (shaped.respell [])
  have inner := shaped.inner originIn (by simp [isIdentifier]) (by simp [isIdentifier])
  obtain ⟨text, _, named⟩ := Occurrence.name?_of_inner inner isIdentifier
  obtain ⟨_, parent, parentIn, holdsLabel, addressEq⟩ :=
    ((shaped.respell []).usage?_label label.inside).1 label.used
  obtain ⟨outer, outerMember, rfl⟩ := (mem_walk_respell shaped).1 (mem_walk.2 parentIn)
  refine ⟨origin, .text text, ⟨originIn, (shaped.usage?_label originIn).2 ⟨named, outer, ?_⟩⟩, rfl⟩
  exact ⟨mem_walk.1 outerMember, by simpa using holdsLabel, addressEq⟩

theorem isLabelled_respelled_iff (inside : place.IsIn root) {text : Text} :
    Codebase.isLabelled (.text text) (place.respelled tokens spelling) = true ↔
      place.node.kind = .labeledStatement ∧ ∃ label own,
        label.address = ⟨0, none⟩ :: place.address ∧ root.IsLabel label (.text own) ∧
          (label.respelled tokens spelling).name? = some (.text text) := by
  rw [isLabelled_iff (shaped.respell []) (inside.respelled shaped), kind_respelled]
  refine and_congr_right fun _ => ?_
  constructor
  · rintro ⟨token, addressEq, label⟩
    obtain ⟨origin, old, originLabel, rfl⟩ := label.exists_origin shaped
    obtain ⟨own, rfl⟩ := shaped.text_of_name? originLabel.inside (originLabel.name?_eq shaped)
    exact ⟨origin, own, addressEq, originLabel, label.name?_eq (shaped.respell [])⟩
  · rintro ⟨label, own, addressEq, isLabel, renamed⟩
    exact ⟨label.respelled tokens spelling, addressEq, isLabel.respelled shaped renamed⟩

end Shaped

end Node

namespace Codebase

/-- Whether every label stands for the statement that it stood for before some tokens were
respelled. -/
def KeepsLabels (before after : Codebase) (tokens : List Address) (spelling : Text) : Prop :=
  ∀ token name, before.root.IsLabel token name →
    ∃ new, new = (if token.address ∈ tokens then .text spelling else name) ∧
      after.root.IsLabel (token.respelled tokens spelling) new ∧
      after.labelDeclaration? (token.respelled tokens spelling) new =
        (before.labelDeclaration? token name).map (Occurrence.respelled tokens spelling)

variable {root : Node} {tokens : List Address} {spelling : Text}

theorem name?_respelled_label (shaped : root.Shaped) {label : Occurrence} {own : Name}
    (isLabel : root.IsLabel label own) :
    (label.respelled tokens spelling).name? =
      some (if label.address ∈ tokens then .text spelling else own) := by
  split
  · rename_i chosen
    exact Occurrence.name?_respelled_of_mem (isLabel.kind_eq shaped) chosen
  · rename_i kept
    rw [Occurrence.name?_respelled_of_not_mem shaped isLabel.inside kept, isLabel.name?_eq shaped]

theorem isHome_eq_of_isLabelled {old new : Name}
    (same : isLabelled new (place.respelled tokens spelling) = isLabelled old place) :
    isHome new (place.respelled tokens spelling) = isHome old place := by
  rw [isHome, isHome, same, kind_respelled]

section Kept

variable {token : Occurrence} {old new : Name} (shaped : root.Shaped) (inside : token.IsIn root)
  (fewer : ∀ outer : Occurrence, outer.IsIn root →
    isLabelled new (outer.respelled tokens spelling) = true → isLabelled old outer = true)
  (still : ∀ home, root.codebase.home? old token.address = some home →
    isLabelled new (home.respelled tokens spelling) = isLabelled old home)

include shaped inside fewer still

theorem home?_respelled :
    (root.respell tokens spelling []).codebase.home? new token.address =
      (root.codebase.home? old token.address).map (Occurrence.respelled tokens spelling) := by
  have aboveEq : (root.respell tokens spelling []).codebase.root.above token.address =
      (root.above token.address).map (Occurrence.respelled tokens spelling) :=
    above_respell shaped inside
  rw [home?, aboveEq, List.find?_map]
  refine congrArg (Option.map _) (find?_eq_of_fewer ?_ ?_)
  · intro outer member ends
    have outerIn := (of_mem_above member).1
    cases labelled : isLabelled new (outer.respelled tokens spelling) with
    | true => simp [isHome, fewer outer outerIn labelled]
    | false =>
      rw [Function.comp_apply, isHome, labelled, kind_respelled, Bool.false_or] at ends
      rw [isHome, Bool.or_assoc, ends, Bool.or_true]
  · intro home found
    rw [Function.comp_apply, isHome_eq_of_isLabelled (still home found)]
    exact List.find?_some found

theorem labelDeclaration?_respelled :
    (root.respell tokens spelling []).codebase.labelDeclaration?
        (token.respelled tokens spelling) new =
      (root.codebase.labelDeclaration? token old).map (Occurrence.respelled tokens spelling) := by
  have respelledShaped : (root.respell tokens spelling []).codebase.root.Shaped := shaped.respell []
  have respelledIn : (token.respelled tokens spelling).IsIn
      (root.respell tokens spelling []).codebase.root := inside.respelled shaped
  have originalShaped : root.codebase.root.Shaped := shaped
  rw [labelDeclaration?_eq respelledShaped respelledIn, labelDeclaration?_eq originalShaped inside,
    address_respelled, home?_respelled shaped inside fewer still]
  cases found : root.codebase.home? old token.address with
  | none => rfl
  | some home => cases ends : isLabelled old home <;> simp [Option.filter, still home found, ends]

end Kept

section Group

variable {name : Text} {home : Occurrence} (shaped : root.Shaped)
  (members : ∀ token : Occurrence, token.IsIn root →
    (token.address ∈ tokens ↔ root.IsLabel token (.text name) ∧
      root.codebase.home? (.text name) token.address = some home))
  (unused : ∀ token, ¬ root.IsLabel token (.text spelling))
variable {own : Text}

include members

include shaped

theorem label_mem_tokens_iff {label : Occurrence} (inside : place.IsIn root)
    (isLabelling : place.node.kind = .labeledStatement)
    (addressEq : label.address = ⟨0, none⟩ :: place.address)
    (isLabel : root.IsLabel label (.text own)) :
    label.address ∈ tokens ↔ own = name ∧ place = home := by
  have same_name (other : root.IsLabel label (.text name)) : own = name :=
    Name.text.inj (Option.some.inj ((isLabel.name?_eq shaped).symm.trans (other.name?_eq shaped)))
  have labelled := (isLabelled_iff shaped inside).2 ⟨isLabelling, label, addressEq, isLabel⟩
  have homeEq : root.codebase.home? (.text own) label.address = some place :=
    addressEq ▸ home?_cons_of_isHome inside (by simp [isHome, labelled])
  rw [members label isLabel.inside]
  constructor
  · rintro ⟨other, found⟩
    obtain rfl := same_name other
    exact ⟨rfl, Option.some.inj (homeEq.symm.trans found)⟩
  · rintro ⟨rfl, rfl⟩
    exact ⟨isLabel, homeEq⟩

include unused in
theorem isLabelled_new_iff (inside : place.IsIn root) :
    isLabelled (.text spelling) (place.respelled tokens spelling) = true ↔
      isLabelled (.text name) place = true ∧ place = home := by
  rw [isLabelled_respelled_iff shaped inside, isLabelled_iff shaped inside]
  constructor
  · rintro ⟨isLabelling, label, own, addressEq, isLabel, renamed⟩
    rw [name?_respelled_label shaped isLabel, Option.some.injEq] at renamed
    split at renamed
    · rename_i chosen
      obtain ⟨rfl, rfl⟩ :=
        (label_mem_tokens_iff shaped members inside isLabelling addressEq isLabel).1 chosen
      exact ⟨⟨isLabelling, label, addressEq, isLabel⟩, rfl⟩
    · exact absurd (renamed ▸ isLabel) (unused label)
  · rintro ⟨⟨isLabelling, label, addressEq, isLabel⟩, rfl⟩
    refine ⟨isLabelling, label, name, addressEq, isLabel, ?_⟩
    have chosen :=
      (label_mem_tokens_iff shaped members inside isLabelling addressEq isLabel).2 ⟨rfl, rfl⟩
    rw [name?_respelled_label shaped isLabel, if_pos chosen]

theorem isLabelled_kept_iff (inside : place.IsIn root) (other : own ≠ spelling) :
    isLabelled (.text own) (place.respelled tokens spelling) = true ↔
      isLabelled (.text own) place = true ∧ ¬ (own = name ∧ place = home) := by
  rw [isLabelled_respelled_iff shaped inside, isLabelled_iff shaped inside]
  constructor
  · rintro ⟨isLabelling, label, text, addressEq, isLabel, renamed⟩
    rw [name?_respelled_label shaped isLabel, Option.some.injEq] at renamed
    split at renamed
    · exact absurd (Name.text.inj renamed).symm other
    · rename_i kept
      obtain rfl := Name.text.inj renamed
      refine ⟨⟨isLabelling, label, addressEq, isLabel⟩, fun same => kept ?_⟩
      exact (label_mem_tokens_iff shaped members inside isLabelling addressEq isLabel).2 same
  · rintro ⟨⟨isLabelling, label, addressEq, isLabel⟩, different⟩
    refine ⟨isLabelling, label, own, addressEq, isLabel, ?_⟩
    rw [name?_respelled_label shaped isLabel, if_neg]
    exact fun chosen => different
      ((label_mem_tokens_iff shaped members inside isLabelling addressEq isLabel).1 chosen)

include unused

theorem labelDeclaration?_of_mem_tokens {token : Occurrence}
    (isLabel : root.IsLabel token (.text name))
    (found : root.codebase.home? (.text name) token.address = some home) :
    (root.respell tokens spelling []).codebase.labelDeclaration? (token.respelled tokens spelling)
        (.text spelling) =
      (root.codebase.labelDeclaration? token (.text name)).map
        (Occurrence.respelled tokens spelling) := by
  refine labelDeclaration?_respelled shaped isLabel.inside ?_ ?_
  · intro outer outerIn now
    exact ((isLabelled_new_iff shaped members unused outerIn).1 now).1
  · intro other otherFound
    obtain rfl := Option.some.inj (found.symm.trans otherFound)
    rw [Bool.eq_iff_iff, isLabelled_new_iff shaped members unused (of_home? found).1]
    exact and_iff_left rfl

theorem labelDeclaration?_of_not_mem_tokens {token : Occurrence} (kept : token.address ∉ tokens)
    (isLabel : root.IsLabel token (.text own)) :
    (root.respell tokens spelling []).codebase.labelDeclaration? (token.respelled tokens spelling)
        (.text own) =
      (root.codebase.labelDeclaration? token (.text own)).map
        (Occurrence.respelled tokens spelling) := by
  have other : own ≠ spelling := by
    rintro rfl
    exact unused token isLabel
  refine labelDeclaration?_respelled shaped isLabel.inside ?_ ?_
  · intro outer outerIn now
    exact ((isLabelled_kept_iff shaped members outerIn other).1 now).1
  · intro outer found
    rw [Bool.eq_iff_iff, isLabelled_kept_iff shaped members (of_home? found).1 other]
    refine and_iff_left fun same => kept ?_
    obtain ⟨rfl, rfl⟩ := same
    exact (members token isLabel.inside).2 ⟨isLabel, found⟩

theorem keepsLabels_of_tokens :
    root.codebase.KeepsLabels (root.respell tokens spelling []).codebase tokens spelling := by
  intro token own isLabel
  refine ⟨_, rfl, isLabel.respelled shaped (name?_respelled_label shaped isLabel), ?_⟩
  by_cases chosen : token.address ∈ tokens
  · obtain ⟨inGroup, found⟩ := (members token isLabel.inside).1 chosen
    obtain rfl : .text name = own := Option.some.inj
      ((inGroup.name?_eq shaped).symm.trans (isLabel.name?_eq shaped))
    rw [if_pos chosen]
    exact labelDeclaration?_of_mem_tokens shaped members unused isLabel found
  · obtain ⟨text, rfl⟩ := shaped.text_of_name? isLabel.inside (isLabel.name?_eq shaped)
    rw [if_neg chosen]
    exact labelDeclaration?_of_not_mem_tokens shaped members unused chosen isLabel

end Group

theorem labelGroup_spec (shaped : root.Shaped) {token : Occurrence} {name : Text}
    (isLabel : root.IsLabel token (.text name)) :
    ∃ home, (∀ other, other ∈ root.codebase.labelGroup token (.text name) ↔
        root.IsLabel other (.text name) ∧
          root.codebase.home? (.text name) other.address = some home) ∧
      root.codebase.home? (.text name) token.address = some home ∧
      ((root.codebase.labelGroup token (.text name)).map Occurrence.address).Nodup := by
  have originalShaped : root.codebase.root.Shaped := shaped
  obtain ⟨named, _⟩ := (shaped.usage?_label isLabel.inside).1 isLabel.used
  obtain ⟨home, found⟩ : ∃ home, root.codebase.home? (.text name) token.address = some home :=
    exists_home? originalShaped isLabel.inside (shaped.inner_of_tokenName? isLabel.inside named)
  -- Any types will do: what a label stands for is told by the tree alone.
  have groupEq : _ = root.codebase.tokensOf .start _ _ :=
    labelGroup_eq originalShaped isLabel.inside isLabel.used
  rw [found] at groupEq
  refine ⟨home, fun other => ?_, found, ?_⟩
  · rw [groupEq, mem_tokensOf]
    constructor
    · rintro ⟨inside, belongs⟩
      obtain ⟨used, otherFound⟩ :=
        (target?_eq_ofHome originalShaped inside (of_home? found).1).1 belongs
      exact ⟨⟨inside, used⟩, otherFound⟩
    · rintro ⟨⟨inside, used⟩, otherFound⟩
      exact ⟨inside,
        (target?_eq_ofHome originalShaped inside (of_home? found).1).2 ⟨used, otherFound⟩⟩
  · rw [groupEq]
    exact nodup_tokensOf _

end Codebase

/-- Respelling the group of a label by a name that no label has keeps the statement, or the lack of
one, that every label stands for, and the group holds the label itself once. -/
theorem respell_keeps_labels {root : Node} (parsed : root.IsParsed) :
    ∃ codebase, Codebase.ofRoot root = .ok codebase ∧ codebase.root = root ∧
      ∀ token name spelling, root.IsLabel token name →
        (∀ other, ¬ root.IsLabel other (.text spelling)) →
        ∃ group tokens after,
          codebase.renameLabel token = .ok { kind := .label, name, groups := [group] } ∧
          tokens = group.map Occurrence.address ∧ tokens.count token.address = 1 ∧
          Codebase.ofRoot (root.respell tokens spelling []) = .ok after ∧
          codebase.KeepsLabels after tokens spelling := by
  have shaped := parsed.shaped
  refine ⟨root.codebase, Codebase.ofRoot_eq shaped, rfl, ?_⟩
  intro token name spelling isLabel unused
  have named := isLabel.name?_eq shaped
  obtain ⟨text, rfl⟩ := shaped.text_of_name? isLabel.inside named
  obtain ⟨home, inGroup, found, nodup⟩ := Codebase.labelGroup_spec shaped isLabel
  have members := mem_map_address_iff inGroup fun _ label => label.1.inside
  refine ⟨root.codebase.labelGroup token (.text text), _, _, ?_, rfl, ?_,
    Codebase.ofRoot_eq (shaped.respell []), Codebase.keepsLabels_of_tokens shaped members unused⟩
  · rw [Codebase.renameLabel, named]
  · exact List.count_eq_one_of_mem nodup ((members token isLabel.inside).2 ⟨isLabel, found⟩)

/-- A jump out of the inner one of two statements with the same label. -/
theorem respell_keeps_labels_nested :
    ∃ root, ((⟨"", "a:a:break a"⟩ : SourceFile).parse false).result = .ok root ∧
      root.IsParsed ∧ ∃ codebase token group after, Codebase.ofRoot root = .ok codebase ∧
        root.IsLabel token (.text (Text.ofString "a")) ∧
        (∀ other, ¬ root.IsLabel other (.text (Text.ofString "b"))) ∧
        codebase.renameLabel token = .ok
          { kind := .label, name := .text (Text.ofString "a"), groups := [group] } ∧
        (group.map Occurrence.address).count token.address = 1 ∧
        Codebase.ofRoot (root.respell (group.map Occurrence.address) (Text.ofString "b") []) =
          .ok after ∧
        codebase.KeepsLabels after (group.map Occurrence.address) (Text.ofString "b") := by
  have found : ((⟨"", "a:a:break a"⟩ : SourceFile).parse false).result.toOption.any
      (fun root => (∃ token ∈ root.walk, root.isLabel token (Text.ofString "a")) ∧
        ∀ token ∈ root.walk, ¬ root.isLabel token (Text.ofString "b") = true) = true := by
    decide +kernel
  obtain ⟨root, parseEq, parsed, ⟨token, inside, isLabel⟩, unused⟩ := Node.exists_isParsed found
  have label := Node.isLabel_iff.1 ⟨inside, isLabel⟩
  have notLabel (other : Occurrence) : ¬ root.IsLabel other (.text (Text.ofString "b")) := by
    intro isOther
    obtain ⟨otherIn, checked⟩ := Node.isLabel_iff.2 isOther
    exact unused other otherIn checked
  obtain ⟨codebase, analysed, _, keeps⟩ := respell_keeps_labels parsed
  obtain ⟨group, _, after, renamed, rfl, once, analysedAfter, kept⟩ :=
    keeps token _ _ label notLabel
  exact ⟨root, parseEq, parsed, codebase, token, group, after, analysed, label, notLabel, renamed,
    once, analysedAfter, kept⟩

end Namesake
