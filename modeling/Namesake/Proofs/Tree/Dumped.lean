import Namesake.Node.Loaded
import Namesake.Proofs.Syntax.Positions

/-!
A dump writes a tree as plain data in the ESTree format: an object for each node, with its type,
an entry for each attribute and its range.
-/

namespace Namesake

open Node List

namespace Dumped

variable (split : Data → Data × Data)

def written? (name : String) (value : Data) : Option (String × Data) :=
  if name ≠ "regex" then some (name, value)
  else if value.isNull then none
  else some (name, .object [("pattern", (split value).1), ("flags", (split value).2)])

def entries (slots : List Attribute) (values : List Data) : List (String × Data) :=
  (slots.zip values).filterMap fun (slot, value) => written? split slot.name value

def range (location : Option Location) : List (String × Data) :=
  location.toList.map fun place => ("range", .list [place.first.offset, place.last.offset])

end Dumped

mutual

def Node.dump (split : Data → Data × Data) : Node → Data
  | .mk kind fields location =>
    .object (("type", .ofString kind.name) ::
      (Dumped.entries split kind.attributes (Field.dumpAll split fields) ++ Dumped.range location))

def Field.dump (split : Data → Data × Data) : Field → Data
  | .data value => value
  | .node child => child.dump split
  | .list items => .list (Field.dumpAll split items)

def Field.dumpAll (split : Data → Data × Data) : List Field → List Data
  | [] => []
  | field :: rest => field.dump split :: Field.dumpAll split rest

end

/-- Whether a value is neither a list nor an object with a type. -/
def Data.IsPlain : Data → Prop
  | .list _ => False
  | .object entries => entries.lookup "type" = none
  | _ => True

def Field.IsItem : Field → Prop
  | .data value => value.IsPlain
  | .node _ => True
  | .list _ => False

def Field.IsFlat : Field → Prop
  | .list items => ∀ item ∈ items, item.IsItem
  | field => field.IsItem

/-- Whether a literal is no regular expression, or one that has its spelling and no value. -/
def Node.IsSpelled (literal : Node) : Prop :=
  literal.fields[2]? = some (.data .null) ∨ ∃ spelling : Text, spelling.isEmpty = false ∧
      literal.fields = [.data .null, .data (.text spelling), .data (.text spelling)]

/-- Whether a node has a field for each of its attributes, and its location is what a line index says
of two offsets.  The fields hold what the loader does not replace: a program names its file, and the
list of an array or of arguments is there. -/
structure Node.Stands (file : String) (lines : LineIndex) (node : Node) : Prop where
  complete : node.fields.length = node.kind.attributes.length
  flat : ∀ field ∈ node.fields, field.IsFlat
  named : node.kind = .program → node.fields[1]? = some (.data (.ofString file))
  listed : node.kind ∈ [.arrayExpression, .callExpression, .newExpression] →
    ∀ list ∈ node.fields.getLast?, list.isNull = false
  spelled : node.kind = .literal → node.IsSpelled
  located : ∀ location, node.location = some location → ∃ start stop : Int,
      location = .between file (lines.position start) (lines.position stop)

def Node.AllStand (file source : String) (root : Node) : Prop :=
  ∀ place ∈ root.walk, place.node.Stands file (LineIndex.ofSource source)

namespace Kind

theorem names_nodup (kind : Kind) : (kind.attributes.map Attribute.name).Nodup := by
  cases kind <;> decide

theorem names_free (kind : Kind) :
    ∀ key ∈ ["type", "range", "start", "end", "loc"], key ∉ kind.attributes.map Attribute.name := by
  cases kind <;> decide

theorem regex_iff (kind : Kind) :
    "regex" ∈ kind.attributes.map Attribute.name ↔ kind = .literal := by
  cases kind <;> decide

theorem kindOf_name (kind : Kind) : Loaded.kindOf (.ofString kind.name) = .ok kind := by
  cases kind <;> rfl

end Kind

theorem Field.dumpAll_eq (split : Data → Data × Data) (fields : List Field) :
    dumpAll split fields = fields.map (Field.dump split) := by
  induction fields with
  | nil => rfl
  | cons field rest ih => rw [dumpAll, ih, map_cons]

namespace Dumped

variable {split : Data → Data × Data}

theorem fst_of_written? {name : String} {value : Data} {entry : String × Data}
    (found : written? split name value = some entry) : entry.1 = name := by
  unfold written? at found
  grind

theorem lookup_entries_of_not_mem {slots : List Attribute} {values : List Data} {key : String}
    (absent : key ∉ slots.map Attribute.name) : (entries split slots values).lookup key = none := by
  rw [lookup_eq_none_iff]
  intro entry member
  obtain ⟨⟨slot, value⟩, zipped, found⟩ := mem_filterMap.1 member
  rw [fst_of_written? found, bne_iff_ne]
  intro same
  apply absent
  rw [same]
  exact mem_map_of_mem (of_mem_zip zipped).1

theorem entries_cons (slot : Attribute) (slots : List Attribute) (value : Data)
    (values : List Data) :
    entries split (slot :: slots) (value :: values) =
      (written? split slot.name value).toList ++ entries split slots values := by
  rw [entries, zip_cons_cons, filterMap_cons]
  dsimp only
  cases written? split slot.name value <;> rfl

theorem lookup_entries {slots : List Attribute} {values : List Data} {slot : Attribute}
    {value : Data} (nodup : (slots.map Attribute.name).Nodup)
    (member : (slot, value) ∈ slots.zip values) :
    (entries split slots values).lookup slot.name = (written? split slot.name value).map Prod.snd := by
  induction slots generalizing values with
  | nil => cases member
  | cons first slots ih =>
    cases values with
    | nil => cases member
    | cons head values =>
      rw [map_cons, nodup_cons] at nodup
      rw [zip_cons_cons, mem_cons] at member
      rw [entries_cons, lookup_append]
      rcases member with same | later
      · cases same
        rw [lookup_entries_of_not_mem nodup.1, Option.or_none]
        cases found : written? split slot.name value with
        | none => rfl
        | some entry =>
          obtain ⟨key, held⟩ := entry
          rw [← fst_of_written? found]
          exact lookup_cons_self
      · have different : slot.name ≠ first.name := by
          intro same
          apply nodup.1
          rw [← same]
          exact mem_map_of_mem (of_mem_zip later).1
        have absent : (written? split first.name head).toList.lookup slot.name = none := by
          cases found : written? split first.name head with
          | none => rfl
          | some entry => simp [fst_of_written? found, different]
        rw [absent, Option.none_or, ih nodup.2 later]

end Dumped

namespace Loaded

variable {split : Data → Data × Data} {origin : Origin}

theorem fieldAt_eq (key : String) (entries : List (String × Data)) :
    fieldAt origin key entries = (entries.lookup key).map (field origin) := by
  induction entries with
  | nil => rfl
  | cons entry rest ih =>
    obtain ⟨name, value⟩ := entry
    rw [fieldAt, lookup_cons, ih]
    by_cases same : name = key
    · simp [same]
    · simp [same, beq_eq_false_iff_ne.2 (Ne.symm same)]

theorem field_plain {value : Data} (plain : value.IsPlain) :
    field origin value = .ok (.data value) := by
  cases value with
  | list items => cases plain
  | object entries =>
    unfold field
    rw [(plain : entries.lookup "type" = none)]
  | _ => rw [field] <;> simp

theorem fill_eq {slots : List Attribute} {fields : List Field}
    {found : Attribute → Option (Except Fault Field)} (complete : fields.length = slots.length)
    (given : ∀ slot field, (slot, field) ∈ slots.zip fields →
      (found slot).getD (.ok (slot.fallback.getD (.data .null))) = .ok field) :
    fill slots (slots.map found) = .ok fields := by
  induction slots generalizing fields with
  | nil =>
    rw [length_eq_zero_iff.1 complete]
    rfl
  | cons slot slots ih =>
    cases fields with
    | nil => cases complete
    | cons field fields =>
      rw [map_cons, fill, given slot field mem_cons_self,
        ih (Nat.succ.inj complete) fun slot field member =>
          given slot field (mem_cons_of_mem _ member)]
      rfl

theorem lookup_dump {kind : Kind} {values : List Data} {location : Option Location} {type : Data}
    {key : String} (free : key ∈ ["range", "start", "end", "loc"]) :
    (("type", type) :: (Dumped.entries split kind.attributes values ++
      Dumped.range location)).lookup key = (Dumped.range location).lookup key := by
  have notType : key ≠ "type" := by
    rintro rfl
    revert free
    decide
  rw [lookup_cons, beq_eq_false_iff_ne.2 notType]
  dsimp only
  rw [lookup_append,
    Dumped.lookup_entries_of_not_mem (kind.names_free key (mem_cons_of_mem _ free)),
    Option.none_or]

theorem location_dump {file : String} {lines : LineIndex} {kind : Kind} {values : List Data}
    {location : Option Location} {type : Data}
    (located : ∀ place, location = some place → ∃ start stop : Int,
      place = .between file (lines.position start) (lines.position stop)) :
    Loaded.location ⟨file, some lines⟩ type
        (("type", type) :: (Dumped.entries split kind.attributes values ++
          Dumped.range location)) = .ok location := by
  unfold Loaded.location offsets
  rw [lookup_dump (by decide), lookup_dump (by decide), lookup_dump (by decide),
    lookup_dump (by decide)]
  cases location with
  | none => rfl
  | some place =>
    obtain ⟨start, stop, rfl⟩ := located place rfl
    rfl

theorem adjust_eq {file : String} {lines : LineIndex} {kind : Kind} {fields : List Field}
    {location : Option Location} {entries : List (String × Data)}
    {handler : Option (Except Fault Field)}
    (stands : (mk kind fields location).Stands file lines)
    (handled : kind = .tryStatement → (entries.lookup "handler").isSome)
    (noRegex : kind = .literal → entries.lookup "regex" = none) :
    adjust ⟨file, some lines⟩ entries handler kind fields = .ok fields := by
  have kept (list : Field) (final : list ∈ fields.getLast?)
      (isListed : kind ∈ [.arrayExpression, .callExpression, .newExpression]) :
      listOrEmpty list = list := by
    rw [listOrEmpty, stands.listed isListed list final]
    rfl
  unfold adjust
  split
  · rw [handled rfl]
    rfl
  · rw [noRegex rfl]
  · obtain ⟨rfl⟩ := stands.named rfl
    rfl
  · rename_i elements
    rw [kept elements rfl (by decide)]
  · rename_i callee arguments
    rw [kept arguments rfl (by decide)]
  · rename_i callee arguments
    rw [kept arguments rfl (by decide)]
  · rfl

theorem lookup_attribute {kind : Kind} {fields : List Field} {location : Option Location}
    {type : Data} {slot : Attribute} {held : Field}
    (member : (slot, held) ∈ kind.attributes.zip fields) :
    (("type", type) :: (Dumped.entries split kind.attributes (fields.map (Field.dump split)) ++
      Dumped.range location)).lookup slot.name =
        (Dumped.written? split slot.name (held.dump split)).map Prod.snd := by
  have named : slot.name ∈ kind.attributes.map Attribute.name :=
    mem_map_of_mem (of_mem_zip member).1
  have different (key : String) (reserved : key ∈ ["type", "range", "start", "end", "loc"]) :
      slot.name ≠ key := by
    rintro rfl
    exact kind.names_free _ reserved named
  have noRange : (Dumped.range location).lookup slot.name = none := by
    rw [lookup_eq_none_iff]
    intro entry inRange
    obtain ⟨place, _, rfl⟩ := mem_map.1 inRange
    rw [bne_iff_ne]
    exact different "range" (by decide)
  have zipped : (slot, held.dump split) ∈ kind.attributes.zip (fields.map (Field.dump split)) := by
    rw [zip_map_right]
    exact mem_map.2 ⟨(slot, held), member, rfl⟩
  rw [lookup_cons, beq_eq_false_iff_ne.2 (different "type" (by decide))]
  dsimp only
  rw [lookup_append, noRange, Option.or_none, Dumped.lookup_entries kind.names_nodup zipped]

theorem field_of_type {kind : Kind} {entries : List (String × Data)} {given fields : List Field}
    {place : Option Location} (typed : entries.lookup "type" = some (.ofString kind.name))
    (filled : fill kind.attributes (kind.attributes.map fun slot =>
      (entries.lookup slot.name).map (field origin)) = .ok given)
    (adjusted : adjust origin entries (firstHandler origin entries) kind given = .ok fields)
    (located : location origin (.ofString kind.name) entries = .ok place) :
    field origin (.object entries) = .ok (.node (.mk kind fields place)) := by
  unfold field
  simp only [typed, kind.kindOf_name, fieldAt_eq, bind, Except.bind, filled, adjusted, located]
  rfl

theorem slot_of_regex {kind : Kind} {fields : List Field} {slot : Attribute} {held : Field}
    (complete : fields.length = kind.attributes.length)
    (member : (slot, held) ∈ kind.attributes.zip fields) (isRegex : slot.name = "regex") :
    kind = .literal ∧ fields[2]? = some held ∧ slot.fallback = some (.data .null) := by
  have isLiteral : kind = .literal := by
    rw [← kind.regex_iff, ← isRegex]
    exact mem_map_of_mem (of_mem_zip member).1
  subst isLiteral
  obtain ⟨value, raw, regex, rfl⟩ := length_eq_three.1 complete
  simp only [Kind.attributes, zip_cons_cons, zip_nil_right, mem_cons, Prod.mk.injEq,
    not_mem_nil, or_false] at member
  rcases member with ⟨rfl, -⟩ | ⟨rfl, -⟩ | ⟨rfl, rfl⟩
  · exact absurd isRegex (by decide)
  · exact absurd isRegex (by decide)
  · exact ⟨rfl, rfl, rfl⟩

theorem field_dump_of_fields {file : String} {lines : LineIndex} {kind : Kind}
    {fields : List Field} {location : Option Location}
    (stands : (mk kind fields location).Stands file lines)
    (noRegex : kind = .literal → fields[2]? = some (.data .null))
    (loads : ∀ held ∈ fields, field ⟨file, some lines⟩ (held.dump split) = .ok held) :
    field ⟨file, some lines⟩ ((mk kind fields location).dump split) =
      .ok (.node (.mk kind fields location)) := by
  have complete : fields.length = kind.attributes.length := stands.complete
  rw [dump, Field.dumpAll_eq]
  refine field_of_type rfl (fill_eq complete ?_) (adjust_eq stands ?_ ?_)
    (location_dump stands.located)
  · intro slot held member
    rw [lookup_attribute member]
    by_cases isRegex : slot.name = "regex"
    · obtain ⟨isLiteral, third, fallback⟩ := slot_of_regex complete member isRegex
      cases third.symm.trans (noRegex isLiteral)
      rw [isRegex, fallback]
      rfl
    · rw [Dumped.written?, if_pos isRegex]
      exact loads held (of_mem_zip member).2
  · rintro rfl
    obtain ⟨block, handler, finalizer, rfl⟩ := length_eq_three.1 complete
    rfl
  · rintro rfl
    obtain ⟨value, raw, regex, rfl⟩ := length_eq_three.1 complete
    obtain rfl : regex = .data .null := Option.some.inj (noRegex rfl)
    cases location <;> rfl

theorem adjust_of_raw {entries : List (String × Data)} {handler : Option (Except Fault Field)}
    {value rawField regexField : Field} {raw regex : Data}
    (given : entries.lookup "regex" = some regex) (rawGiven : entries.lookup "raw" = some raw)
    (truthy : raw.isTruthy = true) :
    adjust origin entries handler .literal [value, rawField, regexField] =
      .ok [.data .null, rawField, .data raw] := by
  have spelled : regexSpelling entries regex = .ok raw := by
    unfold regexSpelling
    simp only [rawGiven, Option.getD_some, truthy, if_true]
    rfl
  simp only [adjust, given, spelled]
  rfl

theorem field_dump_of_regex {file : String} {lines : LineIndex} {spelling : Text}
    {location : Option Location} (spelled : spelling.isEmpty = false)
    (located : ∀ place, location = some place → ∃ start stop : Int,
      place = .between file (lines.position start) (lines.position stop)) :
    field ⟨file, some lines⟩ ((mk .literal [.data .null, .data (.text spelling),
        .data (.text spelling)] location).dump split) =
      .ok (.node (.mk .literal [.data .null, .data (.text spelling), .data (.text spelling)]
        location)) := by
  have truthy : (Data.text spelling).isTruthy = true := by simp [Data.isTruthy, spelled]
  exact field_of_type rfl rfl (adjust_of_raw rfl rfl truthy) (location_dump located)

theorem fieldItems_dump {items : List Field}
    (loads : ∀ item ∈ items, field origin (item.dump split) = .ok item) :
    fieldItems origin (items.map (Field.dump split)) = .ok items := by
  induction items with
  | nil => rfl
  | cons item rest ih =>
    rw [map_cons, fieldItems, loads item mem_cons_self,
      ih fun item member => loads item (mem_cons_of_mem _ member)]
    rfl

theorem field_dump_of_flat {held : Field} {index : Nat} (flat : held.IsFlat)
    (loads : ∀ step child, (step, child) ∈ fieldChildren index held →
      field origin (child.dump split) = .ok (.node child)) :
    field origin (held.dump split) = .ok held := by
  have item_loads (item : Field) (isItem : item.IsItem)
      (inner : ∀ child, item = .node child → field origin (child.dump split) = .ok (.node child)) :
      field origin (item.dump split) = .ok item := by
    cases item with
    | data value => exact field_plain isItem
    | node child => exact inner child rfl
    | list items => cases isItem
  cases held with
  | data value => exact item_loads (.data value) flat nofun
  | node child =>
    apply item_loads (.node child) flat
    rintro _ ⟨rfl⟩
    exact loads _ child mem_cons_self
  | list items =>
    rw [Field.dump, Field.dumpAll_eq, field, fieldItems_dump]
    · rfl
    · intro item member
      apply item_loads item (flat item member)
      rintro child rfl
      obtain ⟨number, found⟩ := mem_iff_getElem?.1 member
      exact loads _ child (mem_itemChildren.2 ⟨number, rfl, by rw [found]; rfl⟩)

theorem field_dump {file : String} {lines : LineIndex} (place : Occurrence)
    (stand : ∀ inner ∈ place.walk, inner.node.Stands file lines) :
    field ⟨file, some lines⟩ (place.node.dump split) = .ok (.node place.node) := by
  induction place using Occurrence.induct with
  | step place ih =>
    rw [Occurrence.walk_eq, forall_mem_cons] at stand
    obtain ⟨stands, below⟩ := stand
    obtain ⟨address, kind, fields, location⟩ := place
    have loads (held : Field) (member : held ∈ fields) :
        field ⟨file, some lines⟩ (held.dump split) = .ok held := by
      obtain ⟨index, found⟩ := mem_iff_getElem?.1 member
      apply field_dump_of_flat (stands.flat held member)
      intro step child inField
      have isStep : (step, child) ∈ (mk kind fields location).steps :=
        mem_flatMap.2 ⟨(held, index), mem_zipIdx_iff_getElem?.2 found, inField⟩
      have isChild : ⟨step :: address, child⟩ ∈
          (⟨address, .mk kind fields location⟩ : Occurrence).children :=
        Occurrence.mem_children.2 ⟨step, rfl, mem_steps.1 isStep⟩
      apply ih _ isChild
      intro inner inChild
      exact below inner (mem_flatMap.2 ⟨_, isChild, inChild⟩)
    by_cases isLiteral : kind = .literal
    · subst isLiteral
      rcases stands.spelled rfl with noRegex | ⟨spelling, spelled, fieldsEq⟩
      · exact field_dump_of_fields stands (fun _ => noRegex) loads
      · obtain rfl : fields = _ := fieldsEq
        exact field_dump_of_regex spelled stands.located
    · exact field_dump_of_fields stands (fun isOne => absurd isOne isLiteral) loads

end Loaded

namespace Kind

theorem length_signatures (kind : Kind) :
    ∀ slots ∈ kind.signatures, slots.length = kind.attributes.length := by
  cases kind <;> decide

theorem data_not_mem {kind : Kind} (notLiteral : kind ≠ .literal) :
    ∀ slots ∈ kind.signatures, Slot.data ∉ slots := by
  cases kind <;> first | decide | exact absurd rfl notLiteral

theorem slots_of_listed {kind : Kind}
    (isListed : kind ∈ [arrayExpression, callExpression, newExpression]) :
    ∀ slots ∈ kind.signatures, ∀ slot ∈ slots,
      slot ∈ [Slot.one .expression, .many .expression, .sparse .expression] := by
  cases kind <;> first | decide | exact absurd isListed (by decide)

end Kind

namespace Field

variable {file : String} {slot : Slot} {slots : List Slot} {field : Field} {fields : List Field}

theorem AllFit.length_eq (fit : AllFit file slots fields) : fields.length = slots.length := by
  induction slots generalizing fields with
  | nil => rw [allFit_nil.1 fit, length_nil, length_nil]
  | cons slot slots ih =>
    obtain ⟨field, rest, rfl, _, restFit⟩ := allFit_cons.1 fit
    rw [length_cons, length_cons, ih restFit]

theorem AllFit.exists_slot (fit : AllFit file slots fields) (member : field ∈ fields) :
    ∃ slot ∈ slots, Fits file slot field := by
  obtain ⟨index, found⟩ := mem_iff_getElem?.1 member
  obtain ⟨slot, slotFound, fits⟩ := fit.getElem? found
  exact ⟨slot, mem_of_getElem? slotFound, fits⟩

theorem isItem_of_itemsFit {category : Category} {holes : Bool} {items : List Field}
    (fit : ItemsFit file category holes items) : ∀ item ∈ items, item.IsItem := by
  intro item member
  rcases itemsFit_iff.1 fit item member with ⟨-, rfl⟩ | ⟨child, rfl, -⟩ <;> trivial

theorem Fits.isFlat (fits : Fits file slot field) (notData : slot ≠ .data) : field.IsFlat := by
  cases field with
  | data value =>
    cases slot with
    | text =>
      obtain ⟨spelling, rfl⟩ := fits
      trivial
    | word | flag | optional =>
      obtain rfl := fits
      trivial
    | data => exact absurd rfl notData
    | _ => cases fits
  | node child => trivial
  | list items =>
    cases slot with
    | many | sparse => exact isItem_of_itemsFit fits
    | several => exact isItem_of_itemsFit fits.2
    | _ => cases fits

theorem Fits.isNull_eq_false (fits : Fits file slot field)
    (listed : slot ∈ [Slot.one .expression, .many .expression, .sparse .expression]) :
    field.isNull = false := by
  cases field with
  | data value =>
    simp only [mem_cons, not_mem_nil, or_false] at listed
    rcases listed with rfl | rfl | rfl <;> cases fits
  | node child => rfl
  | list items => rfl

end Field

theorem Node.Fits.at? {root node : Node} {file : String} {category : Category} {address : Address}
    (fits : root.Fits file category) (found : root.at? address = some node) :
    ∃ inner, node.Fits file inner ∧ (address ≠ [] → inner ≠ .program) := by
  induction address generalizing node with
  | nil =>
    cases found
    exact ⟨category, fits, absurd rfl⟩
  | cons step address ih =>
    obtain ⟨parent, parentFound, childFound⟩ := Node.exists_at?_of_cons found
    obtain ⟨_, parentFits, _⟩ := ih parentFound
    obtain ⟨inner, notProgram, childFits⟩ := parentFits.child childFound
    exact ⟨inner, childFits, fun _ => notProgram⟩

theorem Literal.isPlain_number (chars : List Char) : (number chars).IsPlain := by
  have mapped {α : Type} (value? : Option α) (make : α → Data) (plain : ∀ value, (make value).IsPlain) :
      ((value?.map make).getD .null).IsPlain := by
    cases value? with
    | none => trivial
    | some value => exact plain value
  unfold number number?
  dsimp only
  split
  · exact mapped _ _ fun _ => trivial
  · exact mapped _ _ fun _ => trivial
  · split
    · trivial
    · exact mapped _ _ fun _ => trivial

theorem Token.IsPiece.fields_term {source : List Char} {token : Token} {file : String}
    (piece : token.IsPiece source) (isLiteral : (token.term file).kind = .literal) :
    (∀ field ∈ (token.term file).fields, field.IsFlat) ∧ (token.term file).IsSpelled := by
  obtain ⟨_, _, _, nonempty, _⟩ := piece
  have flat {value : Data} {regex : Field} (valuePlain : value.IsPlain) (regexFlat : regex.IsFlat) :
      ∀ field ∈ [.data value, Phrase.spelling token, regex], field.IsFlat := by
    simp only [forall_mem_cons, not_mem_nil, false_implies, implies_true, and_true]
    exact ⟨valuePlain, trivial, regexFlat⟩
  unfold Token.term at isLiteral ⊢
  dsimp only at isLiteral ⊢
  split
  case h_6 =>
    refine ⟨flat trivial trivial, .inr ⟨.ofChars token.text, ?_, rfl⟩⟩
    simpa [Text.isEmpty, Text.ofChars] using nonempty
  case h_4 => exact ⟨flat (Literal.isPlain_number _) trivial, .inl rfl⟩
  case h_7 => simp_all [Phrase.name, Node.kind]
  all_goals exact ⟨flat trivial trivial, .inl rfl⟩

namespace SourceFile

variable {file : SourceFile} {tolerant : Bool} {program : Node}

theorem allStand_of_parse (parsed : (file.parse tolerant).result = .ok program) :
    program.AllStand file.name file.text := by
  intro place member
  have descends : place.node ∈ program.descend := mem_map_of_mem member
  have inside : program.at? place.address = some place.node := mem_walk.1 member
  obtain ⟨category, fits, inner⟩ := (fits_parse parsed).at? inside
  obtain ⟨slots, isSignature, fit⟩ := fits.allFit
  have ofLiteral (isLiteral : place.node.kind = .literal) :
      (∀ field ∈ place.node.fields, field.IsFlat) ∧ place.node.IsSpelled := by
    obtain ⟨token, piece, nodeEq⟩ :=
      exists_token_of_parse parsed (mem_filter.2 ⟨descends, by rw [isLiteral]; rfl⟩)
    rw [nodeEq] at isLiteral ⊢
    exact piece.fields_term isLiteral
  refine ⟨?_, ?_, ?_, ?_, ?_, ?_⟩
  · rw [fit.length_eq, place.node.kind.length_signatures slots isSignature]
  · intro field isField
    by_cases isLiteral : place.node.kind = .literal
    · exact (ofLiteral isLiteral).1 field isField
    · obtain ⟨slot, isSlot, fieldFits⟩ := fit.exists_slot isField
      apply fieldFits.isFlat
      rintro rfl
      exact Kind.data_not_mem isLiteral slots isSignature isSlot
  · intro isProgram
    have top : place.address = [] := by
      by_contra below
      exact (Category.isInner_of_mem_kinds (inner below) _ fits.kind_mem).1 isProgram
    obtain ⟨_, _, _, rfl, _⟩ := exists_grown parsed
    rw [top] at inside
    rw [← Option.some.inj inside]
    rfl
  · intro isListed list final
    obtain ⟨slot, isSlot, fieldFits⟩ := fit.exists_slot (mem_of_getLast? final)
    exact fieldFits.isNull_eq_false (Kind.slots_of_listed isListed slots isSignature slot isSlot)
  · intro isLiteral
    exact (ofLiteral isLiteral).2
  · intro location located
    obtain ⟨_, _, ⟨first, firstIn, rfl⟩, ⟨last, lastIn, rfl⟩, locatedAt⟩ :=
      standIn_of_parse parsed place.node (by simpa using descends)
    rw [located] at locatedAt
    cases locatedAt
    exact ⟨first.offset, last.offset, by
      rw [firstIn.position_offset, lastIn.position_offset]; rfl⟩

end SourceFile

/-- Every tree that stands in a text is loaded from its dump as it was, however regular expressions are
divided.  The syntax trees of source files are such trees. -/
theorem Node.ofData_dump (split : Data → Data × Data) :
    (∀ (file source : String) (root : Node), root.AllStand file source →
      Node.ofData file (some source) (root.dump split) = .ok root) ∧
    ∀ (file : SourceFile) (tolerant : Bool) (program : Node),
      (file.parse tolerant).result = .ok program → program.AllStand file.name file.text ∧
          Node.ofData file.name (some file.text) (program.dump split) = .ok program := by
  have loads (file source : String) (root : Node) (stand : root.AllStand file source) :
      Node.ofData file (some source) (root.dump split) = .ok root := by
    have loaded := @Loaded.field_dump split _ _ ⟨[], root⟩ stand
    obtain ⟨kind, fields, location⟩ := root
    unfold ofData
    rw [Node.dump] at loaded ⊢
    simp only [Option.map_some, loaded]
    rfl
  refine ⟨loads, fun file tolerant program parsed => ?_⟩
  have stand := SourceFile.allStand_of_parse parsed
  exact ⟨stand, loads file.name file.text program stand⟩

theorem Node.ofData_dump_regex :
    ∃ program, ((⟨"", "[,/a/]"⟩ : SourceFile).parse false).result = .ok program ∧
      program.terms.map (fun term => term.fields.map Field.isNull) = [[true, false, false]] ∧
      program.AllStand "" "[,/a/]" ∧
      Node.ofData "" (some "[,/a/]") (program.dump fun spelling => (spelling, .null)) =
        .ok program := by
  have found : ((⟨"", "[,/a/]"⟩ : SourceFile).parse false).result.toOption.any (fun program =>
      program.terms.map (fun term => term.fields.map Field.isNull) = [[true, false, false]]) =
        true := by
    decide +kernel
  obtain ⟨program, parsed, _, terms⟩ := Node.exists_isParsed found
  exact ⟨program, parsed, terms, (Node.ofData_dump _).2 _ _ _ parsed⟩

end Namesake
