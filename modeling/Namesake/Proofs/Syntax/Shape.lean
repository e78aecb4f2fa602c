import Mathlib.Data.List.Basic
import Namesake.Node

/-!
`Node.Fits` says that a node and all nodes below it have the slots that `Kind.signatures` gives
to their kinds, and lie in one file.
-/

namespace Namesake

open List Field

inductive Category where
  | program
  | statement
  | block
  | variables
  | declarator
  | clause
  | handler
  | expression
  | function
  | identifier
  | key
  | property
  | target
deriving DecidableEq

def Category.kinds : Category → List Kind
  | program => [.program]
  | statement =>
    [ .emptyStatement, .blockStatement, .expressionStatement, .ifStatement, .labeledStatement,
      .breakStatement, .continueStatement, .withStatement, .switchStatement, .returnStatement,
      .throwStatement, .tryStatement, .whileStatement, .doWhileStatement, .forStatement,
      .forInStatement, .debuggerStatement, .functionDeclaration, .variableDeclaration ]
  | block => [.blockStatement]
  | «variables» => [.variableDeclaration]
  | declarator => [.variableDeclarator]
  | clause => [.switchCase]
  | handler => [.catchClause]
  | expression =>
    [ .thisExpression, .arrayExpression, .objectExpression, .functionExpression,
      .sequenceExpression, .unaryExpression, .binaryExpression, .assignmentExpression,
      .updateExpression, .logicalExpression, .conditionalExpression, .callExpression,
      .newExpression, .memberExpression, .identifier, .literal ]
  | function => [.functionExpression]
  | identifier => [.identifier]
  | key => [.identifier, .literal]
  | property => [.property]
  | target => [.identifier, .memberExpression]

inductive Slot where
  | text
  | word (spelling : String)
  | flag (value : Bool)
  | data
  | one (category : Category)
  | optional (category : Category)
  | many (category : Category)
  | several (category : Category)
  | sparse (category : Category)
deriving DecidableEq

def Slot.category? : Slot → Option Category
  | text | word _ | flag _ | data => none
  | one category | optional category | many category | several category | sparse category =>
    some category

open Slot in
/-- The slots of the fields of a kind, in each way that they may be filled together. -/
def Kind.signatures : Kind → List (List Slot)
  | program => [[many .statement, text]]
  | programCollection => []
  | emptyStatement => [[]]
  | blockStatement => [[many .statement]]
  | expressionStatement => [[one .expression]]
  | ifStatement => [[one .expression, one .statement, .optional .statement]]
  | labeledStatement => [[one .identifier, one .statement]]
  | breakStatement => [[.optional .identifier]]
  | continueStatement => [[.optional .identifier]]
  | withStatement => [[one .expression, one .statement]]
  | switchStatement => [[one .expression, many .clause]]
  | switchCase => [[.optional .expression, many .statement]]
  | returnStatement => [[.optional .expression]]
  | throwStatement => [[one .expression]]
  | tryStatement => [[one .block, .optional .handler, .optional .block]]
  | catchClause => [[one .identifier, one .block]]
  | whileStatement => [[one .expression, one .statement]]
  | doWhileStatement => [[one .statement, one .expression]]
  | forStatement =>
    [ [one .variables, .optional .expression, .optional .expression, one .statement],
      [.optional .expression, .optional .expression, .optional .expression, one .statement] ]
  | forInStatement =>
    [ [one .variables, one .expression, one .statement],
      [one .target, one .expression, one .statement] ]
  | debuggerStatement => [[]]
  | functionDeclaration => [[one .identifier, many .identifier, one .block]]
  | variableDeclaration => [[many .declarator, word "var"]]
  | variableDeclarator => [[one .identifier, .optional .expression]]
  | thisExpression => [[]]
  | arrayExpression => [[sparse .expression]]
  | objectExpression => [[many .property]]
  | property =>
    [ [one .key, one .expression, word "init"], [one .key, one .function, word "get"],
      [one .key, one .function, word "set"] ]
  | functionExpression => [[.optional .identifier, many .identifier, one .block]]
  | sequenceExpression => [[several .expression]]
  | unaryExpression => [[text, one .expression, flag true]]
  | binaryExpression => [[text, one .expression, one .expression]]
  | assignmentExpression => [[text, one .target, one .expression]]
  | updateExpression =>
    [[text, one .expression, flag true], [text, one .expression, flag false]]
  | logicalExpression =>
    [ [word "&&", one .expression, one .expression], [word "||", one .expression, one .expression] ]
  | conditionalExpression => [[one .expression, one .expression, one .expression]]
  | callExpression => [[one .expression, many .expression]]
  | newExpression => [[one .expression, many .expression]]
  | memberExpression =>
    [ [one .expression, one .identifier, flag false],
      [one .expression, one .expression, flag true] ]
  | identifier => [[text]]
  | literal => [[data, data, data]]

/-- Whether a node lies between two positions of a file. -/
def Located (file : String) (location : Option Location) : Prop :=
  ∃ first last, location = some (.between file first last)

mutual

/-- Whether a node may stand at a place, all nodes below it have their shape, and all of them lie in
one file. -/
def Node.Fits (file : String) (category : Category) : Node → Prop
  | .mk kind fields location =>
    kind ∈ category.kinds ∧ Located file location ∧
      ∃ slots ∈ kind.signatures, Field.AllFit file slots fields

def Field.AllFit (file : String) (slots : List Slot) : List Field → Prop
  | [] => slots = []
  | field :: rest =>
    match slots with
    | [] => False
    | slot :: slots => Field.Fits file slot field ∧ Field.AllFit file slots rest

def Field.Fits (file : String) (slot : Slot) : Field → Prop
  | .data value =>
    match slot with
    | .text => ∃ spelling, value = .text spelling
    | .word spelling => value = .ofString spelling
    | .flag truth => value = .bool truth
    | .data => True
    | .optional _ => value = .null
    | _ => False
  | .node child =>
    match slot with
    | .one category => Node.Fits file category child
    | .optional category => Node.Fits file category child
    | _ => False
  | .list items =>
    match slot with
    | .many category => Field.ItemsFit file category false items
    | .several category => items ≠ [] ∧ Field.ItemsFit file category false items
    | .sparse category => Field.ItemsFit file category true items
    | _ => False

def Field.ItemsFit (file : String) (category : Category) (holes : Bool) : List Field → Prop
  | [] => True
  | .data value :: rest =>
    (holes = true ∧ value = .null) ∧ Field.ItemsFit file category holes rest
  | .node child :: rest =>
    Node.Fits file category child ∧ Field.ItemsFit file category holes rest
  | .list _ :: _ => False

end

namespace Field

variable {file : String} {category : Category} {field : Field}
variable {fields : List Field}

attribute [local simp] Fits

theorem fits_text : Fits file .text field ↔ ∃ spelling, field = .data (.text spelling) := by
  cases field <;> simp

theorem fits_word {spelling : String} :
    Fits file (.word spelling) field ↔ field = .data (.ofString spelling) := by
  cases field <;> simp

theorem fits_flag {truth : Bool} :
    Fits file (.flag truth) field ↔ field = .data (.bool truth) := by
  cases field <;> simp

theorem fits_data : Fits file .data field ↔ ∃ value, field = .data value := by
  cases field <;> simp

theorem fits_one :
    Fits file (.one category) field ↔ ∃ child, field = .node child ∧ child.Fits file category := by
  cases field <;> simp

theorem fits_optional :
    Fits file (.optional category) field ↔
      field = .data .null ∨ ∃ child, field = .node child ∧ child.Fits file category := by
  cases field <;> simp

theorem Fits.optional (fits : Fits file (.one category) field) :
    Fits file (.optional category) field :=
  fits_optional.2 (.inr (fits_one.1 fits))

theorem itemsFit_iff {holes : Bool} {items : List Field} :
    ItemsFit file category holes items ↔ ∀ item ∈ items, (holes = true ∧ item = .data .null) ∨
        ∃ child, item = .node child ∧ child.Fits file category := by
  induction items with
  | nil => simp [ItemsFit]
  | cons item rest ih => cases item <;> simp [ItemsFit, ih]

theorem itemsFit_nodes {items : List Field} :
    ItemsFit file category false items ↔ ∃ children : List Node, items = children.map .node ∧
        ∀ child ∈ children, child.Fits file category := by
  induction items with
  | nil => simp [ItemsFit]
  | cons item rest ih =>
    constructor
    · intro fits
      cases item with
      | data value => simp [ItemsFit] at fits
      | list items => simp [ItemsFit] at fits
      | node child =>
        simp only [ItemsFit, ih] at fits
        obtain ⟨childFits, children, rfl, childrenFit⟩ := fits
        exact ⟨child :: children, rfl, by simpa using ⟨childFits, childrenFit⟩⟩
    · rintro ⟨children, itemsEq, childrenFit⟩
      cases children with
      | nil => simp at itemsEq
      | cons child children =>
        simp only [map_cons, List.cons.injEq] at itemsEq
        obtain ⟨rfl, rfl⟩ := itemsEq
        simp only [mem_cons, forall_eq_or_imp] at childrenFit
        exact ⟨childrenFit.1, ih.2 ⟨children, rfl, childrenFit.2⟩⟩

theorem fits_many :
    Fits file (.many category) field ↔ ∃ children : List Node, field = .list (children.map .node) ∧
        ∀ child ∈ children, child.Fits file category := by
  cases field <;> simp [itemsFit_nodes]

theorem fits_several :
    Fits file (.several category) field ↔
      ∃ children : List Node, children ≠ [] ∧ field = .list (children.map .node) ∧
        ∀ child ∈ children, child.Fits file category := by
  cases field with
  | data value => simp
  | node child => simp
  | list items =>
    simp only [Fits, itemsFit_nodes, Field.list.injEq]
    constructor
    · rintro ⟨nonempty, children, rfl, childrenFit⟩
      exact ⟨children, by simpa using nonempty, rfl, childrenFit⟩
    · rintro ⟨children, nonempty, rfl, childrenFit⟩
      exact ⟨by simpa using nonempty, children, rfl, childrenFit⟩

theorem fits_sparse :
    Fits file (.sparse category) field ↔
      ∃ items, field = .list items ∧ ∀ item ∈ items, item = .data .null ∨
        ∃ child, item = .node child ∧ child.Fits file category := by
  cases field <;> simp [itemsFit_iff]

@[simp]
theorem allFit_nil : AllFit file [] fields ↔ fields = [] := by
  cases fields <;> simp [AllFit]

@[simp]
theorem allFit_cons {slot : Slot} {slots : List Slot} :
    AllFit file (slot :: slots) fields ↔
      ∃ field rest, fields = field :: rest ∧ Fits file slot field ∧ AllFit file slots rest := by
  cases fields with
  | nil => simp [AllFit]
  | cons field rest =>
    simp only [AllFit, List.cons.injEq]
    constructor
    · rintro ⟨fieldFits, restFit⟩
      exact ⟨field, rest, ⟨rfl, rfl⟩, fieldFits, restFit⟩
    · rintro ⟨_, _, ⟨rfl, rfl⟩, fit⟩
      exact fit

theorem AllFit.one {slot : Slot} (fit : AllFit file [slot] fields) :
    ∃ field, fields = [field] ∧ Fits file slot field := by
  simpa only [allFit_cons, allFit_nil, exists_and_left, exists_eq_right_right] using fit

theorem AllFit.two {first second : Slot} (fit : AllFit file [first, second] fields) :
    ∃ one two, fields = [one, two] ∧ Fits file first one ∧ Fits file second two := by
  obtain ⟨one, rest, rfl, oneFits, restFit⟩ := allFit_cons.1 fit
  obtain ⟨two, rfl, twoFits⟩ := restFit.one
  exact ⟨one, two, rfl, oneFits, twoFits⟩

theorem AllFit.three {first second third : Slot} (fit : AllFit file [first, second, third] fields) :
    ∃ one two three, fields = [one, two, three] ∧
      Fits file first one ∧ Fits file second two ∧ Fits file third three := by
  obtain ⟨one, rest, rfl, oneFits, restFit⟩ := allFit_cons.1 fit
  obtain ⟨two, three, rfl, twoFits, threeFits⟩ := restFit.two
  exact ⟨one, two, three, rfl, oneFits, twoFits, threeFits⟩

theorem AllFit.getElem? {slots : List Slot} (fit : AllFit file slots fields) {index : Nat}
    (found : fields[index]? = some field) :
    ∃ slot, slots[index]? = some slot ∧ Fits file slot field := by
  induction fields generalizing slots index with
  | nil => simp at found
  | cons first rest ih =>
    cases slots with
    | nil => simp at fit
    | cons slot slots =>
      obtain ⟨firstFits, restFit⟩ := fit
      cases index with
      | zero =>
        simp only [List.getElem?_cons_zero, Option.some.injEq] at found
        exact ⟨slot, rfl, found ▸ firstFits⟩
      | succ index =>
        simp only [List.getElem?_cons_succ] at found
        exact ih restFit found

end Field

theorem Kind.category?_ne_program (kind : Kind) :
    ∀ slots ∈ kind.signatures, ∀ slot ∈ slots, slot.category? ≠ some .program := by
  cases kind <;> decide

theorem Category.isInner_of_mem_kinds {category : Category} (inner : category ≠ .program) :
    ∀ kind ∈ category.kinds, kind ≠ .program ∧ kind ≠ .programCollection := by
  cases category <;> first | decide | exact absurd rfl inner

namespace Node

variable {file : String} {category : Category} {node : Node}

theorem Fits.kind_mem (fits : node.Fits file category) : node.kind ∈ category.kinds := by
  obtain ⟨kind, fields, location⟩ := node
  exact fits.1

theorem Fits.located (fits : node.Fits file category) : Located file node.location := by
  obtain ⟨kind, fields, location⟩ := node
  exact fits.2.1

theorem Fits.allFit (fits : node.Fits file category) :
    ∃ slots ∈ node.kind.signatures, Field.AllFit file slots node.fields := by
  obtain ⟨kind, fields, location⟩ := node
  exact fits.2.2

theorem Fits.allFit_of (fits : node.Fits file category) {slots : List Slot}
    (only : node.kind.signatures = [slots]) : Field.AllFit file slots node.fields := by
  obtain ⟨others, member, fit⟩ := fits.allFit
  rw [only, mem_singleton] at member
  exact member ▸ fit

theorem Fits.mono {other : Category} (fits : node.Fits file category)
    (member : node.kind ∈ other.kinds) : node.Fits file other := by
  obtain ⟨kind, fields, location⟩ := node
  exact ⟨member, fits.2⟩

theorem Fits.childSlot (fits : node.Fits file category) {step : Step} {child : Node}
    (found : node.child? step = some child) :
    ∃ slots ∈ node.kind.signatures, ∃ slot inner, slots[step.field]? = some slot ∧
      slot.category? = some inner ∧ child.Fits file inner ∧
      Field.AllFit file slots node.fields := by
  obtain ⟨slots, member, fit⟩ := fits.allFit
  refine ⟨slots, member, ?_⟩
  unfold child? at found
  split at found
  · rename_i fieldEq itemEq
    obtain ⟨slot, slotFound, fieldFits⟩ := fit.getElem? fieldEq
    cases found
    cases slot with
    | one category | optional category => exact ⟨_, category, slotFound, rfl, fieldFits, fit⟩
    | _ => exact fieldFits.elim
  · rename_i items index fieldEq itemEq
    obtain ⟨slot, slotFound, fieldFits⟩ := fit.getElem? fieldEq
    obtain ⟨item, itemFound, itemNode⟩ := Option.bind_eq_some_iff.1 found
    have itemMember : item ∈ items := mem_of_getElem? itemFound
    have of_itemsFit {category : Category} {holes : Bool}
        (itemsFit : Field.ItemsFit file category holes items) : child.Fits file category := by
      rcases itemsFit_iff.1 itemsFit item itemMember with ⟨_, rfl⟩ | ⟨other, rfl, otherFits⟩
      · simp [Field.node?] at itemNode
      · simp only [Field.node?, Option.some.injEq] at itemNode
        exact itemNode ▸ otherFits
    cases slot with
    | many category | sparse category =>
      exact ⟨_, category, slotFound, rfl, of_itemsFit fieldFits, fit⟩
    | several category => exact ⟨_, category, slotFound, rfl, of_itemsFit fieldFits.2, fit⟩
    | _ => exact fieldFits.elim
  · cases found

theorem Fits.child (fits : node.Fits file category) {step : Step} {child : Node}
    (found : node.child? step = some child) :
    ∃ inner, inner ≠ Category.program ∧ child.Fits file inner := by
  obtain ⟨slots, member, slot, inner, slotFound, category?_eq, childFits, _⟩ := fits.childSlot found
  refine ⟨inner, ?_, childFits⟩
  rintro rfl
  exact node.kind.category?_ne_program slots member slot (mem_of_getElem? slotFound) category?_eq

theorem Fits.exists_fields (fits : node.Fits file category) {kind : Kind} (isKind : node.kind = kind)
    {slots : List Slot} (only : kind.signatures = [slots]) :
    ∃ fields location, node = .mk kind fields location ∧ AllFit file slots fields := by
  obtain ⟨own, fields, location⟩ := node
  obtain rfl : own = kind := isKind
  exact ⟨fields, location, rfl, fits.allFit_of only⟩

theorem Fits.identifier (fits : node.Fits file category) (isIdentifier : node.kind = .identifier) :
    ∃ spelling location, node = .mk .identifier [.data (.text spelling)] location := by
  obtain ⟨_, location, rfl, fit⟩ := fits.exists_fields isIdentifier rfl
  obtain ⟨_, rfl, nameFits⟩ := fit.one
  obtain ⟨spelling, rfl⟩ := fits_text.1 nameFits
  exact ⟨spelling, location, rfl⟩

theorem Fits.literal (fits : node.Fits file category) (isLiteral : node.kind = .literal) :
    ∃ value raw regex location,
      node = .mk .literal [.data value, .data raw, .data regex] location := by
  obtain ⟨_, location, rfl, fit⟩ := fits.exists_fields isLiteral rfl
  simp only [allFit_cons, allFit_nil, fits_data] at fit
  obtain ⟨_, _, rfl, ⟨value, rfl⟩, _, _, rfl, ⟨raw, rfl⟩, _, _, rfl, ⟨regex, rfl⟩, rfl⟩ := fit
  exact ⟨value, raw, regex, location, rfl⟩

theorem Fits.function (fits : node.Fits file category) {kind : Kind} (isKind : node.kind = kind)
    {slot : Slot} (only : kind.signatures = [[slot, .many .identifier, .one .block]]) :
    ∃ (id : Field) (parameters : List Node) (body : Node) (location : Option Location),
      node = .mk kind [id, .list (parameters.map .node), .node body] location ∧ id.Fits file slot ∧
      (∀ parameter ∈ parameters, parameter.Fits file .identifier) ∧ body.Fits file .block := by
  obtain ⟨_, location, rfl, fit⟩ := fits.exists_fields isKind only
  obtain ⟨id, _, _, rfl, idFits, second, third⟩ := fit.three
  obtain ⟨parameters, rfl, parametersFit⟩ := fits_many.1 second
  obtain ⟨body, rfl, bodyFits⟩ := fits_one.1 third
  exact ⟨id, parameters, body, location, rfl, idFits, parametersFit, bodyFits⟩

theorem Fits.functionDeclaration (fits : node.Fits file category)
    (isDeclaration : node.kind = .functionDeclaration) :
    ∃ (id : Node) (parameters : List Node) (body : Node) (location : Option Location),
      node = .mk .functionDeclaration
        [.node id, .list (parameters.map .node), .node body] location ∧
      id.Fits file .identifier ∧ (∀ parameter ∈ parameters, parameter.Fits file .identifier) ∧
      body.Fits file .block := by
  obtain ⟨_, parameters, body, location, rfl, first, fit⟩ := fits.function isDeclaration rfl
  obtain ⟨id, rfl, idFits⟩ := fits_one.1 first
  exact ⟨id, parameters, body, location, rfl, idFits, fit⟩

theorem Fits.nodes (fits : node.Fits file category) {kind : Kind} (isKind : node.kind = kind)
    {first second : Category} (only : kind.signatures = [[.one first, .one second]]) :
    ∃ (one two : Node) (location : Option Location),
      node = .mk kind [.node one, .node two] location ∧ one.Fits file first ∧
      two.Fits file second := by
  obtain ⟨_, location, rfl, fit⟩ := fits.exists_fields isKind only
  obtain ⟨_, _, rfl, left, right⟩ := fit.two
  obtain ⟨one, rfl, oneFits⟩ := fits_one.1 left
  obtain ⟨two, rfl, twoFits⟩ := fits_one.1 right
  exact ⟨one, two, location, rfl, oneFits, twoFits⟩

theorem Fits.variableDeclarator (fits : node.Fits file category)
    (isDeclarator : node.kind = .variableDeclarator) :
    ∃ (id : Node) (init : Field) (location : Option Location),
      node = .mk .variableDeclarator [.node id, init] location ∧
      id.Fits file .identifier ∧ init.Fits file (.optional .expression) := by
  obtain ⟨_, location, rfl, fit⟩ := fits.exists_fields isDeclarator rfl
  obtain ⟨_, init, rfl, first, initFits⟩ := fit.two
  obtain ⟨id, rfl, idFits⟩ := fits_one.1 first
  exact ⟨id, init, location, rfl, idFits, initFits⟩

theorem Fits.memberExpression (fits : node.Fits file category)
    (isMember : node.kind = .memberExpression) :
    ∃ (object key : Node) (computed : Bool) (location : Option Location),
      node = .mk .memberExpression [.node object, .node key, .data (.bool computed)] location ∧
      (computed = false → key.kind = .identifier) := by
  obtain ⟨kind, fields, location⟩ := node
  obtain rfl : kind = .memberExpression := isMember
  obtain ⟨slots, member, fit⟩ := fits.allFit
  rcases mem_pair.1 member with rfl | rfl
  all_goals
    simp only [Node.fields, allFit_cons, allFit_nil, fits_one, fits_flag] at fit
    obtain ⟨_, _, rfl, ⟨object, rfl, _⟩, _, _, rfl, ⟨key, rfl, keyFits⟩, _, _, rfl, rfl, rfl⟩ := fit
  · exact ⟨object, key, false, location, rfl, fun _ => mem_singleton.1 keyFits.kind_mem⟩
  · exact ⟨object, key, true, location, rfl, fun computed => by cases computed⟩

theorem Fits.property (fits : node.Fits file category) (isProperty : node.kind = .property) :
    ∃ (key value : Node) (kind : Field) (location : Option Location),
      node = .mk .property [.node key, .node value, kind] location ∧ key.Fits file .key := by
  obtain ⟨kind, fields, location⟩ := node
  obtain rfl : kind = .property := isProperty
  obtain ⟨slots, member, fit⟩ := fits.allFit
  simp only [Node.kind, Kind.signatures, mem_cons, not_mem_nil, or_false] at member
  rcases member with rfl | rfl | rfl
  all_goals
    simp only [Node.fields, allFit_cons, allFit_nil, fits_one] at fit
    obtain ⟨_, _, rfl, ⟨key, rfl, keyFits⟩, _, _, rfl, ⟨value, rfl, _⟩, kind, _, rfl, _, rfl⟩ := fit
    exact ⟨key, value, kind, location, rfl, keyFits⟩

theorem Fits.jump (fits : node.Fits file category)
    (isJump : node.kind = .breakStatement ∨ node.kind = .continueStatement) :
    ∃ (label : Field) (location : Option Location), node = .mk node.kind [label] location ∧
      label.Fits file (.optional .identifier) := by
  obtain ⟨kind, fields, location⟩ := node
  rcases isJump with isJump | isJump
  all_goals
    obtain rfl : kind = _ := isJump
    obtain ⟨label, rfl, labelFits⟩ := (fits.allFit_of rfl).one
    exact ⟨label, location, rfl, labelFits⟩

end Node

end Namesake
