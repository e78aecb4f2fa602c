import Namesake.Fault

/-!
A tree in the ESTree format is an object with a `type` and an entry for each attribute.  Its
nodes have offsets, as a `range` or as `start` and `end`; lines and columns are taken from
`loc` or, where that is missing, found in the source text.  An object without a `type` inside
the tree stays plain data.
-/

namespace Namesake

namespace Loaded

structure Origin where
  file : String
  lines : Option LineIndex

def entry (data : Data) (key : String) : Except Fault Data :=
  match data with
  | .object entries =>
    match entries.lookup key with
    | some value => .ok value
    | none => .error (.missingEntry key)
  | _ => .error .malformed

def rangeEnds (range : Data) : Except Fault (Data × Data) :=
  match range.items? with
  | some [start, stop] => .ok (start, stop)
  | some _ => .error .rangeLength
  | none => .error .malformed

def offsets (entries : List (String × Data)) : Except Fault (Option (Data × Data)) :=
  match entries.lookup "range", entries.lookup "start", entries.lookup "end" with
  | some range, _, _ => (rangeEnds range).map some
  | none, some start, some stop => .ok (some (start, stop))
  | _, _, _ => .ok none

def markIn (index : LineIndex) (offset : Data) : Except Fault Mark :=
  match index.mark? offset with
  | some mark => .ok mark
  | none => .error .malformed

def location (origin : Origin) (type : Data) (entries : List (String × Data)) :
    Except Fault (Option Location) := do
  match ← offsets entries with
  | none => return none
  | some (start, stop) =>
    let loc := (entries.lookup "loc").getD .null
    if loc.isTruthy then
      let first ← entry loc "start"
      let line ← entry first "line"
      let column ← entry first "column"
      let last ← entry loc "end"
      let endLine ← entry last "line"
      let endColumn ← entry last "column"
      return some ⟨origin.file, ⟨start, line, column⟩, ⟨stop, endLine, endColumn⟩⟩
    else
      match origin.lines with
      | none => throw (.unlocated type.display start)
      | some index =>
        return some ⟨origin.file, ← markIn index start, ← markIn index stop⟩

def kindOf (type : Data) : Except Fault Kind :=
  match type with
  | .text name =>
    match Kind.all.find? fun kind => Text.ofString kind.name = name with
    | some kind => .ok kind
    | none => .error (.unsupported .estree type.display)
  | .list _ => .error .malformed
  | .object _ => .error .malformed
  | _ => .error (.unsupported .estree type.display)

/-- The fields of a node: what its entries hold, and otherwise what the kind of node has there. -/
def fill : List Attribute → List (Option (Except Fault Field)) → Except Fault (List Field)
  | slot :: slots, converted :: others => do
      let field ← converted.getD (.ok (slot.fallback.getD (.data .null)))
      return field :: (← fill slots others)
  | _, _ => .ok []

/-- The spelling of a regular expression: its raw text or, where that is missing, its pattern and
flags between slashes. -/
def regexSpelling (entries : List (String × Data)) (regex : Data) : Except Fault Data := do
  let raw := (entries.lookup "raw").getD .null
  if raw.isTruthy then return raw
  else
    let pattern ← entry regex "pattern"
    let flags ← entry regex "flags"
    let slash := (Text.ofString "/").points
    return .text ⟨slash ++ pattern.toText.points ++ slash ++ flags.toText.points⟩

def listOrEmpty (field : Field) : Field :=
  if field.isNull then .list [] else field

def adjust (origin : Origin) (entries : List (String × Data))
    (handler : Option (Except Fault Field)) :
    Kind → List Field → Except Fault (List Field)
  | .tryStatement, [block, given, finalizer] => do
      if (entries.lookup "handler").isSome then return [block, given, finalizer]
      else return [block, ← handler.getD (.ok (.data .null)), finalizer]
  | .literal, [value, raw, regex] =>
    match entries.lookup "regex" with
    | none => .ok [value, raw, regex]
    | some found => do return [.data .null, raw, .data (← regexSpelling entries found)]
  | .program, [body, _] => .ok [body, .data (.ofString origin.file)]
  | .arrayExpression, [elements] => .ok [listOrEmpty elements]
  | .callExpression, [callee, arguments] => .ok [callee, listOrEmpty arguments]
  | .newExpression, [callee, arguments] => .ok [callee, listOrEmpty arguments]
  | _, fields => .ok fields

mutual

/-- A value as a field: an object with a type is a node, and lists are taken item by item. -/
def field (origin : Origin) : Data → Except Fault Field
  | .object entries =>
    match entries.lookup "type" with
    | none => .ok (.data (.object entries))
    | some type => do
        let kind ← kindOf type
        let fields ← fill kind.attributes
          (kind.attributes.map fun slot => fieldAt origin slot.name entries)
        let fields ← adjust origin entries (firstHandler origin entries) kind fields
        return .node (.mk kind fields (← location origin type entries))
  | .list items => do return .list (← fieldItems origin items)
  | value => .ok (.data value)

def fieldItems (origin : Origin) : List Data → Except Fault (List Field)
  | [] => .ok []
  | item :: rest => do
      let first ← field origin item
      return first :: (← fieldItems origin rest)

def fieldAt (origin : Origin) (key : String) :
    List (String × Data) → Option (Except Fault Field)
  | [] => none
  | (name, value) :: rest =>
    if name = key then some (field origin value) else fieldAt origin key rest

def firstHandler (origin : Origin) : List (String × Data) → Option (Except Fault Field)
  | [] => none
  | (name, value) :: rest =>
    if name = "handlers" then firstItem origin value else firstHandler origin rest

def firstItem (origin : Origin) : Data → Option (Except Fault Field)
  | .list [] => none
  | .list (item :: _) => some (field origin item)
  | .object (_ :: _) => some (.error (.missingEntry "0"))
  | .text ⟨point :: _⟩ => some (.ok (.data (.text ⟨[point]⟩)))
  | value => if value.isTruthy then some (.error .malformed) else none

end

end Loaded

def Node.ofData (file : String) (source : Option String) (data : Data) : Except Fault Node := do
  match data with
  | .object entries =>
    if (entries.lookup "type").isNone then throw (.unsupported .estree Data.null.display)
  | _ => throw .malformed
  match ← Loaded.field ⟨file, source.map LineIndex.ofSource⟩ data with
  | .node root => return root
  | _ => throw .malformed

end Namesake
