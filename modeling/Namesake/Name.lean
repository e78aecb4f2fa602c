import Namesake.Node.Rendered

/-!
The name of an identifier is a text, unless a tree that was loaded from outside has something
else there.  Names are told apart by their values.  A value that has nodes in it is the same
only as itself, so it comes with the identifier that holds it.
-/

namespace Namesake

namespace Field

mutual

def plain? : Field → Option Data
  | .data value => some value
  | .node _ => none
  | .list items => (plainItems? items).map .list

def plainItems? : List Field → Option (List Data)
  | [] => some []
  | item :: rest => do return (← item.plain?) :: (← plainItems? rest)

end

end Field

inductive Name where
  | text (spelling : Text)
  /-- Something other than a text, and the identifier that is called so. -/
  | other (value : Field) (holder : Address)

namespace Name

def ofField (holder : Address) : Field → Name
  | .data (.text spelling) => .text spelling
  | value => .other value holder

def ofData (value : Data) : Name :=
  ofField [] (.data value)

def value : Name → Field
  | .text spelling => .data (.text spelling)
  | .other value _ => value

def same : Name → Name → Bool
  | .text left, .text right => left = right
  | .other left holder, .other right holder' =>
    match left.plain?, right.plain? with
    | some left, some right => left.same right
    | _, _ => holder = holder'
  | _, _ => false

def isNaN : Name → Bool
  | .other (.data value) _ => value.isNaN
  | _ => false

/-- Whether two names are equal: the same, unless there is no number to compare. -/
def equals (left right : Name) : Bool :=
  left.same right && !left.isNaN

end Name

namespace Field

def nameValue? : Field → Option Field
  | .node (.mk .identifier [value] _) => some value
  | _ => none

end Field

namespace Occurrence

def name? (place : Occurrence) : Option Name :=
  (Field.node place.node).nameValue?.map (Name.ofField place.address)

def isNamed (place : Occurrence) (name : Name) : Bool :=
  match place.name? with
  | some own => own.equals name
  | none => false

end Occurrence

end Namesake
