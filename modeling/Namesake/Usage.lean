import Namesake.Scope

/-!
An identifier names a variable, a property or a label, and the syntax around it decides which.
A string names a property where it stands in place of an identifier, as a key or as the index
of a member, and nothing elsewhere.
-/

namespace Namesake

inductive Role where
  | variable
  /-- A property of the object that an expression stands for. -/
  | property (base : Option Occurrence)
  | label

structure Usage where
  role : Role
  name : Name

def Occurrence.tokenName? (token : Occurrence) : Option Name :=
  match token.node with
  | .mk .identifier [value] _ => if value.isNull then none else some (.ofField token.address value)
  | .mk .literal (.data (.text spelling) :: _) _ => some (.text spelling)
  | _ => none

namespace Node

def usageIn? (root : Node) (parent : Occurrence) (step : Step) (kind : Kind) (name : Name) :
    Option Usage :=
  let outer := parent.node
  let fallback : Option Usage := if kind = .identifier then some ⟨.variable, name⟩ else none
  match outer.kind with
  | .memberExpression =>
    let computed := ((outer.field? "computed").map Field.isTruthy).getD false
    if outer.stepsTo "property" step && (!computed || kind = .literal) then
      let base := (outer.nodeAt? "object").map fun object =>
        (⟨outer.stepTo "object" :: parent.address, object⟩ : Occurrence)
      some ⟨.property base, name⟩
    else fallback
  | .property =>
    if outer.stepsTo "key" step then some ⟨.property (root.parent? parent.address), name⟩
    else fallback
  | .breakStatement => if outer.stepsTo "label" step then some ⟨.label, name⟩ else fallback
  | .continueStatement => if outer.stepsTo "label" step then some ⟨.label, name⟩ else fallback
  | .labeledStatement => if outer.stepsTo "label" step then some ⟨.label, name⟩ else fallback
  | _ => fallback

def usage? (root : Node) (token : Occurrence) : Except Fault (Option Usage) :=
  match token.tokenName? with
  | none => .ok none
  | some name =>
    match root.parent? token.address, token.address with
    | some parent, step :: _ => .ok (usageIn? root parent step token.node.kind name)
    | _, _ => .error (.withoutParent token.node.kind name.value)

end Node

end Namesake
