import Namesake.Diagnostic
import Namesake.Derivation.Reader
import Namesake.Node.Derived
import Namesake.Node.Rendered

/-!
Whatever can go wrong is a `Fault`.  A fault that the user can act on has a `Complaint`; the
others say that a tree which was loaded from outside is not one that the analysis knows.
-/

namespace Namesake

namespace SyntaxError

def location : SyntaxError → Option Location
  | loopHead location => location
  | loopTarget location => location
  | assignmentTarget location => location
  | bareTry location => location
  | misshapen _ => none

def message : SyntaxError → String
  | loopHead _ => "Expected 'lhs in expression' or ';' in for statement"
  | loopTarget _ => "Invalid left-hand side in for-in"
  | assignmentTarget _ => "Invalid left-hand side in assignment"
  | bareTry _ => "Missing catch or finally after try"
  | misshapen _ => "unknown phrase"

end SyntaxError

/-- Where a kind of node, or a word in its place, was not known. -/
inductive Setting where
  | estree
  | root
  | statement
  | expression
  | propertyKind
  | logicalOperator
deriving DecidableEq

def Setting.render : Setting → String
  | estree => "ESTree node"
  | root => "root"
  | statement => "statement"
  | expression => "expression"
  | propertyKind => "property kind"
  | logicalOperator => "logical operator"

inductive Fault where
  | unexpected (file source : String) (found : Unexpected)
  | notAllowed (error : SyntaxError)
  | duplicateFile (file : String)
  | unlocated (type : String) (start : Data)
  | unsupported (setting : Setting) (name : String)
  | nameNotText (value : Field)
  | withoutParent (kind : Kind) (name : Field)
  | notLocal (name : Field)
  | rangeLength
  | emptySequence
  | badNumber
  | missingEntry (key : String)
  | malformed

namespace Fault

def sourceCode : String :=
  "E0001"

def complaint? : Fault → Option Complaint
  | unexpected file source found =>
    let place := found.position
    some (.source found.message (some (.between file place place)) (some sourceCode)
      (some source))
  | notAllowed error =>
    some (.source error.message error.location (some sourceCode) none)
  | duplicateFile file => some (.request s!"file '{file}' is already loaded" none)
  | unlocated type start =>
    some (.request ("ESTree " ++ type ++ " node at offset " ++ start.display ++
      " has no `loc`; pass the source text to compute lines and columns") none)
  | _ => none

def internalCode? : Fault → Option String
  | unsupported _ _ => some "E9001"
  | nameNotText _ => some "E9002"
  | withoutParent _ _ => some "E9999"
  | notLocal _ => some "E9999"
  | _ => none

def internalText : Fault → String
  | unsupported setting name => setting.render ++ " " ++ name ++ " not handled"
  | nameNotText value => "property name is not a string: " ++ value.render
  | withoutParent kind name =>
    "classify_id requires parent pointers (" ++ kind.name ++ " " ++ name.render ++ ")"
  | notLocal name => "'" ++ name.display ++ "' is not a local variable"
  | _ => ""

def message (fault : Fault) : String :=
  match fault.complaint?, fault.internalCode? with
  | some complaint, _ => complaint.message
  | none, some code => "[" ++ code ++ "] " ++ fault.internalText
  | none, none => fault.internalText

def code? (fault : Fault) : Option String :=
  match fault.complaint? with
  | some complaint => complaint.diagnostic.code
  | none => fault.internalCode?

def location? (fault : Fault) : Option Location :=
  fault.complaint?.bind fun complaint => complaint.diagnostic.location

end Fault

namespace Field

def isWord (field : Field) (word : String) : Bool :=
  match field with
  | .data value => value.same (.ofString word)
  | _ => false

def unknownWord (field : Field) (setting : Setting) : Fault :=
  .unsupported setting field.display

end Field

end Namesake
