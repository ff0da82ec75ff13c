import Soql.Declaration

/-!
# Diagnostics

A report about one declaration: what is wrong with it, how bad that is, what it is about and where
it stands. Kinds are about an object or about a field, and each has a code of its own.
-/

namespace Soql

inductive Severity where
  | warning
  | error
deriving DecidableEq, Repr

namespace Severity

def name : Severity → String
  | .warning => "warning"
  | .error => "error"

/-- An error weighs more than a warning. -/
def weight : Severity → Nat
  | .warning => 0
  | .error => 1

instance : LT Severity := ⟨fun a b => a.weight < b.weight⟩

instance (a b : Severity) : Decidable (a < b) := inferInstanceAs (Decidable (a.weight < b.weight))

end Severity

inductive ObjectFault where
  /-- Its class has declared the key before. -/
  | duplicate
  /-- No field was accepted for it. -/
  | noFields
  /-- Expanding it meets its name again. -/
  | cyclic
  /-- Its class is not found or cannot be constructed without arguments. -/
  | noConstructor
deriving DecidableEq, Repr

inductive FieldFault where
  /-- No object of its class was accepted. -/
  | noObject
  /-- Objects of its class were accepted, none of them under its key. -/
  | unknownKey
  /-- Its object already has a field of the same property and name. -/
  | duplicate
  /-- Its member is not found or cannot be written. -/
  | notWritable
deriving DecidableEq, Repr

inductive DiagnosticKind where
  | object (fault : ObjectFault)
  | field (fault : FieldFault)
deriving DecidableEq, Repr

namespace DiagnosticKind

def all : List DiagnosticKind :=
  [.object .duplicate, .field .noObject, .field .unknownKey, .field .duplicate, .object .noFields,
    .object .cyclic, .object .noConstructor, .field .notWritable]

def name : DiagnosticKind → String
  | .object .duplicate => "DuplicateObject"
  | .object .noFields => "ObjectWithNoFields"
  | .object .cyclic => "CyclicDependency"
  | .object .noConstructor => "MissingParameterlessConstructor"
  | .field .noObject => "MissingObject"
  | .field .unknownKey => "InvalidFieldKey"
  | .field .duplicate => "DuplicateField"
  | .field .notWritable => "InvalidPropertyAccessor"

def code : DiagnosticKind → String
  | .object .duplicate => "SOQL001"
  | .field .noObject => "SOQL002"
  | .field .unknownKey => "SOQL003"
  | .field .duplicate => "SOQL004"
  | .object .noFields => "SOQL005"
  | .object .cyclic => "SOQL006"
  | .object .noConstructor => "SOQL007"
  | .field .notWritable => "SOQL008"

def title : DiagnosticKind → String
  | .object .duplicate => "Duplicate object definition"
  | .object .noFields => "Object with no fields"
  | .object .cyclic => "Cyclic dependency detected"
  | .object .noConstructor => "Missing parameterless constructor"
  | .field .noObject => "Missing object definition"
  | .field .unknownKey => "Invalid field key"
  | .field .duplicate => "Duplicate field definition"
  | .field .notWritable => "Invalid property accessor"

/-- An object without fields is dropped, which is no error. -/
def severity : DiagnosticKind → Severity
  | .object .noFields => .warning
  | _ => .error

end DiagnosticKind

structure Diagnostic where
  kind : DiagnosticKind
  message : String
  className : String
  key : Option String
  objectName : Option String
  propertyName : Option String
  fieldName : Option String
  location : Option Location
deriving DecidableEq, Repr

def ObjectFault.message (name : String) (i : Ident) : ObjectFault → String
  | .duplicate =>
    "Class '" ++ i.className ++ "' has multiple SoqlObject declarations with the same Key '" ++ i.key ++ "'"
  | .noFields =>
    "Class '" ++ i.className ++ "' with Key '" ++ i.key ++ "' has no associated SoqlField declarations"
  | .cyclic => "Cyclic dependency detected in object '" ++ name ++ "' with Key '" ++ i.key ++ "'"
  | .noConstructor =>
    "Class '" ++ i.className ++ "' must have a parameterless constructor to be used as a SoqlObject"

def FieldFault.message (f : FieldDeclaration) : FieldFault → String
  | .noObject => "No SoqlObject defined for key '" ++ f.key ++ "' in class '" ++ f.className ++ "'"
  | .unknownKey =>
    "Field key '" ++ f.key ++ "' in property '" ++ f.propertyName ++
      "' doesn't match any SoqlObject key in class '" ++ f.className ++ "'"
  | .duplicate =>
    "Property '" ++ f.propertyName ++ "' has multiple SoqlField declarations with the same FieldName '" ++
      f.fieldName ++ "' and Key '" ++ f.key ++ "'"
  | .notWritable =>
    "Property '" ++ f.propertyName ++ "' in class '" ++ f.className ++
      "' must have at least an init accessor or a non-private setter to be used as a SoqlField"

namespace Diagnostic

def ofObject (fault : ObjectFault) (name : String) (i : Ident) (location : Option Location) :
    Diagnostic :=
  ⟨.object fault, fault.message name i, i.className, some i.key, some name, none, none, location⟩

def ofField (fault : FieldFault) (f : FieldDeclaration) (location : Option Location) : Diagnostic :=
  ⟨.field fault, fault.message f, f.className, some f.key, none, some f.propertyName,
    some f.fieldName, location⟩

def code (d : Diagnostic) : String := d.kind.code

def severity (d : Diagnostic) : Severity := d.kind.severity

def isError (d : Diagnostic) : Bool := d.severity = .error

/-- One line for a reader: code, severity, message and, if known, the place. -/
def text (d : Diagnostic) : String :=
  d.code ++ " " ++ d.severity.name ++ ": " ++ d.message ++
    match d.location with
    | some l => " (at " ++ l.text ++ ")"
    | none => ""

end Diagnostic

structure Summary where
  errors : Nat
  warnings : Nat
deriving DecidableEq, Repr

namespace Summary

def ofList (ds : List Diagnostic) : Summary :=
  ⟨ds.countP (·.severity = .error), ds.countP (·.severity = .warning)⟩

/-- Errors fail a pass; warnings do so on request. -/
def isFailure (s : Summary) (warningsAsErrors : Bool) : Bool :=
  decide (0 < s.errors) || (warningsAsErrors && decide (0 < s.warnings))

end Summary
end Soql
