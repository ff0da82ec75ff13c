import Soql.Index

/-!
# Declarations

What a data model says about itself: which classes stand for which external objects, under which
keys, and which of their members stand for which external fields.
-/

namespace Soql

/-- How the values of a record are converted to the types of the members that receive them. -/
inductive TypeHandling where
  /-- A value must already have the JSON type of its member. -/
  | strict
  /-- A value is converted between JSON types where one fits the other. -/
  | coerce
deriving DecidableEq, Repr, Inhabited

def TypeHandling.name : TypeHandling → String
  | .strict => "strict"
  | .coerce => "coerce"

def TypeHandling.all : List TypeHandling := [.strict, .coerce]

/-- Where a declaration stands in the sources of the data model. -/
structure Location where
  file : String
  line : UInt32
  column : UInt32
deriving DecidableEq, Repr

def Location.text (l : Location) : String :=
  l.file ++ ":" ++ toString l.line.toNat ++ ":" ++ toString l.column.toNat

/-- A class stands for an external object, as seen under one key. -/
structure ObjectDeclaration where
  objectName : String
  key : String
  /-- The class declares more than one view, so the key has to be given. -/
  keyRequired : Bool
  className : String
  typeHandling : TypeHandling
deriving DecidableEq, Repr

/-- A member of a class stands for an external field, in the view of one key. -/
structure FieldDeclaration where
  fieldName : String
  key : String
  propertyName : String
  className : String
  /-- Replaces the type handling of the object that owns the field. -/
  typeHandling : Option TypeHandling
deriving DecidableEq, Repr

instance : Identified ObjectDeclaration := ⟨fun o => ⟨o.className, o.key⟩⟩

instance : Identified FieldDeclaration := ⟨fun f => ⟨f.className, f.key⟩⟩

theorem ObjectDeclaration.ident_eq (o : ObjectDeclaration) : ident o = ⟨o.className, o.key⟩ := rfl

theorem FieldDeclaration.ident_eq (f : FieldDeclaration) : ident f = ⟨f.className, f.key⟩ := rfl

inductive Declaration where
  | object (o : ObjectDeclaration)
  | field (f : FieldDeclaration)
deriving DecidableEq, Repr

end Soql
