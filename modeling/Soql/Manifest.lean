import Soql.Resolver

/-!
# Manifests

A manifest carries the declarations of a data model together with what is known about its types and
their members.
-/

namespace Soql

/-- The write accessor of a member as a manifest gives it. -/
inductive SetterKind where
  | «public»
  | internal
  | protectedInternal
  | «protected»
  | «private»
  | init
  | none
deriving DecidableEq, Repr

def SetterKind.name : SetterKind → String
  | .public => "public"
  | .internal => "internal"
  | .protectedInternal => "protected_internal"
  | .protected => "protected"
  | .private => "private"
  | .init => "init"
  | .none => "none"

def SetterKind.all : List SetterKind :=
  [.public, .internal, .protectedInternal, .protected, .private, .init, .none]

/-- An init accessor is public and for construction only. -/
def SetterKind.setter? : SetterKind → Option Setter
  | .public => some ⟨.public, false⟩
  | .internal => some ⟨.internal, false⟩
  | .protectedInternal => some ⟨.protectedInternal, false⟩
  | .protected => some ⟨.protected, false⟩
  | .private => some ⟨.private, false⟩
  | .init => some ⟨.public, true⟩
  | .none => Option.none

structure MemberEntry where
  name : String
  typeName : String
  isCollection : Bool
  elementType : Option String
  isValueType : Bool
  isNullable : Bool
  setter : SetterKind
  location : Option Location
deriving DecidableEq, Repr

structure TypeEntry where
  className : String
  isPublic : Bool
  hasDefaultConstructor : Bool
  location : Option Location
  members : List MemberEntry
deriving DecidableEq, Repr

structure ObjectEntry where
  objectName : String
  key : String
  className : String
  typeHandling : Option TypeHandling
deriving DecidableEq, Repr

structure FieldEntry where
  fieldName : String
  key : String
  propertyName : String
  className : String
  typeHandling : Option TypeHandling
deriving DecidableEq, Repr

structure Manifest where
  types : List TypeEntry
  objects : List ObjectEntry
  fields : List FieldEntry
deriving DecidableEq, Repr, Inhabited

namespace Manifest

def isKeyed (m : Manifest) (className : String) : Bool :=
  decide (1 < m.objects.countP (·.className = className))

/-- The object declarations, with the type handling of those that do not give one. -/
def objectDeclarations (m : Manifest) (handling : TypeHandling) : List ObjectDeclaration :=
  m.objects.map fun o =>
    ⟨o.objectName, o.key, m.isKeyed o.className, o.className, o.typeHandling.getD handling⟩

def fieldDeclarations (m : Manifest) : List FieldDeclaration :=
  m.fields.map fun f => ⟨f.fieldName, f.key, f.propertyName, f.className, f.typeHandling⟩

end Manifest
end Soql
