import Soql.Resolver

/-!
# The schema

Objects with their fields, one per class and key. A field refers to another object by the class of
its type and the key of its owner, through a lookup in the schema.
-/

namespace Soql

/-- A type name without the question marks at its ends, which mark nullability. -/
def bareTypeName (s : String) : String :=
  String.ofList
    (((s.toList.dropWhile (· = '?')).reverse.dropWhile (· = '?')).reverse)

structure Field where
  name : String
  property : String
  /-- Absent when the member was lost after it had been accepted. -/
  type : Option MemberType
  typeHandling : TypeHandling
deriving DecidableEq, Repr

namespace Field

def isResolved (f : Field) : Bool := f.type.isSome

/-- A lost member counts as a nullable `object`. -/
def typeName (f : Field) : String := f.type.elim "object" (·.typeName)

def isCollection (f : Field) : Bool := f.type.elim false (·.isCollection)

/-- Only a collection has an element type. -/
def elementType (f : Field) : Option String :=
  f.type.bind fun t => if t.isCollection then t.elementType else none

def isValueType (f : Field) : Bool := f.type.elim false (·.isValueType)

def isNullable (f : Field) : Bool := f.type.elim true (·.isNullable)

/-- The class that the field refers to: its element type, else its type. -/
def targetClass (f : Field) : String := bareTypeName (f.elementType.getD f.typeName)

end Field

/-- A keyed view of a class, with its fields in the order of their declarations. -/
structure Object where
  name : String
  className : String
  key : String
  keyRequired : Bool
  typeHandling : TypeHandling
  fields : List Field
deriving DecidableEq, Repr

instance : Identified Object := ⟨fun o => ⟨o.className, o.key⟩⟩

theorem Object.ident_eq (o : Object) : ident o = ⟨o.className, o.key⟩ := rfl

def Object.ofDeclaration (o : ObjectDeclaration) (fields : List Field) : Object :=
  ⟨o.objectName, o.className, o.key, o.keyRequired, o.typeHandling, fields⟩

@[simp] theorem Object.ident_ofDeclaration (o : ObjectDeclaration) (fields : List Field) :
    ident (Object.ofDeclaration o fields) = ident o := rfl

abbrev Schema := Index Object

namespace Schema

def fieldCount (s : Schema) : Nat := (s.toList.flatMap (·.fields)).length

/-- The object that a field of an object with this key refers to. -/
def target? (s : Schema) (key : String) (f : Field) : Option Object := s.get? ⟨f.targetClass, key⟩

theorem mem_of_target? {s : Schema} {key : String} {f : Field} {t : Object}
    (h : s.target? key f = some t) : t ∈ s.toList := Index.mem_of_get? h

theorem key_of_target? {s : Schema} {key : String} {f : Field} {t : Object}
    (h : s.target? key f = some t) : t.key = key := congrArg Ident.key (Index.ident_of_get? h)

end Schema
end Soql
