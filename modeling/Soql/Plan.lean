import Soql.Schema

/-!
# Plans

What a reader of records needs to put a record back into its class: for each field the JSON key, the
member, its type, the conversion, and the object that the field refers to, if the schema has it.
-/

namespace Soql

structure FieldPlan where
  jsonKey : String
  propertyName : String
  typeName : String
  isCollection : Bool
  elementType : Option String
  isValueType : Bool
  isNullable : Bool
  typeHandling : TypeHandling
  resolved : Bool
  nested : Option Ident
deriving DecidableEq, Repr

structure Plan where
  objectName : String
  className : String
  key : String
  keyRequired : Bool
  typeHandling : TypeHandling
  fields : List FieldPlan
deriving DecidableEq, Repr

namespace Schema

def fieldPlan (s : Schema) (key : String) (f : Field) : FieldPlan :=
  ⟨f.name, f.property, f.typeName, f.isCollection, f.elementType, f.isValueType, f.isNullable,
    f.typeHandling, f.isResolved, (s.target? key f).map ident⟩

def plan (s : Schema) (o : Object) : Plan :=
  ⟨o.name, o.className, o.key, o.keyRequired, o.typeHandling, o.fields.map (s.fieldPlan o.key)⟩

end Schema
end Soql
