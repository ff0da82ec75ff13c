import Soql.Json.Record
import Soql.Manifest

/-!
# Reading manifests

A manifest is a record of three lists; every list may be left out, and so may all that has a usual
value: types are public and can be constructed, members can be written by everyone.
-/

namespace Soql

open Json (Fields Reader)

def TypeHandling.reader : Reader TypeHandling :=
  .choice (TypeHandling.all.map fun h => (h.name, h))

def Location.reader : Reader Location :=
  .record "LocationHint"
    (.required "file" .string <|
      .defaulted "line" .u32 0 <|
      .defaulted "column" .u32 0 .nil)
    fun (file, line, column, ()) => ⟨file, line, column⟩

def SetterKind.reader : Reader SetterKind := .choice (SetterKind.all.map fun s => (s.name, s))

def MemberEntry.reader : Reader MemberEntry :=
  .record "MemberDecl"
    (.required "name" .string <|
      .required "type_name" .string <|
      .defaulted "collection" .boolean false <|
      .defaulted "element_type" (.optional .string) none <|
      .defaulted "value_type" .boolean false <|
      .defaulted "nullable" .boolean false <|
      .defaulted "setter" SetterKind.reader .public <|
      .defaulted "location" (.optional Location.reader) none .nil)
    fun (name, typeName, isCollection, elementType, isValueType, isNullable, setter, location, ()) =>
      ⟨name, typeName, isCollection, elementType, isValueType, isNullable, setter, location⟩

def TypeEntry.reader : Reader TypeEntry :=
  .record "TypeDecl"
    (.required "class_name" .string <|
      .defaulted "public" .boolean true <|
      .defaulted "default_constructor" .boolean true <|
      .defaulted "location" (.optional Location.reader) none <|
      .defaulted "members" (.list MemberEntry.reader) [] .nil)
    fun (className, isPublic, hasDefaultConstructor, location, members, ()) =>
      ⟨className, isPublic, hasDefaultConstructor, location, members⟩

def ObjectEntry.reader : Reader ObjectEntry :=
  .record "ObjectEntry"
    (.required "object_name" .string <|
      .required "key" .string <|
      .required "class_name" .string <|
      .defaulted "type_handling" (.optional TypeHandling.reader) none .nil)
    fun (objectName, key, className, typeHandling, ()) => ⟨objectName, key, className, typeHandling⟩

def FieldEntry.reader : Reader FieldEntry :=
  .record "FieldEntry"
    (.required "field_name" .string <|
      .required "key" .string <|
      .required "property_name" .string <|
      .required "class_name" .string <|
      .defaulted "type_handling" (.optional TypeHandling.reader) none .nil)
    fun (fieldName, key, propertyName, className, typeHandling, ()) =>
      ⟨fieldName, key, propertyName, className, typeHandling⟩

namespace Manifest

def reader : Reader Manifest :=
  .record "Manifest"
    (.defaulted "types" (.list TypeEntry.reader) [] <|
      .defaulted "objects" (.list ObjectEntry.reader) [] <|
      .defaulted "fields" (.list FieldEntry.reader) [] .nil)
    fun (types, objects, fields, ()) => ⟨types, objects, fields⟩

def ofText (text : String) : Except Json.Fault Manifest := Json.document reader text.toList

end Manifest
end Soql
