import Soql.Document.Json
import Soql.Document.Toon
import Soql.Report.Table

/-!
# Reports as documents

The form of a report that is meant for programs. A value that is absent is left out of its record.
-/

namespace Soql

open Document (optional)

def Location.document (l : Location) : Document :=
  .record [("file", .text l.file), ("line", .count l.line.toNat), ("column", .count l.column.toNat)]

def Ident.document (i : Ident) : Document :=
  .record [("class_name", .text i.className), ("key", .text i.key)]

def Diagnostic.document (d : Diagnostic) : Document :=
  .record
    ([("kind", .text d.kind.name), ("code", .text d.code), ("severity", .text d.severity.name),
        ("message", .text d.message), ("class_name", .text d.className)] ++
      optional "key" .text d.key ++
      optional "object_name" .text d.objectName ++
      optional "property_name" .text d.propertyName ++
      optional "field_name" .text d.fieldName ++
      optional "location" Location.document d.location)

def FieldPlan.document (f : FieldPlan) : Document :=
  .record
    ([("json_key", .text f.jsonKey), ("property_name", .text f.propertyName),
        ("type_name", .text f.typeName), ("is_collection", .flag f.isCollection)] ++
      optional "element_type" .text f.elementType ++
      [("is_value_type", .flag f.isValueType), ("is_nullable", .flag f.isNullable),
        ("type_handling", .text f.typeHandling.name), ("resolved", .flag f.resolved)] ++
      optional "nested" Ident.document f.nested)

def Plan.document (p : Plan) : Document :=
  .record
    [("object_name", .text p.objectName), ("class_name", .text p.className), ("key", .text p.key),
      ("key_required", .flag p.keyRequired), ("type_handling", .text p.typeHandling.name),
      ("fields", .list (p.fields.map (·.document)))]

def Compiled.document (c : Compiled) : Document :=
  .record
    ([("class_name", .text c.className), ("key", .text c.key), ("object_name", .text c.objectName)] ++
      match c.verdict with
      | .query text plan => [("status", .text "query"), ("text", .text text), ("plan", plan.document)]
      | .failed d => [("status", .text "failed"), ("diagnostic", d.document)])

def Summary.document (s : Summary) : Document :=
  .record [("errors", .count s.errors), ("warnings", .count s.warnings)]

def CheckReport.document (r : CheckReport) : Document :=
  .record
    [("manifest", .text r.manifest), ("objects", .count r.objects), ("fields", .count r.fields),
      ("summary", r.summary.document), ("diagnostics", .list (r.diagnostics.map (·.document)))]

def CompileReport.document (r : CompileReport) : Document :=
  .record
    [("manifest", .text r.manifest), ("summary", r.summary.document),
      ("diagnostics", .list (r.diagnostics.map (·.document))),
      ("compiled", .list (r.compiled.map (·.document)))]

inductive Format where
  | table
  | json
  | toon
deriving DecidableEq, Repr

def Format.ofName? : String → Option Format
  | "table" => some .table
  | "json" => some .json
  | "toon" => some .toon
  | _ => none

def CheckReport.write (r : CheckReport) : Format → String
  | .table => r.table
  | .json => r.document.json
  | .toon => r.document.toon

def CompileReport.write (r : CompileReport) : Format → String
  | .table => r.table
  | .json => r.document.json
  | .toon => r.document.toon

end Soql
