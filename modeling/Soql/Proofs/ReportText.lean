import Mathlib.Data.Option.Basic
import Soql.Proofs.DocumentText
import Soql.Proofs.JsonUnique
import Soql.Proofs.ManifestFormat
import Soql.Report.Document

/-!
# What the JSON text of a report says

A report is read back from the tree of its text, each record by the names of its fields: one value has
to stand under a name, and none may stand under that of a field that was left out. A verdict shares the
record of its root, so its fields must not have the name of one of the root's; its status tells which of
them to ask for. A document is read back (`Document.Tells`) if what stands under each name is; the rest
is that a text has one tree. Main statement: `write_json_tells`.
-/

namespace Soql

open Json (Value values)

variable {α : Type}

/-! ### What a value says -/

def Json.Value.count? : Value → Option Nat
  | .number ⟨false, whole, [], none⟩ => some (Json.digitsValue whole)
  | _ => none

/-- A field that is left out when it has no value. -/
def omittable (vs : List Value) (decode : Value → Option α) : Option (Option α) :=
  defaulted vs (fun v => (decode v).map some) none

def Ident.ofValue? (v : Value) : Option Ident := do
  let under ← v.members?
  let className ← required (under "class_name") Value.string?
  let key ← required (under "key") Value.string?
  return ⟨className, key⟩

def DiagnosticKind.ofValue? : Value → Option DiagnosticKind :=
  Value.choice? (DiagnosticKind.all.map fun k => (k.name, k))

/-- Code and severity have to be those of the kind. -/
def Diagnostic.ofValue? (v : Value) : Option Diagnostic := do
  let under ← v.members?
  let kind ← required (under "kind") DiagnosticKind.ofValue?
  let code ← required (under "code") Value.string?
  let severity ← required (under "severity") Value.string?
  guard (code = kind.code ∧ severity = kind.severity.name)
  let message ← required (under "message") Value.string?
  let className ← required (under "class_name") Value.string?
  let key ← omittable (under "key") Value.string?
  let objectName ← omittable (under "object_name") Value.string?
  let propertyName ← omittable (under "property_name") Value.string?
  let fieldName ← omittable (under "field_name") Value.string?
  let location ← omittable (under "location") Location.ofValue?
  return ⟨kind, message, className, key, objectName, propertyName, fieldName, location⟩

def FieldPlan.ofValue? (v : Value) : Option FieldPlan := do
  let under ← v.members?
  let jsonKey ← required (under "json_key") Value.string?
  let propertyName ← required (under "property_name") Value.string?
  let typeName ← required (under "type_name") Value.string?
  let isCollection ← required (under "is_collection") Value.boolean?
  let elementType ← omittable (under "element_type") Value.string?
  let isValueType ← required (under "is_value_type") Value.boolean?
  let isNullable ← required (under "is_nullable") Value.boolean?
  let typeHandling ← required (under "type_handling") TypeHandling.ofValue?
  let resolved ← required (under "resolved") Value.boolean?
  let nested ← omittable (under "nested") Ident.ofValue?
  return ⟨jsonKey, propertyName, typeName, isCollection, elementType, isValueType, isNullable,
    typeHandling, resolved, nested⟩

def Plan.ofValue? (v : Value) : Option Plan := do
  let under ← v.members?
  let objectName ← required (under "object_name") Value.string?
  let className ← required (under "class_name") Value.string?
  let key ← required (under "key") Value.string?
  let keyRequired ← required (under "key_required") Value.boolean?
  let typeHandling ← required (under "type_handling") TypeHandling.ofValue?
  let fields ← required (under "fields") (Value.list? FieldPlan.ofValue?)
  return ⟨objectName, className, key, keyRequired, typeHandling, fields⟩

/-- A verdict from the record of its root. -/
def Verdict.ofFields? (under : String → List Value) : Option Verdict := do
  match ← required (under "status") Value.string? with
  | "query" =>
    let text ← required (under "text") Value.string?
    let plan ← required (under "plan") Plan.ofValue?
    return .query text plan
  | "failed" => return .failed (← required (under "diagnostic") Diagnostic.ofValue?)
  | _ => none

def Compiled.ofValue? (v : Value) : Option Compiled := do
  let under ← v.members?
  let className ← required (under "class_name") Value.string?
  let key ← required (under "key") Value.string?
  let objectName ← required (under "object_name") Value.string?
  let verdict ← Verdict.ofFields? under
  return ⟨className, key, objectName, verdict⟩

def Summary.ofValue? (v : Value) : Option Summary := do
  let under ← v.members?
  let errors ← required (under "errors") Value.count?
  let warnings ← required (under "warnings") Value.count?
  return ⟨errors, warnings⟩

def CheckReport.ofValue? (v : Value) : Option CheckReport := do
  let under ← v.members?
  let manifest ← required (under "manifest") Value.string?
  let objects ← required (under "objects") Value.count?
  let fields ← required (under "fields") Value.count?
  let summary ← required (under "summary") Summary.ofValue?
  let diagnostics ← required (under "diagnostics") (Value.list? Diagnostic.ofValue?)
  return ⟨manifest, objects, fields, summary, diagnostics⟩

def CompileReport.ofValue? (v : Value) : Option CompileReport := do
  let under ← v.members?
  let manifest ← required (under "manifest") Value.string?
  let summary ← required (under "summary") Summary.ofValue?
  let diagnostics ← required (under "diagnostics") (Value.list? Diagnostic.ofValue?)
  let compiled ← required (under "compiled") (Value.list? Compiled.ofValue?)
  return ⟨manifest, summary, diagnostics, compiled⟩

/-! ### What a document tells -/

namespace Document

/-- Whatever the document is made of can be read back from its tree. -/
def Tells (document : α → Document) (decode : Value → Option α) : Prop :=
  ∀ a, decode (document a).tree = some a

variable {document : α → Document} {decode : Value → Option α}

theorem tells_text : Tells .text Value.string? := fun s => by simp [tree, Value.string?]

theorem tells_flag : Tells .flag Value.boolean? := fun b => by simp [tree, Value.boolean?]

theorem tells_count : Tells .count Value.count? := fun n => by
  simp [tree, Value.count?, digitsValue_toDigits]

theorem Tells.list (h : Tells document decode) :
    Tells (fun as => .list (as.map document)) (Value.list? decode) := by
  intro as
  rw [tree, Value.list?]
  induction as with
  | nil => rfl
  | cons a as ih =>
    rw [List.map_cons, trees, List.mapM_cons, h a, ih]
    rfl

/-! ### Fields by name -/

@[simp] theorem members?_tree_record (fields : List (String × Document)) :
    (Document.record fields).tree.members? = some (values (members fields)) := by
  have hall : (members fields).all (·.1.string?.isSome) = true := by
    induction fields with
    | nil => rfl
    | cons f fields ih =>
      obtain ⟨name, d⟩ := f
      simpa [members] using ih
  rw [tree, Value.members?, if_pos hall]

@[simp] theorem values_members_nil (name : String) : values (members []) name = [] := rfl

@[simp] theorem values_members_cons (n name : String) (d : Document) (fields : List (String × Document)) :
    values (members ((n, d) :: fields)) name =
      if n = name then d.tree :: values (members fields) name else values (members fields) name := by
  rw [members, values, List.filterMap_cons, string?_quotation]
  by_cases h : n = name
  · simp [h, values]
  · simp [h, values]

@[simp] theorem values_members_append (fields fields' : List (String × Document)) (name : String) :
    values (members (fields ++ fields')) name = values (members fields) name ++ values (members fields') name := by
  induction fields with
  | nil => rfl
  | cons f fields ih =>
    obtain ⟨n, d⟩ := f
    rw [List.cons_append, values_members_cons, values_members_cons, ih]
    split <;> rfl

@[simp] theorem values_members_optional (n name : String) (document : α → Document) (a : Option α) :
    values (members (optional n document a)) name =
      if n = name then (a.map fun a => (document a).tree).toList else [] := by
  cases a with
  | none => simp [optional]
  | some a => simp [optional]

theorem Tells.required (h : Tells document decode) (a : α) :
    Soql.required [(document a).tree] decode = some a := h a

theorem Tells.omittable (h : Tells document decode) (a : Option α) :
    Soql.omittable (a.map fun a => (document a).tree).toList decode = some a := by
  cases a with
  | none => rfl
  | some a =>
    show (decode (document a).tree).map some = _
    rw [h a, Option.map_some]

/-! ### Texts -/

/-- The text of a document that tells what it is made of has one tree, and that says it. -/
theorem Tells.exists_tree (h : Tells document decode) (a : α) :
    ∃ v : Value, (∀ w : Value, w.Written (document a).json ↔ w = v) ∧ decode v = some a := by
  refine ⟨(document a).tree, fun w => ⟨fun hw => hw.unique (written_json _), ?_⟩, h a⟩
  rintro rfl
  exact written_json _

theorem Tells.injective (h : Tells document decode) : Function.Injective fun a => (document a).json := by
  intro a b e
  obtain ⟨v, hv, ha⟩ := h.exists_tree a
  obtain ⟨w, hw, hb⟩ := h.exists_tree b
  have e : (document a).json = (document b).json := e
  obtain rfl : v = w := (hw v).1 (e ▸ (hv v).2 rfl)
  exact Option.some.inj (ha.symm.trans hb)

end Document

/-! ### Reports -/

open Document (Tells tells_count tells_flag tells_text)

theorem TypeHandling.tells_name : Tells (fun h : TypeHandling => .text h.name) TypeHandling.ofValue? := by
  intro h
  rw [Document.tree, TypeHandling.ofValue?, Value.choice?, Document.string?_quotation]
  cases h <;> rfl

theorem DiagnosticKind.tells_name : Tells (fun k : DiagnosticKind => .text k.name) DiagnosticKind.ofValue? := by
  intro k
  rw [Document.tree, DiagnosticKind.ofValue?, Value.choice?, Document.string?_quotation]
  rcases k with fault | fault <;> cases fault <;> rfl

theorem Location.tells_document : Tells Location.document Location.ofValue? := by
  have hcount : ∀ n : UInt32, (Document.count n.toNat).tree.u32? = some n := by
    intro n
    simp only [Document.tree, Value.u32?, Document.digitsValue_toDigits, UInt32.toNat_lt_size, UInt32.ofNat_toNat,
      if_true]
  intro l
  simp [Location.document, Location.ofValue?, required, defaulted, Json.field?, hcount, Document.tells_text _]

theorem Ident.tells_document : Tells Ident.document Ident.ofValue? := by
  intro i
  simp [Ident.document, Ident.ofValue?, tells_text.required]

theorem Diagnostic.tells_document : Tells Diagnostic.document Diagnostic.ofValue? := by
  intro d
  simp [Diagnostic.document, Diagnostic.ofValue?, tells_text.required, tells_text.omittable,
    DiagnosticKind.tells_name.required, Location.tells_document.omittable, Diagnostic.code, Diagnostic.severity]

theorem FieldPlan.tells_document : Tells FieldPlan.document FieldPlan.ofValue? := by
  intro f
  simp [FieldPlan.document, FieldPlan.ofValue?, tells_text.required, tells_text.omittable, tells_flag.required,
    TypeHandling.tells_name.required, Ident.tells_document.omittable]

theorem Plan.tells_document : Tells Plan.document Plan.ofValue? := by
  intro p
  simp [Plan.document, Plan.ofValue?, tells_text.required, tells_flag.required, TypeHandling.tells_name.required,
    FieldPlan.tells_document.list.required]

theorem Compiled.tells_document : Tells Compiled.document Compiled.ofValue? := by
  rintro ⟨className, key, objectName, ⟨text, plan⟩ | d⟩
  · simp [Compiled.document, Compiled.ofValue?, Verdict.ofFields?, tells_text.required,
      Plan.tells_document.required]
  · simp [Compiled.document, Compiled.ofValue?, Verdict.ofFields?, tells_text.required,
      Diagnostic.tells_document.required]

theorem Summary.tells_document : Tells Summary.document Summary.ofValue? := by
  intro s
  simp [Summary.document, Summary.ofValue?, tells_count.required]

theorem CheckReport.tells_document : Tells CheckReport.document CheckReport.ofValue? := by
  intro r
  simp [CheckReport.document, CheckReport.ofValue?, tells_text.required, tells_count.required,
    Summary.tells_document.required, Diagnostic.tells_document.list.required]

theorem CompileReport.tells_document : Tells CompileReport.document CompileReport.ofValue? := by
  intro r
  simp [CompileReport.document, CompileReport.ofValue?, tells_text.required, Summary.tells_document.required,
    Diagnostic.tells_document.list.required, Compiled.tells_document.list.required]

/-- The text of a report is JSON: it has one tree, and by the names of its fields that tree says the
whole report. So two reports with the same text are the same. -/
theorem write_json_tells :
    (∀ r : CheckReport, ∃ v : Value, (∀ w : Value, w.Written (r.write .json) ↔ w = v) ∧
      CheckReport.ofValue? v = some r) ∧
    (∀ r : CompileReport, ∃ v : Value, (∀ w : Value, w.Written (r.write .json) ↔ w = v) ∧
      CompileReport.ofValue? v = some r) ∧
    Function.Injective (fun r : CheckReport => r.write .json) ∧
    Function.Injective (fun r : CompileReport => r.write .json) :=
  ⟨CheckReport.tells_document.exists_tree, CompileReport.tells_document.exists_tree,
    CheckReport.tells_document.injective, CompileReport.tells_document.injective⟩

end Soql
