import Mathlib.Data.List.Forall2
import Soql.Manifest.Reader
import Soql.Proofs.DocumentText
import Soql.Proofs.JsonRecords
import Soql.Settings

/-!
# The manifest format

What the syntax tree of a JSON text says of a manifest: each record by the names of its fields, with
the declared defaults, lists in their order. A text is read as what its tree says, and not read when
the tree says nothing (`ofText_eq_ok_iff`).
-/

namespace Soql

open Json (Reader Value field?)

variable {α : Type}

/-! ### What a value says -/

/-- A field that has to be there. -/
def required (vs : List Value) (decode : Value → Option α) : Option α := field? vs decode none

def defaulted (vs : List Value) (decode : Value → Option α) (default : α) : Option α :=
  field? vs decode (some default)

def TypeHandling.ofValue? : Value → Option TypeHandling :=
  Value.choice? (TypeHandling.all.map fun h => (h.name, h))

def SetterKind.ofValue? : Value → Option SetterKind :=
  Value.choice? (SetterKind.all.map fun s => (s.name, s))

def Location.ofValue? (v : Value) : Option Location := do
  let under ← v.members?
  let file ← required (under "file") Value.string?
  let line ← defaulted (under "line") Value.u32? 0
  let column ← defaulted (under "column") Value.u32? 0
  return ⟨file, line, column⟩

def MemberEntry.ofValue? (v : Value) : Option MemberEntry := do
  let under ← v.members?
  let name ← required (under "name") Value.string?
  let typeName ← required (under "type_name") Value.string?
  let isCollection ← defaulted (under "collection") Value.boolean? false
  let elementType ← defaulted (under "element_type") (Value.optional? Value.string?) none
  let isValueType ← defaulted (under "value_type") Value.boolean? false
  let isNullable ← defaulted (under "nullable") Value.boolean? false
  let setter ← defaulted (under "setter") SetterKind.ofValue? .public
  let location ← defaulted (under "location") (Value.optional? Location.ofValue?) none
  return ⟨name, typeName, isCollection, elementType, isValueType, isNullable, setter, location⟩

def TypeEntry.ofValue? (v : Value) : Option TypeEntry := do
  let under ← v.members?
  let className ← required (under "class_name") Value.string?
  let isPublic ← defaulted (under "public") Value.boolean? true
  let hasDefaultConstructor ← defaulted (under "default_constructor") Value.boolean? true
  let location ← defaulted (under "location") (Value.optional? Location.ofValue?) none
  let members ← defaulted (under "members") (Value.list? MemberEntry.ofValue?) []
  return ⟨className, isPublic, hasDefaultConstructor, location, members⟩

def ObjectEntry.ofValue? (v : Value) : Option ObjectEntry := do
  let under ← v.members?
  let objectName ← required (under "object_name") Value.string?
  let key ← required (under "key") Value.string?
  let className ← required (under "class_name") Value.string?
  let typeHandling ← defaulted (under "type_handling") (Value.optional? TypeHandling.ofValue?) none
  return ⟨objectName, key, className, typeHandling⟩

def FieldEntry.ofValue? (v : Value) : Option FieldEntry := do
  let under ← v.members?
  let fieldName ← required (under "field_name") Value.string?
  let key ← required (under "key") Value.string?
  let propertyName ← required (under "property_name") Value.string?
  let className ← required (under "class_name") Value.string?
  let typeHandling ← defaulted (under "type_handling") (Value.optional? TypeHandling.ofValue?) none
  return ⟨fieldName, key, propertyName, className, typeHandling⟩

def Manifest.ofValue? (v : Value) : Option Manifest := do
  let under ← v.members?
  let types ← defaulted (under "types") (Value.list? TypeEntry.ofValue?) []
  let objects ← defaulted (under "objects") (Value.list? ObjectEntry.ofValue?) []
  let fields ← defaulted (under "fields") (Value.list? FieldEntry.ofValue?) []
  return ⟨types, objects, fields⟩

/-! ### Where records stand -/

/-- No list stands for a record anywhere in a member. -/
structure MemberEntry.Shaped (v : Value) : Prop where
  notList : v.NotList
  locations : ∀ l ∈ v.under "location", l.NotList

structure TypeEntry.Shaped (v : Value) : Prop where
  notList : v.NotList
  locations : ∀ l ∈ v.under "location", l.NotList
  members : ∀ l ∈ v.under "members", ∀ e ∈ l.items, MemberEntry.Shaped e

structure Manifest.Shaped (v : Value) : Prop where
  notList : v.NotList
  types : ∀ l ∈ v.under "types", ∀ e ∈ l.items, TypeEntry.Shaped e
  objects : ∀ l ∈ v.under "objects", ∀ e ∈ l.items, e.NotList
  fields : ∀ l ∈ v.under "fields", ∀ e ∈ l.items, e.NotList

instance (v : Value) : Decidable v.NotList :=
  match v with
  | .list vs => .isFalse fun h => h vs rfl
  | .null | .boolean _ | .number _ | .string _ | .object _ => .isTrue nofun

instance (v : Value) : Decidable (MemberEntry.Shaped v) :=
  decidable_of_iff (v.NotList ∧ ∀ l ∈ v.under "location", l.NotList)
    ⟨fun ⟨h, hl⟩ => ⟨h, hl⟩, fun h => ⟨h.notList, h.locations⟩⟩

instance (v : Value) : Decidable (TypeEntry.Shaped v) :=
  decidable_of_iff (v.NotList ∧ (∀ l ∈ v.under "location", l.NotList) ∧
      ∀ l ∈ v.under "members", ∀ e ∈ l.items, MemberEntry.Shaped e)
    ⟨fun ⟨h, hl, hm⟩ => ⟨h, hl, hm⟩, fun h => ⟨h.notList, h.locations, h.members⟩⟩

instance (v : Value) : Decidable (Manifest.Shaped v) :=
  decidable_of_iff (v.NotList ∧ (∀ l ∈ v.under "types", ∀ e ∈ l.items, TypeEntry.Shaped e) ∧
      (∀ l ∈ v.under "objects", ∀ e ∈ l.items, e.NotList) ∧
      ∀ l ∈ v.under "fields", ∀ e ∈ l.items, e.NotList)
    ⟨fun ⟨h, ht, ho, hf⟩ => ⟨h, ht, ho, hf⟩, fun h => ⟨h.notList, h.types, h.objects, h.fields⟩⟩

/-! ### Values that say the same

Of an object only counts what stands under the names of the fields, in any order, and whether all its
keys mean something. Strings count by their meaning. -/

namespace Json.Value

/-- Values that stand in the relation say the same. -/
def Determines (R : Value → Value → Prop) (decode : Value → Option α) : Prop :=
  ∀ ⦃v v'⦄, R v v' → decode v = decode v'

def SameBy (decode : Value → Option α) (v v' : Value) : Prop := decode v = decode v'

def SameOrNull (R : Value → Value → Prop) (v v' : Value) : Prop := (v = .null ↔ v' = .null) ∧ R v v'

def SameItems (R : Value → Value → Prop) (v v' : Value) : Prop :=
  (v.NotList ↔ v'.NotList) ∧ List.Forall₂ R v.items v'.items

/-- The same stands under the name, in any order. -/
def SameUnder (v : Value) (R : Value → Value → Prop) (v' : Value) (name : String) : Prop :=
  ∃ vs, (v.under name).Perm vs ∧ List.Forall₂ R vs (v'.under name)

variable {R : Value → Value → Prop} {decode : Value → Option α} {v v' : Value} {name : String}

theorem determines_sameBy (decode : Value → Option α) : Determines (SameBy decode) decode := fun _ _ => id

theorem Determines.orNull (hR : Determines R decode) : Determines (SameOrNull R) (optional? decode) := by
  rintro v v' ⟨hnull, h⟩
  by_cases hv : v = .null
  · rw [hv, hnull.1 hv]
  · have hsome : ∀ w : Value, w ≠ .null → optional? decode w = (decode w).map some := by
      rintro ⟨⟩ hw <;> first | rfl | exact absurd rfl hw
    rw [hsome v hv, hsome v' fun e => hv (hnull.2 e), hR h]

theorem Determines.mapM_eq (hR : Determines R decode) {vs vs' : List Value} (h : List.Forall₂ R vs vs') :
    vs.mapM decode = vs'.mapM decode := by
  induction h with
  | nil => rfl
  | cons h _ ih => rw [List.mapM_cons, List.mapM_cons, hR h, ih]

theorem Determines.items (hR : Determines R decode) : Determines (SameItems R) (list? decode) := by
  rintro v v' ⟨hlist, h⟩
  have hitems : ∀ w : Value, ¬w.NotList → list? decode w = w.items.mapM decode := by
    rintro ⟨⟩ hw <;> first | rfl | exact absurd (fun _ => nofun) hw
  have hnone : ∀ w : Value, w.NotList → list? decode w = none := by
    rintro ⟨⟩ hw <;> first | rfl | exact absurd rfl (hw _)
  by_cases hv : v.NotList
  · rw [hnone v hv, hnone v' (hlist.1 hv)]
  · rw [hitems v hv, hitems v' fun e => hv (hlist.2 e), hR.mapM_eq h]

theorem field?_eq_of_perm {vs vs' : List Value} (h : vs.Perm vs') (decode : Value → Option α)
    (default : Option α) : field? vs decode default = field? vs' decode default := by
  match vs with
  | [] => rw [List.nil_perm.1 h]
  | [v] => rw [List.singleton_perm.1 h]
  | _ :: _ :: _ =>
    match vs', h.length_eq with
    | _ :: _ :: _, _ => rfl

theorem Determines.field?_eq (hR : Determines R decode) {vs vs' : List Value} (h : List.Forall₂ R vs vs')
    (default : Option α) : field? vs decode default = field? vs' decode default := by
  match h with
  | .nil => rfl
  | .cons h .nil => exact hR h
  | .cons _ (.cons _ _) => rfl

theorem SameUnder.field?_eq (h : v.SameUnder R v' name) (hR : Determines R decode) (default : Option α) :
    field? (v.under name) decode default = field? (v'.under name) decode default := by
  obtain ⟨vs, hp, hf⟩ := h
  rw [field?_eq_of_perm hp, hR.field?_eq hf]

theorem members?_eq (v : Value) : v.members? = if v.members?.isSome then some v.under else none := by
  cases v with
  | object ms =>
    rw [members?]
    cases ms.all fun m => m.1.string?.isSome <;> rfl
  | _ => rfl

theorem bind_members?_eq (h : v.members?.isSome = v'.members?.isSome) {f : (String → List Value) → Option α}
    (hf : f v.under = f v'.under) : v.members?.bind f = v'.members?.bind f := by
  rw [members?_eq v, members?_eq v', h]
  split
  · exact hf
  · rfl

end Json.Value

open Json.Value (Determines SameBy SameItems SameOrNull determines_sameBy)

structure Location.Same (v v' : Value) : Prop where
  legible : v.members?.isSome = v'.members?.isSome
  file : v.SameUnder (SameBy Value.string?) v' "file"
  line : v.SameUnder (SameBy Value.u32?) v' "line"
  column : v.SameUnder (SameBy Value.u32?) v' "column"

theorem Location.determines_same : Determines Location.Same Location.ofValue? := by
  intro v v' h
  refine Value.bind_members?_eq h.legible ?_
  simp only [required, defaulted,
    h.file.field?_eq (determines_sameBy _),
    h.line.field?_eq (determines_sameBy _),
    h.column.field?_eq (determines_sameBy _)]

structure MemberEntry.Same (v v' : Value) : Prop where
  legible : v.members?.isSome = v'.members?.isSome
  name : v.SameUnder (SameBy Value.string?) v' "name"
  typeName : v.SameUnder (SameBy Value.string?) v' "type_name"
  isCollection : v.SameUnder (SameBy Value.boolean?) v' "collection"
  elementType : v.SameUnder (SameOrNull (SameBy Value.string?)) v' "element_type"
  isValueType : v.SameUnder (SameBy Value.boolean?) v' "value_type"
  isNullable : v.SameUnder (SameBy Value.boolean?) v' "nullable"
  setter : v.SameUnder (SameBy SetterKind.ofValue?) v' "setter"
  location : v.SameUnder (SameOrNull Location.Same) v' "location"

theorem MemberEntry.determines_same : Determines MemberEntry.Same MemberEntry.ofValue? := by
  intro v v' h
  refine Value.bind_members?_eq h.legible ?_
  simp only [required, defaulted,
    h.name.field?_eq (determines_sameBy _),
    h.typeName.field?_eq (determines_sameBy _),
    h.isCollection.field?_eq (determines_sameBy _),
    h.elementType.field?_eq ((determines_sameBy _).orNull),
    h.isValueType.field?_eq (determines_sameBy _),
    h.isNullable.field?_eq (determines_sameBy _),
    h.setter.field?_eq (determines_sameBy _),
    h.location.field?_eq Location.determines_same.orNull]

structure TypeEntry.Same (v v' : Value) : Prop where
  legible : v.members?.isSome = v'.members?.isSome
  className : v.SameUnder (SameBy Value.string?) v' "class_name"
  isPublic : v.SameUnder (SameBy Value.boolean?) v' "public"
  hasDefaultConstructor : v.SameUnder (SameBy Value.boolean?) v' "default_constructor"
  location : v.SameUnder (SameOrNull Location.Same) v' "location"
  members : v.SameUnder (SameItems MemberEntry.Same) v' "members"

theorem TypeEntry.determines_same : Determines TypeEntry.Same TypeEntry.ofValue? := by
  intro v v' h
  refine Value.bind_members?_eq h.legible ?_
  simp only [required, defaulted,
    h.className.field?_eq (determines_sameBy _),
    h.isPublic.field?_eq (determines_sameBy _),
    h.hasDefaultConstructor.field?_eq (determines_sameBy _),
    h.location.field?_eq Location.determines_same.orNull,
    h.members.field?_eq MemberEntry.determines_same.items]

structure ObjectEntry.Same (v v' : Value) : Prop where
  legible : v.members?.isSome = v'.members?.isSome
  objectName : v.SameUnder (SameBy Value.string?) v' "object_name"
  key : v.SameUnder (SameBy Value.string?) v' "key"
  className : v.SameUnder (SameBy Value.string?) v' "class_name"
  typeHandling : v.SameUnder (SameOrNull (SameBy TypeHandling.ofValue?)) v' "type_handling"

theorem ObjectEntry.determines_same : Determines ObjectEntry.Same ObjectEntry.ofValue? := by
  intro v v' h
  refine Value.bind_members?_eq h.legible ?_
  simp only [required, defaulted,
    h.objectName.field?_eq (determines_sameBy _),
    h.key.field?_eq (determines_sameBy _),
    h.className.field?_eq (determines_sameBy _),
    h.typeHandling.field?_eq ((determines_sameBy _).orNull)]

structure FieldEntry.Same (v v' : Value) : Prop where
  legible : v.members?.isSome = v'.members?.isSome
  fieldName : v.SameUnder (SameBy Value.string?) v' "field_name"
  key : v.SameUnder (SameBy Value.string?) v' "key"
  propertyName : v.SameUnder (SameBy Value.string?) v' "property_name"
  className : v.SameUnder (SameBy Value.string?) v' "class_name"
  typeHandling : v.SameUnder (SameOrNull (SameBy TypeHandling.ofValue?)) v' "type_handling"

theorem FieldEntry.determines_same : Determines FieldEntry.Same FieldEntry.ofValue? := by
  intro v v' h
  refine Value.bind_members?_eq h.legible ?_
  simp only [required, defaulted,
    h.fieldName.field?_eq (determines_sameBy _),
    h.key.field?_eq (determines_sameBy _),
    h.propertyName.field?_eq (determines_sameBy _),
    h.className.field?_eq (determines_sameBy _),
    h.typeHandling.field?_eq ((determines_sameBy _).orNull)]

structure Manifest.Same (v v' : Value) : Prop where
  legible : v.members?.isSome = v'.members?.isSome
  types : v.SameUnder (SameItems TypeEntry.Same) v' "types"
  objects : v.SameUnder (SameItems ObjectEntry.Same) v' "objects"
  fields : v.SameUnder (SameItems FieldEntry.Same) v' "fields"

theorem Manifest.determines_same : Determines Manifest.Same Manifest.ofValue? := by
  intro v v' h
  refine Value.bind_members?_eq h.legible ?_
  simp only [defaulted,
    h.types.field?_eq TypeEntry.determines_same.items,
    h.objects.field?_eq ObjectEntry.determines_same.items,
    h.fields.field?_eq FieldEntry.determines_same.items]

/-! ### Reading -/

open Json.Reader

theorem TypeHandling.reads_reader : TypeHandling.reader.Reads (fun _ => True) TypeHandling.ofValue? :=
  reads_choice _

theorem SetterKind.reads_reader : SetterKind.reader.Reads (fun _ => True) SetterKind.ofValue? :=
  reads_choice _

theorem Location.reads_reader : Location.reader.Reads Value.NotList Location.ofValue? := by
  have hfit :=
    Json.Fields.Fit.scalar "file" none reads_string <|
      .scalar "line" (some 0) reads_u32 <|
      .scalar "column" (some 0) reads_u32 .nil
  intro v s s₁ r hv
  refine Reads.record hfit (by decide) _ _ (fun look => ?_) ⟨hv, trivial⟩
  simp only [Json.Columns.map_record?_cons, Json.Columns.map_record?_nil]
  rfl

theorem MemberEntry.reads_reader : MemberEntry.reader.Reads MemberEntry.Shaped MemberEntry.ofValue? := by
  have hfit :=
    Json.Fields.Fit.scalar "name" none reads_string <|
      .scalar "type_name" none reads_string <|
      .scalar "collection" (some false) reads_boolean <|
      .scalar "element_type" (some none) reads_string.optional <|
      .scalar "value_type" (some false) reads_boolean <|
      .scalar "nullable" (some false) reads_boolean <|
      .scalar "setter" (some .public) SetterKind.reads_reader <|
      .shaped "location" (some none) Location.reads_reader.optional .nil
  intro v s s₁ r hv
  refine Reads.record hfit (by decide) _ _ (fun look => ?_) ⟨hv.notList, hv.locations, trivial⟩
  simp only [Json.Columns.map_record?_cons, Json.Columns.map_record?_nil]
  rfl

theorem TypeEntry.reads_reader : TypeEntry.reader.Reads TypeEntry.Shaped TypeEntry.ofValue? := by
  have hfit :=
    Json.Fields.Fit.scalar "class_name" none reads_string <|
      .scalar "public" (some true) reads_boolean <|
      .scalar "default_constructor" (some true) reads_boolean <|
      .shaped "location" (some none) Location.reads_reader.optional <|
      .shaped "members" (some []) MemberEntry.reads_reader.list .nil
  intro v s s₁ r hv
  refine Reads.record hfit (by decide) _ _ (fun look => ?_) ⟨hv.notList, hv.locations, hv.members, trivial⟩
  simp only [Json.Columns.map_record?_cons, Json.Columns.map_record?_nil]
  rfl

theorem ObjectEntry.reads_reader : ObjectEntry.reader.Reads Value.NotList ObjectEntry.ofValue? := by
  have hfit :=
    Json.Fields.Fit.scalar "object_name" none reads_string <|
      .scalar "key" none reads_string <|
      .scalar "class_name" none reads_string <|
      .scalar "type_handling" (some none) TypeHandling.reads_reader.optional .nil
  intro v s s₁ r hv
  refine Reads.record hfit (by decide) _ _ (fun look => ?_) ⟨hv, trivial⟩
  simp only [Json.Columns.map_record?_cons, Json.Columns.map_record?_nil]
  rfl

theorem FieldEntry.reads_reader : FieldEntry.reader.Reads Value.NotList FieldEntry.ofValue? := by
  have hfit :=
    Json.Fields.Fit.scalar "field_name" none reads_string <|
      .scalar "key" none reads_string <|
      .scalar "property_name" none reads_string <|
      .scalar "class_name" none reads_string <|
      .scalar "type_handling" (some none) TypeHandling.reads_reader.optional .nil
  intro v s s₁ r hv
  refine Reads.record hfit (by decide) _ _ (fun look => ?_) ⟨hv, trivial⟩
  simp only [Json.Columns.map_record?_cons, Json.Columns.map_record?_nil]
  rfl

namespace Manifest

theorem reads_reader : reader.Reads Manifest.Shaped ofValue? := by
  have hfit :=
    Json.Fields.Fit.shaped "types" (some []) TypeEntry.reads_reader.list <|
      .shaped "objects" (some []) ObjectEntry.reads_reader.list <|
      .shaped "fields" (some []) FieldEntry.reads_reader.list .nil
  intro v s s₁ r hv
  refine Reads.record hfit (by decide) _ _ (fun look => ?_) ⟨hv.notList, hv.types, hv.objects, hv.fields, trivial⟩
  simp only [Json.Columns.map_record?_cons, Json.Columns.map_record?_nil]
  rfl

theorem toOption_ofText {v : Value} {text : String} (hw : v.Written text) (hs : Shaped v) :
    (ofText text).toOption = ofValue? v := toOption_document reads_reader hs hw

/-- A JSON text without lists in the places of records is read as what its syntax tree says of a
manifest, and is invalid if that is nothing. Another text that says the same, with its members in
another order, other escapes or other members besides, is read as the same. -/
theorem ofText_eq_ok_iff {v : Value} {text : String} (hw : v.Written text) (hs : Shaped v) :
    (∀ m, ofText text = .ok m ↔ ofValue? v = some m) ∧
    (ofValue? v = none →
      ∃ fault, (ofText text).mapError LoadFault.manifestInvalid = .error (.manifestInvalid fault)) ∧
    ∀ v' text', v'.Written text' → Shaped v' → Manifest.Same v v' →
      (ofText text').toOption = (ofText text).toOption := by
  have h := toOption_ofText hw hs
  refine ⟨fun m => ?_, fun hnone => ?_, fun v' text' hw' hs' hsame => ?_⟩
  · rw [← h]
    cases ofText text <;> simp [Except.toOption]
  · rw [hnone] at h
    cases e : ofText text with
    | ok m =>
      rw [e] at h
      cases h
    | error fault => exact ⟨fault, rfl⟩
  · rw [toOption_ofText hw' hs', h, determines_same hsame]

/-- A class with a member, an object and a field. -/
def contactsDocument : Document :=
  .record [
    ("types", .list [.record [
      ("class_name", .text "App.User"), ("public", .flag true),
      ("location", .record [("file", .text "User.cs"), ("line", .count 3)]),
      ("members", .list [.record [
        ("name", .text "Contacts"), ("type_name", .text "List"), ("collection", .flag true),
        ("element_type", .text "App.Contact"), ("setter", .text "init"),
        ("location", .record [("column", .count 5), ("file", .text "User.cs")])]])]]),
    ("objects", .list [.record [("object_name", .text "User"), ("key", .text "K\t"),
      ("class_name", .text "App.User"), ("type_handling", .text "coerce")]]),
    ("fields", .list [.record [("field_name", .text "Contacts"), ("key", .text "K\t"),
      ("property_name", .text "Contacts"), ("class_name", .text "App.User")]])]

def contacts : Manifest where
  types := [⟨"App.User", true, true, some ⟨"User.cs", 3, 0⟩,
    [⟨"Contacts", "List", true, some "App.Contact", false, false, .init, some ⟨"User.cs", 0, 5⟩⟩]⟩]
  objects := [⟨"User", "K\t", "App.User", some .coerce⟩]
  fields := [⟨"Contacts", "K\t", "Contacts", "App.User", none⟩]

/-- A class must have a name. -/
def namelessDocument : Document := .record [("types", .list [.record [("public", .flag true)]])]

/-- A class, with an escape for the `y` of `types`, and a member that no field is named after. -/
def escapedUser : Value :=
  .object [
    ([.plain 't' (by decide), .unit ⟨⟨'0', 0, rfl⟩, ⟨'0', 0, rfl⟩, ⟨'7', 7, rfl⟩, ⟨'9', 9, rfl⟩⟩,
      .plain 'p' (by decide), .plain 'e' (by decide), .plain 's' (by decide)],
      .list [.object [(Document.quotation "class_name", .string (Document.quotation "App.User")),
        (Document.quotation "location", .null)]]),
    ([.plain 'x' (by decide)], .number ⟨true, ['1'], [], none⟩)]

def plainUser : Value :=
  .object [(Document.quotation "types",
    .list [.object [(Document.quotation "location", .null),
      (Document.quotation "class_name", .string (Document.quotation "App.User"))]])]

def escapedUserText : String :=
  "\x7b\"t\\u0079pes\":[\x7b\"class_name\":\"App.User\",\"location\":null\x7d],\"x\":-1\x7d"

def plainUserText : String :=
  "\x7b \"types\" : [ \x7b \"location\" : null , \"class_name\" : \"App.User\" \x7d ] \x7d"

def user : Manifest := ⟨[⟨"App.User", true, true, none, []⟩], [], []⟩

theorem written_escapedUser : escapedUser.Written escapedUserText :=
  ⟨_, [], .nil _,
    .object (.cons (.opening (.nil _)) (.nil _) (.nil _)
      (.list (.cons (.opening (.nil _))
        (.object (.cons (.opening (.nil _)) (.nil _) (.nil _) (.string _ _)
          (.cons (.comma (.nil _) (.nil _)) (.nil _) (.nil _) (.null _) (.nil (.nil _)))))
        (.nil (.nil _))))
      (.cons (.comma (.nil _) (.nil _)) (.nil _) (.nil _)
        (.number (.mk (.present _) (.digits rfl (by decide) ⟨rfl, nofun⟩) (.absent _) (.absent _)))
        (.nil (.nil _)))), .nil _⟩

theorem written_plainUser : plainUser.Written plainUserText := by
  have hspace : ∀ r, Json.Blanks (' ' :: r) r := fun r => .cons rfl (.nil r)
  exact ⟨_, [], .nil _,
    .object (.cons (.opening (hspace _)) (hspace _) (hspace _)
      (.list (.cons (.opening (hspace _))
        (.object (.cons (.opening (hspace _)) (hspace _) (hspace _) (.null _)
          (.cons (.comma (hspace _) (hspace _)) (hspace _) (hspace _) (.string _ _) (.nil (hspace _)))))
        (.nil (hspace _))))
      (.nil (hspace _))), .nil _⟩

theorem same_escapedUser_plainUser : Manifest.Same escapedUser plainUser := by
  have hnull : Location.Same .null .null :=
    ⟨rfl, ⟨_, .refl _, .nil⟩, ⟨_, .refl _, .nil⟩, ⟨_, .refl _, .nil⟩⟩
  have htype : TypeEntry.Same
      (.object [(Document.quotation "class_name", .string (Document.quotation "App.User")),
        (Document.quotation "location", .null)])
      (.object [(Document.quotation "location", .null),
        (Document.quotation "class_name", .string (Document.quotation "App.User"))]) :=
    ⟨rfl, ⟨_, .refl _, .cons rfl .nil⟩, ⟨_, .refl _, .nil⟩, ⟨_, .refl _, .nil⟩,
      ⟨_, .refl _, .cons ⟨.rfl, hnull⟩ .nil⟩, ⟨_, .refl _, .nil⟩⟩
  exact ⟨rfl, ⟨_, .refl _, .cons ⟨iff_of_false (by decide) (by decide), .cons htype .nil⟩ .nil⟩,
    ⟨_, .refl _, .nil⟩, ⟨_, .refl _, .nil⟩⟩

theorem ofText_eq_ok_iff_contacts :
    Shaped contactsDocument.tree ∧ ofText contactsDocument.json = .ok contacts ∧
      (∃ fault, (ofText namelessDocument.json).mapError LoadFault.manifestInvalid =
        .error (.manifestInvalid fault)) ∧
      ofText escapedUserText = .ok user ∧ (ofText plainUserText).toOption = some user := by
  have hs : Shaped contactsDocument.tree := by decide +kernel
  have hs' : Shaped namelessDocument.tree := by decide +kernel
  obtain ⟨hok, -⟩ := ofText_eq_ok_iff contactsDocument.written_json hs
  obtain ⟨-, hnone, -⟩ := ofText_eq_ok_iff namelessDocument.written_json hs'
  obtain ⟨huser, -, hagree⟩ := ofText_eq_ok_iff written_escapedUser (by decide +kernel)
  have h : ofText escapedUserText = .ok user := (huser user).2 (by decide +kernel)
  have h' : (ofText plainUserText).toOption = (ofText escapedUserText).toOption :=
    hagree _ _ written_plainUser (by decide +kernel) same_escapedUser_plainUser
  rw [h] at h'
  exact ⟨hs, (hok contacts).2 (by decide +kernel), hnone (by decide +kernel), h, h'⟩

end Manifest
end Soql
