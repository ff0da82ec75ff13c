import Soql.Compile
import Soql.Manifest.Resolver
import Soql.Proofs.Verdicts

/-!
# The order of the declarations

A verdict compares a declaration with earlier ones of the same identity only, and with the accepted
objects by their identities. So declarations of different identities may change places, and nothing
changes but the order of the reports (`build_of_reordered`).

Declarations of one identity may not: the first of two duplicates is kept, and it names the object
and settles its type handling. What is left when this is left out is the plain declaration, which
its duplicates share. Verdicts go by it, a manifest locates by it, and so any order accepts the same
plain declarations and makes the same reports, the names of the objects apart (`accepted_of_perm`).
-/

namespace Soql

/-- The lists have the same entries of every identity, in the same order; how entries of different
identities are interleaved is left open. -/
def Reordered {α : Type} [Identified α] (l l' : List α) : Prop :=
  ∀ i, l.filter (ident · = i) = l'.filter (ident · = i)

section
variable {α : Type} [Identified α] {l l' : List α}

theorem reordered_iff :
    Reordered l l' ↔ ∀ a ∈ l ++ l', l.filter (ident · = ident a) = l'.filter (ident · = ident a) := by
  refine ⟨fun h a _ => h (ident a), fun h i => ?_⟩
  by_cases hi : ∃ a ∈ l ++ l', ident a = i
  · obtain ⟨a, ha, rfl⟩ := hi
    exact h a ha
  · have hnil : ∀ a ∈ l ++ l', ¬ decide (ident a = i) = true := fun a ha e =>
      hi ⟨a, ha, of_decide_eq_true e⟩
    rw [List.filter_eq_nil_iff.2 fun a ha => hnil a (List.mem_append_left l' ha),
      List.filter_eq_nil_iff.2 fun a ha => hnil a (List.mem_append_right l ha)]

instance [DecidableEq α] : Decidable (Reordered l l') := decidable_of_iff' _ reordered_iff

theorem Reordered.perm [DecidableEq α] (h : Reordered l l') : l.Perm l' :=
  RuleTable.perm_of_filter_eq ident h

end

/-- Only its class and its key. -/
def ObjectDeclaration.plain (o : ObjectDeclaration) : ObjectDeclaration :=
  ⟨"", o.key, false, o.className, .strict⟩

/-- All but its type handling. -/
def FieldDeclaration.plain (f : FieldDeclaration) : FieldDeclaration := { f with typeHandling := none }

/-- A report without the name of the object that it is about. -/
def Diagnostic.anonymous (d : Diagnostic) : Diagnostic := { d with objectName := none }

namespace RuleTable
variable {r : Resolver Id} {objects objects' before os os' : List ObjectDeclaration}
  {fields fields' : List FieldDeclaration} {o : ObjectDeclaration} {f : FieldDeclaration}

theorem fieldsOf_eq_nil_iff : fieldsOf r fields o = [] ↔ ident o ∉ fields.map ident := by
  rw [fieldsOf_eq, List.map_eq_nil_iff, List.filter_eq_nil_iff]
  simp

/-- A field asks for the identities of the accepted objects only. -/
theorem fieldFault?_congr (h : (os.map ident).Perm (os'.map ident)) :
    fieldFault? r os = fieldFault? r os' := by
  have hall : ∀ p : Ident → Prop, (∀ o ∈ os, p (ident o)) ↔ ∀ o ∈ os', p (ident o) := fun p => by
    rw [← List.forall_mem_map (f := ident), ← List.forall_mem_map (f := ident)]
    exact forall_congr' fun i => by rw [h.mem_iff]
  funext before f
  have hclass := hall (·.className ≠ f.className)
  have hident := hall fun i => ¬ (i.className = f.className ∧ i.key = f.key)
  simp only [ObjectDeclaration.ident_eq] at hclass hident
  simp only [fieldFault?, hclass, hident]

/-! ### Declarations of different identities -/

theorem objectFault?_filter_ident : objectFault? r before o =
    objectFault? r (before.filter (ident · = ident o)) o := by
  have h := exists_mem_filter_iff (l := before) (p := fun p => decide (ident p = ident o))
    (q := fun p => p.className = o.className ∧ p.key = o.key) fun p hp =>
      decide_eq_true (ident_eq_iff.2 hp)
  simp only [objectFault?, h]

theorem fieldFault?_filter_ident {before : List FieldDeclaration} : fieldFault? r os before f =
    fieldFault? r os (before.filter (ident · = ident f)) f := by
  have h := exists_mem_filter_iff (l := before) (p := fun g => decide (ident g = ident f))
    (q := (Twins · f)) fun g hg => decide_eq_true hg.ident_eq
  simp only [fieldFault?, h]

theorem fieldsOf_congr (h : Reordered fields fields') (o : ObjectDeclaration) :
    fieldsOf r fields o = fieldsOf r fields' o := by
  rw [fieldsOf_eq, fieldsOf_eq, h]

theorem reordered_passed {α φ : Type} [Identified α] {l l' : List α} {v : List α → α → Option φ}
    (hv : ∀ before a, v before a = v (before.filter (ident · = ident a)) a) (h : Reordered l l') :
    Reordered (passed (judge v l)) (passed (judge v l')) := by
  intro i
  have hi : ∀ before a, decide (ident a = i) = true →
      (v before a).isNone = (v (before.filter (ident · = i)) a).isNone := by
    intro before a ha
    rw [hv, of_decide_eq_true ha]
  rw [filter_passed hi, filter_passed hi, h]

section
variable (ho : Reordered objects objects') (hf : Reordered fields fields')
include ho

theorem perm_judgedObjects : (judgedObjects r objects).Perm (judgedObjects r objects') :=
  perm_judge ident (fun _ _ => objectFault?_filter_ident) ho

theorem reordered_acceptedObjects : Reordered (acceptedObjects r objects) (acceptedObjects r objects') :=
  reordered_passed (fun _ _ => objectFault?_filter_ident) ho

theorem fieldFault?_acceptedObjects :
    fieldFault? r (acceptedObjects r objects) = fieldFault? r (acceptedObjects r objects') :=
  fieldFault?_congr ((reordered_acceptedObjects ho).perm.map ident)

include hf

theorem perm_judgedFields : (judgedFields r objects fields).Perm (judgedFields r objects' fields') := by
  rw [judgedFields, judgedFields, ← fieldFault?_acceptedObjects ho]
  exact perm_judge ident (fun _ _ => fieldFault?_filter_ident) hf

theorem reordered_acceptedFields :
    Reordered (acceptedFields r objects fields) (acceptedFields r objects' fields') := by
  rw [acceptedFields, judgedFields, acceptedFields, judgedFields, ← fieldFault?_acceptedObjects ho]
  exact reordered_passed (fun _ _ => fieldFault?_filter_ident) hf

end

/-- Only a dropped object is reported for want of fields. -/
theorem filter_noFields {l : List ObjectDeclaration} (judged : List (FieldDeclaration × Option FieldFault)) :
    ((judgedObjects r objects).filterMap (fun (o, fault) => fault.map (objectReport r o)) ++
      judged.filterMap (fun (f, fault) => fault.map (fieldReport r f)) ++
      l.map (objectReport r · .noFields)).filter (·.kind = .object .noFields) =
        l.map (objectReport r · .noFields) := by
  have hobjects : ((judgedObjects r objects).filterMap fun (o, fault) => fault.map (objectReport r o)).filter
      (·.kind = .object .noFields) = [] := by
    refine List.filter_eq_nil_iff.2 fun d hd => ?_
    obtain ⟨⟨o, fault⟩, hj, hd⟩ := List.mem_filterMap.1 hd
    obtain ⟨before, hv⟩ := mem_judge hj
    obtain ⟨fault, rfl, rfl⟩ := Option.map_eq_some_iff.1 hd
    rcases eq_of_objectFault? hv.symm with rfl | rfl <;> simp [objectReport, Diagnostic.ofObject]
  have hfields : (judged.filterMap fun (f, fault) => fault.map (fieldReport r f)).filter
      (·.kind = .object .noFields) = [] := by
    refine List.filter_eq_nil_iff.2 fun d hd => ?_
    obtain ⟨⟨f, fault⟩, -, hd⟩ := List.mem_filterMap.1 hd
    obtain ⟨fault, -, rfl⟩ := Option.map_eq_some_iff.1 hd
    simp [fieldReport, Diagnostic.ofField]
  have hdropped : (l.map (objectReport r · .noFields)).filter (·.kind = .object .noFields) =
      l.map (objectReport r · .noFields) := by
    refine List.filter_eq_self.2 fun d hd => ?_
    obtain ⟨o, -, rfl⟩ := List.mem_map.1 hd
    simp [objectReport, Diagnostic.ofObject]
  rw [List.filter_append, List.filter_append, hobjects, hfields, hdropped, List.append_nil, List.nil_append]

/-- Declarations of different identities may be interleaved in any way: the schema is the same, and
so are its entries and the warnings about its objects; the other reports may come in another order. -/
theorem build_of_reordered (r : Resolver Id) (ho : Reordered objects objects')
    (hf : Reordered fields fields') {b b' : Built} (hb : (build r objects fields).run = b)
    (hb' : (build r objects' fields').run = b') :
    b.schema = b'.schema ∧ b.diagnostics.Perm b'.diagnostics ∧
      b.diagnostics.filter (·.kind = .object .noFields) =
        b'.diagnostics.filter (·.kind = .object .noFields) ∧
      (b.schema.compileAll ∅).1 = (b'.schema.compileAll ∅).1 := by
  have h := hb ▸ obeys_build r objects fields
  have h' := hb' ▸ obeys_build r objects' fields'
  have hacc : ∀ o, o ∈ acceptedObjects r objects ↔ o ∈ acceptedObjects r objects' := fun o =>
    (reordered_acceptedObjects ho).perm.mem_iff
  have hown := fieldsOf_congr (r := r) (reordered_acceptedFields (r := r) ho hf)
  have hs : b.schema = b'.schema := Index.ext_mem fun x => by
    rw [h.mem_schema_iff, h'.mem_schema_iff]
    simp only [hacc, hown]
  obtain ⟨dropped, hm, hd⟩ := h.diagnostics_eq
  obtain ⟨dropped', hm', hd'⟩ := h'.diagnostics_eq
  -- The dropped objects come in the order of their identities, not in that of the declarations.
  obtain rfl : dropped = dropped' := Index.ext_mem fun o => by rw [hm, hm', hacc, hown]
  refine ⟨hs, ?_, ?_, by rw [hs]⟩
  · rw [hd, hd']
    exact (((perm_judgedObjects ho).filterMap _).append ((perm_judgedFields ho hf).filterMap _)).append_right _
  · rw [hd, hd', filter_noFields, filter_noFields]

/-- An office is declared twice, and so is the city in it; clerks have a view without fields. -/
def offices : Manifest where
  types := [
    ⟨"App.Office", true, true, none, [⟨"City", "string", false, none, false, false, .public, none⟩]⟩,
    ⟨"App.Clerk", true, true, none,
      [⟨"Office", "App.Office", false, none, false, false, .public, none⟩,
        ⟨"Name", "string", false, none, false, false, .public, none⟩]⟩]
  objects := [⟨"Office", "K", "App.Office", none⟩, ⟨"Clerk", "K", "App.Clerk", none⟩,
    ⟨"Branch", "K", "App.Office", none⟩, ⟨"Clerk", "L", "App.Clerk", none⟩]
  fields := [⟨"City", "K", "City", "App.Office", none⟩, ⟨"Name", "K", "Name", "App.Clerk", none⟩,
    ⟨"City", "K", "City", "App.Office", some .coerce⟩, ⟨"Office", "K", "Office", "App.Clerk", none⟩]

theorem build_of_reordered_offices :
    let objects := offices.objectDeclarations .strict
    let fields := offices.fieldDeclarations
    let clerks := objects.filter (·.className = "App.Clerk")
    let others := objects.filter (·.className ≠ "App.Clerk")
    let clerkFields := fields.filter (·.className = "App.Clerk")
    let otherFields := fields.filter (·.className ≠ "App.Clerk")
    let b := (build offices.resolver objects fields).run
    let b' := (build offices.resolver (clerks ++ others) (clerkFields ++ otherFields)).run
    Reordered objects (clerks ++ others) ∧ Reordered fields (clerkFields ++ otherFields) ∧
      objects ≠ clerks ++ others ∧ fields ≠ clerkFields ++ otherFields ∧
      (b.schema.compileAll ∅).1.filterMap (·.query?) =
        ["SELECT Name, Office.City FROM Clerk", "SELECT City FROM Office"] ∧
      b.schema = b'.schema ∧ b.diagnostics.Perm b'.diagnostics ∧
      b.diagnostics.filter (·.kind = .object .noFields) =
        b'.diagnostics.filter (·.kind = .object .noFields) ∧
      (b.schema.compileAll ∅).1 = (b'.schema.compileAll ∅).1 := by
  intro objects fields clerks others clerkFields otherFields b b'
  have ho : Reordered objects (clerks ++ others) := by decide +kernel
  have hf : Reordered fields (clerkFields ++ otherFields) := by decide +kernel
  exact ⟨ho, hf, by decide +kernel, by decide +kernel, by decide +kernel,
    build_of_reordered offices.resolver ho hf rfl rfl⟩

/-! ### Declarations of one identity -/

theorem plain_eq_iff {p : ObjectDeclaration} :
    p.plain = o.plain ↔ p.className = o.className ∧ p.key = o.key := by
  simp [ObjectDeclaration.plain, and_comm]

theorem twins_iff {g : FieldDeclaration} : Twins g f ↔ g.plain = f.plain := by
  simp only [Twins, FieldDeclaration.plain, FieldDeclaration.mk.injEq]
  tauto

/-- The verdict on a plain declaration, given whether it has been seen before. -/
theorem objectFault?_plain : objectFault? r before o =
    objectFault? r (if decide (o.plain ∈ before.map (·.plain)) then [o.plain] else []) o.plain := by
  have hseen : (∃ p ∈ before, p.className = o.className ∧ p.key = o.key) ↔
      o.plain ∈ before.map (·.plain) := by
    simp only [List.mem_map, plain_eq_iff]
  simp only [objectFault?, hseen]
  simp [ObjectDeclaration.plain]

theorem fieldFault?_plain {before : List FieldDeclaration} : fieldFault? r os before f =
    fieldFault? r os (if decide (f.plain ∈ before.map (·.plain)) then [f.plain] else []) f.plain := by
  have hseen : (∃ g ∈ before, Twins g f) ↔ f.plain ∈ before.map (·.plain) := by
    simp only [List.mem_map, twins_iff]
  simp only [fieldFault?, hseen]
  simp [Twins, FieldDeclaration.plain, Writable]

section
variable (ho : objects.Perm objects') (hf : fields.Perm fields')
include ho

theorem perm_judgedObjects_plain : ((judgedObjects r objects).map (Prod.map (·.plain) id)).Perm
    ((judgedObjects r objects').map (Prod.map (·.plain) id)) :=
  perm_map_judge (w := fun o seen => objectFault? r (if seen then [o] else []) o) (·.plain)
    (fun _ _ => objectFault?_plain) ho

theorem perm_acceptedObjects_plain : ((acceptedObjects r objects).map (·.plain)).Perm
    ((acceptedObjects r objects').map (·.plain)) := by
  rw [acceptedObjects, acceptedObjects, map_passed, map_passed]
  exact perm_passed (perm_judgedObjects_plain ho)

theorem perm_ident_acceptedObjects : ((acceptedObjects r objects).map ident).Perm
    ((acceptedObjects r objects').map ident) := by
  have h := (perm_acceptedObjects_plain (r := r) ho).map ident
  rw [List.map_map, List.map_map] at h
  exact h

include hf

theorem perm_judgedFields_plain : ((judgedFields r objects fields).map (Prod.map (·.plain) id)).Perm
    ((judgedFields r objects' fields').map (Prod.map (·.plain) id)) := by
  rw [judgedFields, judgedFields, ← fieldFault?_congr (perm_ident_acceptedObjects ho)]
  exact perm_map_judge
    (w := fun f seen => fieldFault? r (acceptedObjects r objects) (if seen then [f] else []) f) (·.plain)
    (fun _ _ => fieldFault?_plain) hf

theorem perm_acceptedFields_plain : ((acceptedFields r objects fields).map (·.plain)).Perm
    ((acceptedFields r objects' fields').map (·.plain)) := by
  rw [acceptedFields, acceptedFields, map_passed, map_passed]
  exact perm_passed (perm_judgedFields_plain ho hf)

theorem perm_ident_acceptedFields : ((acceptedFields r objects fields).map ident).Perm
    ((acceptedFields r objects' fields').map ident) := by
  have h := (perm_acceptedFields_plain (r := r) ho hf).map ident
  rw [List.map_map, List.map_map] at h
  exact h

end

/-! ### What is read off plain declarations -/

namespace Obeys
variable {b : Built} (h : Obeys r objects fields b)
include h

theorem contains_iff {i : Ident} : b.schema.contains i = true ↔
    i ∈ (acceptedObjects r objects).map ident ∧ i ∈ (acceptedFields r objects fields).map ident := by
  rw [Index.contains_iff, List.mem_map]
  constructor
  · rintro ⟨x, hx, rfl⟩
    obtain ⟨o, ho, hne, rfl⟩ := (h.mem_schema_iff x).1 hx
    exact ⟨⟨o, ho, rfl⟩, by_contra fun hi => hne (fieldsOf_eq_nil_iff.2 hi)⟩
  · rintro ⟨⟨o, ho, rfl⟩, hi⟩
    exact ⟨_, (h.mem_schema_iff _).2 ⟨o, ho, fun hnil => fieldsOf_eq_nil_iff.1 hnil hi, rfl⟩, rfl⟩

theorem map_fields {i : Ident} {x : Object} (hx : b.schema.get? i = some x) :
    x.fields.map (fun f => (f.property, f.name)) =
      (((acceptedFields r objects fields).map (·.plain)).filter (ident · = i)).map
        fun f => (f.propertyName, f.fieldName) := by
  obtain ⟨hmem, rfl⟩ := Index.get?_eq_some_iff.1 hx
  obtain ⟨o, -, -, rfl⟩ := (h.mem_schema_iff x).1 hmem
  rw [List.filter_map, List.map_map, Object.ident_ofDeclaration]
  change (fieldsOf r _ o).map _ = _
  rw [fieldsOf_eq, List.map_map]
  rfl

end Obeys

theorem mem_map_dropped {dropped : Index ObjectDeclaration} {p : ObjectDeclaration}
    (hm : ∀ o, o ∈ dropped.toList ↔
      o ∈ acceptedObjects r objects ∧ fieldsOf r (acceptedFields r objects fields) o = []) :
    p ∈ dropped.toList.map (·.plain) ↔ p ∈ (acceptedObjects r objects).map (·.plain) ∧
      ident p ∉ (acceptedFields r objects fields).map ident := by
  simp only [List.mem_map (b := p), hm, fieldsOf_eq_nil_iff]
  constructor
  · rintro ⟨o, ⟨ho, hi⟩, rfl⟩
    exact ⟨⟨o, ho, rfl⟩, hi⟩
  · rintro ⟨⟨o, ho, rfl⟩, hi⟩
    exact ⟨o, ⟨ho, hi⟩, rfl⟩

/-! ### Reports of a manifest -/

section
variable (m : Manifest)

theorem anonymous_objectReport (o : ObjectDeclaration) {fault : ObjectFault} (h : fault ≠ .cyclic) :
    (objectReport m.resolver o fault).anonymous = (objectReport m.resolver o.plain fault).anonymous := by
  cases fault with
  | cyclic => contradiction
  | _ => rfl

theorem anonymous_fieldReport (f : FieldDeclaration) (fault : FieldFault) :
    (fieldReport m.resolver f fault).anonymous = (fieldReport m.resolver f.plain fault).anonymous := by
  cases fault <;> rfl

theorem anonymous_reports {α φ : Type} {judged : List (α × Option φ)} {report : α → φ → Diagnostic}
    {g : α → α} (h : ∀ a fault, (a, some fault) ∈ judged →
      (report a fault).anonymous = (report (g a) fault).anonymous) :
    (judged.filterMap fun (a, fault) => fault.map (report a)).map Diagnostic.anonymous =
      (judged.map (Prod.map g id)).filterMap fun (a, fault) =>
        fault.map fun fault => (report a fault).anonymous := by
  rw [List.map_filterMap, List.filterMap_map]
  refine List.filterMap_congr fun ⟨a, fault⟩ hj => ?_
  cases fault with
  | none => rfl
  | some fault => exact congrArg some (h a fault hj)

theorem anonymous_objectReports (objects : List ObjectDeclaration) :
    ((judgedObjects m.resolver objects).filterMap fun (o, fault) =>
      fault.map (objectReport m.resolver o)).map Diagnostic.anonymous =
    ((judgedObjects m.resolver objects).map (Prod.map (·.plain) id)).filterMap fun (o, fault) =>
      fault.map fun fault => (objectReport m.resolver o fault).anonymous := by
  refine anonymous_reports fun o fault hj => ?_
  obtain ⟨before, hv⟩ := mem_judge hj
  -- The message about a cycle is the only one that has the name in it.
  have hfault : fault ≠ .cyclic := by
    rcases eq_of_objectFault? hv.symm with rfl | rfl <;> nofun
  exact anonymous_objectReport m o hfault

theorem anonymous_fieldReports (judged : List (FieldDeclaration × Option FieldFault)) :
    (judged.filterMap fun (f, fault) => fault.map (fieldReport m.resolver f)).map Diagnostic.anonymous =
    (judged.map (Prod.map (·.plain) id)).filterMap fun (f, fault) =>
      fault.map fun fault => (fieldReport m.resolver f fault).anonymous :=
  anonymous_reports fun f fault _ => anonymous_fieldReport m f fault

theorem anonymous_droppedReports (l : List ObjectDeclaration) :
    (l.map (objectReport m.resolver · .noFields)).map Diagnostic.anonymous =
      (l.map (·.plain)).map fun o => (objectReport m.resolver o .noFields).anonymous := by
  rw [List.map_map, List.map_map]
  exact List.map_congr_left fun o _ => anonymous_objectReport m o nofun

end

/-- In whatever order the declarations of a manifest come, duplicates among them: the same objects are
accepted with the same fields, and the same reports are made, the names of the objects apart. -/
theorem accepted_of_perm (m : Manifest) (ho : objects.Perm objects') (hf : fields.Perm fields')
    {b b' : Built} (hb : (build m.resolver objects fields).run = b)
    (hb' : (build m.resolver objects' fields').run = b') :
    (∀ i, b.schema.contains i = b'.schema.contains i) ∧
      (∀ i x x', b.schema.get? i = some x → b'.schema.get? i = some x' →
        (x.fields.map fun f => (f.property, f.name)).Perm (x'.fields.map fun f => (f.property, f.name))) ∧
      (b.diagnostics.map (·.anonymous)).Perm (b'.diagnostics.map (·.anonymous)) := by
  have h := hb ▸ obeys_build m.resolver objects fields
  have h' := hb' ▸ obeys_build m.resolver objects' fields'
  refine ⟨fun i => ?_, fun i x x' hx hx' => ?_, ?_⟩
  · rw [Bool.eq_iff_iff, h.contains_iff, h'.contains_iff, (perm_ident_acceptedObjects ho).mem_iff,
      (perm_ident_acceptedFields ho hf).mem_iff]
  · rw [h.map_fields hx, h'.map_fields hx']
    exact ((perm_acceptedFields_plain ho hf).filter _).map _
  · obtain ⟨dropped, hm, hd⟩ := h.diagnostics_eq
    obtain ⟨dropped', hm', hd'⟩ := h'.diagnostics_eq
    -- Other ones of the duplicates may be dropped, but under the same identities and in their order.
    have hdropped : dropped.toList.map (·.plain) = dropped'.toList.map (·.plain) := by
      refine Index.eq_of_sorted (List.pairwise_map.2 dropped.sorted)
        (List.pairwise_map.2 dropped'.sorted) fun p => ?_
      rw [mem_map_dropped hm, mem_map_dropped hm', (perm_acceptedObjects_plain ho).mem_iff,
        (perm_ident_acceptedFields ho hf).mem_iff]
    rw [hd, hd']
    simp only [List.map_append, anonymous_objectReports, anonymous_fieldReports, anonymous_droppedReports,
      hdropped]
    exact (((perm_judgedObjects_plain ho).filterMap _).append
      ((perm_judgedFields_plain ho hf).filterMap _)).append_right _

theorem accepted_of_perm_offices :
    let objects := offices.objectDeclarations .strict
    let fields := offices.fieldDeclarations
    let b := (build offices.resolver objects fields).run
    let b' := (build offices.resolver objects.reverse fields.reverse).run
    objects.Perm objects.reverse ∧ fields.Perm fields.reverse ∧
      b.diagnostics.map (·.kind) = [.object .duplicate, .field .duplicate, .object .noFields] ∧
      b.schema.toList.map (·.name) = ["Clerk", "Office"] ∧
      b'.schema.toList.map (·.name) = ["Clerk", "Branch"] ∧
      (∀ i, b.schema.contains i = b'.schema.contains i) ∧
      (b.diagnostics.map (·.anonymous)).Perm (b'.diagnostics.map (·.anonymous)) := by
  intro objects fields b b'
  have ho : objects.Perm objects.reverse := (List.reverse_perm objects).symm
  have hf : fields.Perm fields.reverse := (List.reverse_perm fields).symm
  obtain ⟨hidents, -, hreports⟩ := accepted_of_perm offices ho hf rfl rfl
  exact ⟨ho, hf, by decide +kernel, by decide +kernel, by decide +kernel, hidents, hreports⟩

end RuleTable
end Soql
