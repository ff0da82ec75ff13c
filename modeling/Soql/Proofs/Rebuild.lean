import Soql.Proofs.DeclarationOrder
import Soql.Proofs.Thinning

/-!
# Building again from what was accepted

A declaration stands if nothing is said against it and its object is in the schema. All others have
been rejected, or are about an object that was dropped. They may be taken out, some of them or all
(`Thinned`), and the schema stays as it is. Its reports need not: when an accepted object that was
dropped is taken out, a duplicate that was rejected because of it is accepted in its place, and is
dropped in its turn. So more identities are never accepted than before, and those of the schema always
are; in between they may vary, and no field of the schema looks at them. What stands is accepted
without a word. Main statement: `rebuild_of_thinned`.
-/

namespace Soql

/-- Nothing is said against the declaration, and its object is in the schema. -/
def Schema.Upholds {α φ : Type} [Identified α] (s : Schema) (j : α × Option φ) : Prop :=
  j.2 = none ∧ s.contains (ident j.1) = true

instance {α φ : Type} [Identified α] (s : Schema) : DecidablePred (s.Upholds (α := α) (φ := φ)) :=
  fun _ => inferInstanceAs (Decidable (_ ∧ _))

namespace RuleTable

theorem standing_upholds {α φ : Type} [Identified α] (s : Schema) (judged : List (α × Option φ)) :
    standing s.Upholds judged = (passed judged).filter (s.contains <| ident ·) :=
  have h : ∀ j : α × Option φ, s.Upholds j ↔ j.2 = none ∧ s.contains (ident j.1) = true := fun _ => Iff.rfl
  standing_eq_filter_passed h judged

/-- What a build finds against an object that comes after some others. -/
def objectVerdict (r : Resolver Id) (before : List ObjectDeclaration) (o : ObjectDeclaration) :
    Option ObjectFault :=
  (Build.objectFault r (Build.acceptObjects r ∅ before).run.1 o).run

/-- What a build of the objects finds against a field that comes after some others. -/
def fieldVerdict (r : Resolver Id) (objects : List ObjectDeclaration) (before : List FieldDeclaration)
    (f : FieldDeclaration) : Option FieldFault :=
  let accepted := (Build.acceptObjects r ∅ objects).run.1
  (Build.fieldFault r accepted (Build.acceptFields r accepted [] before).run.1.reverse f).run

variable {r : Resolver Id} {objects objects' : List ObjectDeclaration}
  {fields fields' : List FieldDeclaration} {o : ObjectDeclaration} {f : FieldDeclaration} {b b' : Built}

/-! ### Verdicts along a build -/

theorem judges_objectFault? (r : Resolver Id) :
    Judges (objectFault? r) ident fun i => Constructible r i.className := by
  intro before o
  simp only [objectFault?_eq_none_iff, List.mem_map, ObjectDeclaration.ident_eq, Ident.mk.injEq]

theorem judges_fieldFault? (r : Resolver Id) (os : List ObjectDeclaration) :
    Judges (fieldFault? r os) FieldDeclaration.plain fun g => Writable r g ∧ ident g ∈ os.map ident := by
  intro before f
  have hw : Writable r f.plain ↔ Writable r f := Iff.rfl
  have hi : ident f.plain = ident f := rfl
  simp only [fieldFault?_eq_none_iff, List.mem_map, twins_iff, hw, hi, and_assoc]
  simp only [ObjectDeclaration.ident_eq, FieldDeclaration.ident_eq, Ident.mk.injEq]

theorem mem_acceptedObjects_ident {i : Ident} : i ∈ (acceptedObjects r objects).map ident ↔
    i ∈ objects.map ident ∧ Constructible r i.className :=
  (judges_objectFault? r).mem_map_passed_iff

theorem mem_acceptedFields_plain {g : FieldDeclaration} :
    g ∈ (acceptedFields r objects fields).map (·.plain) ↔
      g ∈ fields.map (·.plain) ∧ Writable r g ∧ ident g ∈ (acceptedObjects r objects).map ident :=
  (judges_fieldFault? r (acceptedObjects r objects)).mem_map_passed_iff

theorem mem_acceptObjects_iff : o ∈ (Build.acceptObjects r ∅ objects).run.1.toList ↔
    o ∈ acceptedObjects r objects := by
  have hcover : Covers r ∅ [] := fun _ => by simp [Index.contains_iff]
  rw [acceptedObjects, judgedObjects, judge_eq_judgeAfter]
  exact ((of_canReturn_acceptObjects hcover rfl).1 o).trans (or_iff_right List.not_mem_nil)

theorem contains_acceptObjects_iff {i : Ident} :
    (Build.acceptObjects r ∅ objects).run.1.contains i = true ↔
      i ∈ (acceptedObjects r objects).map ident := by
  rw [Index.contains_iff]
  simp only [mem_acceptObjects_iff, List.mem_map]

theorem objectVerdict_eq (r : Resolver Id) : objectVerdict r = objectFault? r := by
  funext before o
  have hcover : Covers r (Build.acceptObjects r ∅ before).run.1 before := by
    intro i
    rw [contains_acceptObjects_iff, mem_acceptedObjects_ident, List.mem_map]
    constructor
    · rintro ⟨⟨p, hp, rfl⟩, hc⟩
      exact ⟨p, hp, rfl, hc⟩
    · rintro ⟨p, hp, rfl, hc⟩
      exact ⟨⟨p, hp, rfl⟩, hc⟩
  exact hcover.verdict rfl

theorem run_acceptFields : (Build.acceptFields r (Build.acceptObjects r ∅ objects).run.1 [] fields).run.1 =
    acceptedFields r objects fields := by
  have hrecall : Recalls r (Build.acceptObjects r ∅ objects).run.1 [] [] := fun _ => by simp
  rw [acceptedFields, judgedFields, judge_eq_judgeAfter]
  exact (of_canReturn_acceptFields (fun _ => mem_acceptObjects_iff) hrecall rfl).1

theorem fieldVerdict_eq (r : Resolver Id) (objects : List ObjectDeclaration) :
    fieldVerdict r objects = fieldFault? r (acceptedObjects r objects) := by
  funext before f
  have hrecall : Recalls r (Build.acceptObjects r ∅ objects).run.1
      (acceptedFields r objects before).reverse before := by
    intro g
    have hkept : (∃ x ∈ (acceptedFields r objects before).reverse, Twins g x) ↔
        g.plain ∈ (acceptedFields r objects before).map (·.plain) := by
      simp only [List.mem_reverse, List.mem_map, twins_iff, eq_comm]
    have hbefore : (∃ x ∈ before, Twins x g) ↔ g.plain ∈ before.map (·.plain) := by
      simp only [List.mem_map, twins_iff]
    rw [hkept, hbefore, mem_acceptedFields_plain, contains_acceptObjects_iff]
    exact Iff.rfl
  rw [fieldVerdict, run_acceptFields]
  exact hrecall.verdict (fun _ => mem_acceptObjects_iff) rfl

theorem Obeys.contains_of_mem (h : Obeys r objects fields b) (hf : f ∈ acceptedFields r objects fields) :
    b.schema.contains (ident f) = true := by
  have hi := (mem_acceptedFields_plain.1 (List.mem_map_of_mem (f := (·.plain)) hf)).2.2
  exact h.contains_iff.2 ⟨hi, List.mem_map_of_mem hf⟩

/-- Only an object of some field is in the schema. -/
theorem Obeys.mem_schema_iff_filter (h : Obeys r objects fields b) {p : Ident → Bool}
    (hp : ∀ f ∈ acceptedFields r objects fields, p (ident f) = true) (x : Object) :
    x ∈ b.schema.toList ↔ ∃ o ∈ (acceptedObjects r objects).filter (p <| ident ·),
      fieldsOf r (acceptedFields r objects fields) o ≠ [] ∧
        x = .ofDeclaration o (fieldsOf r (acceptedFields r objects fields) o) := by
  rw [h.mem_schema_iff]
  refine exists_congr fun o => ?_
  rw [List.mem_filter, and_assoc]
  refine and_congr_right fun _ => (and_iff_right_of_imp fun ⟨hne, _⟩ => ?_).symm
  by_contra hi
  refine hne (fieldsOf_eq_nil_iff.2 fun hmem => hi ?_)
  obtain ⟨f, hf, e⟩ := List.mem_map.1 hmem
  exact e ▸ hp f hf

/-! ### Fewer declarations -/

section
variable (h : Obeys r objects fields b)
  (ho : Thinned b.schema.Upholds (judgedObjects r objects) objects')
include ho

theorem ident_subset_acceptedObjects :
    (acceptedObjects r objects').map ident ⊆ (acceptedObjects r objects).map ident := by
  intro i hi
  obtain ⟨hi, hc⟩ := mem_acceptedObjects_ident.1 hi
  exact mem_acceptedObjects_ident.2 ⟨List.map_subset ident ho.subset_of_judge hi, hc⟩

theorem filter_contains_acceptedObjects :
    (acceptedObjects r objects').filter (b.schema.contains <| ident ·) =
      (acceptedObjects r objects).filter (b.schema.contains <| ident ·) :=
  (judges_objectFault? r).filter_passed_thinned (judges_objectFault? r) (fun _ _ => Iff.rfl) ho

include h

theorem mem_ident_acceptedObjects {i : Ident} (hi : b.schema.contains i = true) :
    i ∈ (acceptedObjects r objects').map ident := by
  obtain ⟨o, hoa, rfl⟩ := List.mem_map.1 (h.contains_iff.1 hi).1
  have hmem : o ∈ (acceptedObjects r objects').filter (b.schema.contains <| ident ·) := by
    rw [filter_contains_acceptedObjects ho]
    exact List.mem_filter.2 ⟨hoa, hi⟩
  exact List.mem_map_of_mem (List.mem_filter.1 hmem).1

variable (hf : Thinned b.schema.Upholds (judgedFields r objects fields) fields')
include hf

theorem filter_contains_acceptedFields :
    (acceptedFields r objects' fields').filter (b.schema.contains <| ident ·) =
      (acceptedFields r objects fields).filter (b.schema.contains <| ident ·) := by
  refine (judges_fieldFault? r _).filter_passed_thinned (judges_fieldFault? r _)
    (p := fun g => b.schema.contains (ident g)) (fun g hg => ?_) hf
  have hi := (h.contains_iff.1 hg).1
  have hi' := mem_ident_acceptedObjects h ho hg
  exact and_congr_right fun _ => iff_of_true hi hi'

/-- What is accepted of fewer fields is still about objects of the schema. -/
theorem contains_of_mem_acceptedFields (hfa : f ∈ acceptedFields r objects' fields') :
    b.schema.contains (ident f) = true := by
  obtain ⟨hfields, hw, hi⟩ := mem_acceptedFields_plain.1 (List.mem_map_of_mem (f := (·.plain)) hfa)
  have hi : ident f ∈ (acceptedObjects r objects).map ident := ident_subset_acceptedObjects ho hi
  have hg := mem_acceptedFields_plain.2 ⟨List.map_subset _ hf.subset_of_judge hfields, hw, hi⟩
  obtain ⟨g, hg, e⟩ := List.mem_map.1 hg
  exact (twins_iff.2 e).ident_eq ▸ h.contains_of_mem hg

theorem fieldsOf_acceptedFields (hi : b.schema.contains (ident o) = true) :
    fieldsOf r (acceptedFields r objects' fields') o = fieldsOf r (acceptedFields r objects fields) o := by
  rw [← fieldsOf_filter hi, filter_contains_acceptedFields h ho hf, fieldsOf_filter hi]

theorem schema_eq_of_thinned (h' : Obeys r objects' fields' b') : b'.schema = b.schema := by
  have hall : ∀ f ∈ acceptedFields r objects fields, b.schema.contains (ident f) = true :=
    fun f => h.contains_of_mem
  have hall' : ∀ f ∈ acceptedFields r objects' fields', b.schema.contains (ident f) = true :=
    fun f => contains_of_mem_acceptedFields h ho hf
  refine Index.ext_mem fun x => ?_
  rw [h'.mem_schema_iff_filter hall', h.mem_schema_iff_filter hall, filter_contains_acceptedObjects ho]
  refine exists_congr fun o => and_congr_right fun hoa => ?_
  rw [fieldsOf_acceptedFields h ho hf (List.mem_filter.1 hoa).2]

end

/-! ### Only what stands -/

section
variable {α φ : Type} {v : List α → α → Option φ} {l : List α}

theorem passed_eq_of_filter {p : α → Bool} (h : (passed (judge v l)).filter p = l) :
    passed (judge v l) = l := by
  have hsub := List.filter_sublist (p := p) (l := passed (judge v l))
  rw [h] at hsub
  exact (passed_sublist v l).antisymm hsub

theorem reports_eq_nil {report : α → φ → Diagnostic} (h : passed (judge v l) = l) :
    (judge v l).filterMap (fun (a, fault) => fault.map (report a)) = [] := by
  refine List.filterMap_eq_nil_iff.2 fun ⟨a, fault⟩ hj => ?_
  obtain rfl : fault = none := eq_none_of_passed_eq h _ hj
  rfl

end

/-- Nothing is reported if everything is accepted and every object has a field. -/
theorem Obeys.diagnostics_eq_nil (h : Obeys r objects fields b) (ho : acceptedObjects r objects = objects)
    (hf : acceptedFields r objects fields = fields)
    (hi : ∀ o ∈ objects, b.schema.contains (ident o) = true) : b.diagnostics = [] := by
  obtain ⟨dropped, hm, hd⟩ := h.diagnostics_eq
  have hdropped : dropped.toList = [] := by
    refine List.eq_nil_iff_forall_not_mem.2 fun o hod => ?_
    obtain ⟨hoa, hnil⟩ := (hm o).1 hod
    exact fieldsOf_eq_nil_iff.1 hnil (h.contains_iff.1 (hi o (ho ▸ hoa))).2
  rw [hd, hdropped, judgedObjects, judgedFields, reports_eq_nil ho, reports_eq_nil hf]
  rfl

/-- Take out of the declarations some that have been rejected or whose object was dropped: the schema
stays as it is. Take out all of them, and nothing is reported either. -/
theorem rebuild_of_thinned (r : Resolver Id) (objects : List ObjectDeclaration)
    (fields : List FieldDeclaration) {b : Built} (hb : (build r objects fields).run = b) :
    (∀ objects' fields', Thinned b.schema.Upholds (judge (objectVerdict r) objects) objects' →
      Thinned b.schema.Upholds (judge (fieldVerdict r objects) fields) fields' →
      (build r objects' fields').run.schema = b.schema) ∧
    (build r (standing b.schema.Upholds (judge (objectVerdict r) objects))
      (standing b.schema.Upholds (judge (fieldVerdict r objects) fields))).run = ⟨b.schema, []⟩ := by
  have h : Obeys r objects fields b := hb ▸ obeys_build r objects fields
  rw [objectVerdict_eq, fieldVerdict_eq]
  refine ⟨fun objects' fields' ho hf => schema_eq_of_thinned h ho hf (obeys_build ..), ?_⟩
  have ho := Thinned.of_standing b.schema.Upholds (judgedObjects r objects)
  have hf := Thinned.of_standing b.schema.Upholds (judgedFields r objects fields)
  have h' := obeys_build r (standing b.schema.Upholds (judgedObjects r objects))
    (standing b.schema.Upholds (judgedFields r objects fields))
  have hschema := schema_eq_of_thinned h ho hf h'
  have haccepted := passed_eq_of_filter <|
    (filter_contains_acceptedObjects ho).trans (standing_upholds ..).symm
  have hkept := passed_eq_of_filter <|
    (filter_contains_acceptedFields h ho hf).trans (standing_upholds ..).symm
  refine congrArg₂ Built.mk hschema (h'.diagnostics_eq_nil haccepted hkept fun o hmem => ?_)
  rw [standing_upholds] at hmem
  rw [hschema]
  exact (List.mem_filter.1 hmem).2

/-- Without the dropped view of clerks and the repeated city; the repeated office stays in. -/
theorem rebuild_of_thinned_offices :
    let objects := offices.objectDeclarations .strict
    let fields := offices.fieldDeclarations
    let b := (build offices.resolver objects fields).run
    let b' := (build offices.resolver objects.dropLast (fields.eraseIdx 2)).run
    let upheldObjects := standing b.schema.Upholds (judge (objectVerdict offices.resolver) objects)
    let upheldFields := standing b.schema.Upholds (judge (fieldVerdict offices.resolver objects) fields)
    b.diagnostics.map (·.kind) = [.object .duplicate, .field .duplicate, .object .noFields] ∧
      b'.diagnostics.map (·.kind) = [.object .duplicate] ∧ b'.schema = b.schema ∧
      upheldObjects = objects.take 2 ∧ upheldFields = fields.eraseIdx 2 ∧
      (build offices.resolver upheldObjects upheldFields).run = ⟨b.schema, []⟩ := by
  intro objects fields b b' upheldObjects upheldFields
  obtain ⟨hthinned, hstanding⟩ := rebuild_of_thinned offices.resolver objects fields rfl
  have ho : judge (objectVerdict offices.resolver) objects =
      objects.zip [none, none, some .duplicate, none] := by decide +kernel
  have hf : judge (fieldVerdict offices.resolver objects) fields =
      fields.zip [none, none, some .duplicate, none] := by decide +kernel
  have ho' : Thinned b.schema.Upholds (judge (objectVerdict offices.resolver) objects) objects.dropLast := by
    rw [ho]
    exact .keep (.keep (.keep (.drop (by decide +kernel) .nil)))
  have hf' : Thinned b.schema.Upholds (judge (fieldVerdict offices.resolver objects) fields)
      (fields.eraseIdx 2) := by
    rw [hf]
    exact .keep (.keep (.drop (by decide +kernel) (.keep .nil)))
  exact ⟨by decide +kernel, by decide +kernel, hthinned _ _ ho' hf', by decide +kernel, by decide +kernel,
    hstanding⟩

end RuleTable
end Soql
