import Soql.Proofs.Entries
import Soql.Proofs.Verdicts
import Soql.Run

/-!
# When a command fails

Both commands read the same manifest and count the same reports of its build: an error for each
declaration that is rejected, a warning for each accepted object that is dropped for want of fields
(`RuleTable.Obeys.exists_error_iff`, `RuleTable.Obeys.exists_warning_iff`). A compilation counts the
roots that fail as well, each of them when its turn comes (`Schema.FailsInTurn`); a failed root is an
error and no warning, so it can only add to the errors of the check, whatever roots are asked for. Main
statement: `run_check_compile`.
-/

namespace Soql

/-! ### Summaries -/

namespace Summary

theorem isFailure_ofList_iff {ds : List Diagnostic} {warningsAsErrors : Bool} :
    (ofList ds).isFailure warningsAsErrors = true ↔
      (∃ d ∈ ds, d.severity = .error) ∨
        warningsAsErrors = true ∧ ∃ d ∈ ds, d.severity = .warning := by
  simp [isFailure, ofList, List.countP_pos_iff]

theorem errors_append_of_errors {ds es : List Diagnostic} (h : ∀ d ∈ es, d.severity = .error) :
    (ofList (ds ++ es)).errors = (ofList ds).errors + es.length := by
  have hes : es.countP (·.severity = .error) = es.length :=
    List.countP_eq_length.2 fun d hd => decide_eq_true (h d hd)
  simp only [ofList, List.countP_append, hes]

theorem warnings_append_of_errors {ds es : List Diagnostic} (h : ∀ d ∈ es, d.severity = .error) :
    (ofList (ds ++ es)).warnings = (ofList ds).warnings := by
  have hes : es.countP (·.severity = .warning) = 0 :=
    List.countP_eq_zero.2 fun d hd => by simp [h d hd]
  simp only [ofList, List.countP_append, hes, Nat.add_zero]

end Summary

/-! ### The reports of a build -/

namespace RuleTable

section
variable (r : Resolver Id) (objects : List ObjectDeclaration) (fields : List FieldDeclaration)

/-- Something is said against a declaration. -/
def Rejects : Prop :=
  (∃ o fault, (o, some fault) ∈ judgedObjects r objects) ∨
    ∃ f fault, (f, some fault) ∈ judgedFields r objects fields

/-- An accepted object is left without fields. -/
def Drops : Prop :=
  ∃ o ∈ acceptedObjects r objects, fieldsOf r (acceptedFields r objects fields) o = []

end

variable {r : Resolver Id} {objects : List ObjectDeclaration} {fields : List FieldDeclaration}
  {o : ObjectDeclaration} {b : Built}

theorem severity_objectReport {fault : ObjectFault} (h : (o, some fault) ∈ judgedObjects r objects) :
    (objectReport r o fault).severity = .error := by
  obtain ⟨before, hv⟩ := mem_judge h
  rcases eq_of_objectFault? hv.symm with rfl | rfl <;> rfl

theorem mem_reports_iff {α φ : Type} {judged : List (α × Option φ)} {report : α → φ → Diagnostic}
    {d : Diagnostic} : d ∈ judged.filterMap (fun (a, fault) => fault.map (report a)) ↔
      ∃ a fault, (a, some fault) ∈ judged ∧ report a fault = d := by
  simp [List.mem_filterMap]

namespace Obeys

theorem mem_diagnostics_iff (h : Obeys r objects fields b) {d : Diagnostic} : d ∈ b.diagnostics ↔
    (∃ o fault, (o, some fault) ∈ judgedObjects r objects ∧ objectReport r o fault = d) ∨
    (∃ f fault, (f, some fault) ∈ judgedFields r objects fields ∧ fieldReport r f fault = d) ∨
    ∃ o ∈ acceptedObjects r objects, fieldsOf r (acceptedFields r objects fields) o = [] ∧
      objectReport r o .noFields = d := by
  obtain ⟨dropped, hdropped, e⟩ := h.diagnostics_eq
  rw [e, List.mem_append, List.mem_append, mem_reports_iff, mem_reports_iff, List.mem_map, or_assoc]
  simp only [hdropped, and_assoc]

theorem exists_error_iff (h : Obeys r objects fields b) :
    (∃ d ∈ b.diagnostics, d.severity = .error) ↔ Rejects r objects fields := by
  simp only [h.mem_diagnostics_iff]
  constructor
  · rintro ⟨_, ⟨o, fault, ho, rfl⟩ | ⟨f, fault, hf, rfl⟩ | ⟨o, -, -, rfl⟩, hd⟩
    · exact .inl ⟨o, fault, ho⟩
    · exact .inr ⟨f, fault, hf⟩
    · cases hd
  · rintro (⟨o, fault, ho⟩ | ⟨f, fault, hf⟩)
    · exact ⟨_, .inl ⟨o, fault, ho, rfl⟩, severity_objectReport ho⟩
    · exact ⟨_, .inr (.inl ⟨f, fault, hf, rfl⟩), rfl⟩

theorem exists_warning_iff (h : Obeys r objects fields b) :
    (∃ d ∈ b.diagnostics, d.severity = .warning) ↔ Drops r objects fields := by
  simp only [h.mem_diagnostics_iff]
  constructor
  · rintro ⟨_, ⟨o, fault, ho, rfl⟩ | ⟨f, fault, -, rfl⟩ | ⟨o, ho, hnil, rfl⟩, hd⟩
    · rw [severity_objectReport ho] at hd
      cases hd
    · cases hd
    · exact ⟨o, ho, hnil⟩
  · rintro ⟨o, ho, hnil⟩
    exact ⟨_, .inr (.inr ⟨o, ho, hnil, rfl⟩), rfl⟩

end Obeys

end RuleTable

/-! ### The results of roots -/

/-- The root fails in its turn, with what the roots before it have left to be known. -/
def Schema.FailsInTurn (s : Schema) (roots : List Object) (o : Object) : Prop :=
  ∃ before after c d, roots = before ++ o :: after ∧
    (s.compileRoot (ident o) (s.compileEach before ∅).2).1 = some c ∧ c.verdict = .failed d

theorem Compiled.diagnostic?_eq_some_iff {c : Compiled} {d : Diagnostic} :
    c.diagnostic? = some d ↔ c.verdict = .failed d := by
  rw [diagnostic?]
  split
  · rename_i h
    simp [h]
  · rename_i h
    simp [h]

theorem Schema.exists_failed_iff {s : Schema} {roots : List Object} (h : ∀ o ∈ roots, o ∈ s.toList) :
    (∃ c ∈ (s.compileEach roots ∅).1, c.diagnostic?.isSome = true) ↔ ∃ o ∈ roots, s.FailsInTurn roots o := by
  have hroot : ∀ o ∈ roots, ∀ m, s.compileRoot (ident o) m = s.compileObject o m := fun o ho m =>
    compileRoot_of_get? (Index.get?_of_mem (h o ho)) m
  constructor
  · rintro ⟨c, hc, hd⟩
    obtain ⟨d, hd⟩ := Option.isSome_iff_exists.1 hd
    obtain ⟨before, o, after, e, hoc⟩ := mem_compileEach_iff.1 hc
    have ho : o ∈ roots := by simp [e]
    exact ⟨o, ho, before, after, c, d, e, by rwa [hroot o ho], Compiled.diagnostic?_eq_some_iff.1 hd⟩
  · rintro ⟨o, ho, before, after, c, d, e, hc, hv⟩
    rw [hroot o ho] at hc
    exact ⟨c, mem_compileEach_iff.2 ⟨before, o, after, e, hc⟩,
      Option.isSome_iff_exists.2 ⟨d, Compiled.diagnostic?_eq_some_iff.2 hv⟩⟩

theorem Schema.failsInTurn_of_not_acyclic {s : Schema} {roots : List Object} {o : Object}
    (h : ∀ o ∈ roots, o ∈ s.toList) (ho : o ∈ roots) (ha : ¬ s.Acyclic o) : s.FailsInTurn roots o := by
  obtain ⟨before, after, rfl⟩ := List.append_of_mem ho
  have hs : s.Sound (s.compileEach before ∅).2 :=
    keeps_sound.compileEach sound_empty fun p hp => h p (List.mem_append_left _ hp)
  obtain ⟨cycle, hr⟩ := hs.project_eq_error (h o ho) ha []
  refine ⟨before, after, ⟨o.className, o.key, o.name, .failed cycle.diagnostic⟩, cycle.diagnostic,
    rfl, ?_, rfl⟩
  rw [compileRoot_of_get? (Index.get?_of_mem (h o ho)), fst_compileObject, hr]
  rfl

namespace Built

variable (b : Built) (manifest : String) (selection : Selection)

theorem mem_schema_of_mem_roots : ∀ o ∈ selection.roots b.schema, o ∈ b.schema.toList :=
  fun _ ho => (Selection.mem_roots.1 ho).1

/-- Every root that is asked for has its entry. -/
theorem idents_compiled (hf : ∀ p ∈ b.schema.toList, p.fields ≠ []) :
    (b.compile manifest selection).compiled.map (fun c => (⟨c.className, c.key⟩ : Ident)) =
      (selection.roots b.schema).map ident := by
  rw [compiled_compile]
  exact Schema.idents_eq_of_emits
    (Schema.settled_empty.emits hf (b.mem_schema_of_mem_roots selection)).2.2

/-- What is said of a root is an error. -/
theorem severity_of_mem_failures {d : Diagnostic}
    (hd : d ∈ (b.compile manifest selection).compiled.filterMap (·.diagnostic?)) :
    d.severity = .error := by
  obtain ⟨c, hc, hcd⟩ := List.mem_filterMap.1 hd
  obtain ⟨before, o, after, -, ho⟩ := Schema.mem_compileEach_iff.1 hc
  rw [Schema.fst_compileObject] at ho
  obtain ⟨cycle, -, rfl⟩ := Schema.entry_failed ho (Compiled.diagnostic?_eq_some_iff.1 hcd)
  rfl

theorem errors_compile : (b.compile manifest selection).summary.errors =
    (b.check manifest).summary.errors +
      (b.compile manifest selection).compiled.countP (·.diagnostic?.isSome) := by
  rw [summary_compile,
    Summary.errors_append_of_errors fun _ => b.severity_of_mem_failures manifest selection,
    List.length_filterMap_eq_countP]
  rfl

theorem warnings_compile :
    (b.compile manifest selection).summary.warnings = (b.check manifest).summary.warnings :=
  Summary.warnings_append_of_errors fun _ => b.severity_of_mem_failures manifest selection

variable {b manifest selection} {warningsAsErrors : Bool}

theorem isFailure_check_iff {r : Resolver Id} {objects : List ObjectDeclaration}
    {fields : List FieldDeclaration} (h : RuleTable.Obeys r objects fields b) :
    (b.check manifest).summary.isFailure warningsAsErrors = true ↔
      RuleTable.Rejects r objects fields ∨
        warningsAsErrors = true ∧ RuleTable.Drops r objects fields := by
  rw [← h.exists_error_iff, ← h.exists_warning_iff]
  exact Summary.isFailure_ofList_iff

theorem isFailure_compile_iff :
    (b.compile manifest selection).summary.isFailure warningsAsErrors = true ↔
      (b.check manifest).summary.isFailure warningsAsErrors = true ∨
        ∃ o ∈ selection.roots b.schema, b.schema.FailsInTurn (selection.roots b.schema) o := by
  rw [← Schema.exists_failed_iff (b.mem_schema_of_mem_roots selection), ← b.compiled_compile manifest,
    ← List.countP_pos_iff]
  simp only [Summary.isFailure, errors_compile, warnings_compile, Bool.or_eq_true, Bool.and_eq_true,
    decide_eq_true_eq, Nat.add_pos_iff_pos_or_pos]
  exact or_right_comm

end Built

namespace Command

variable (files : FileAccess Id) (settings : Settings) (format : Format) (path : String)

theorem run_check : ((check path).run files settings format).run =
    (Manifest.load files path).run.map fun manifest =>
      ((manifest.build settings.typeHandling).check path).output format settings.warningsAsErrors := rfl

theorem run_compile (selection : Selection) :
    ((compile path selection).run files settings format).run =
      (Manifest.load files path).run.map fun manifest =>
        ((manifest.build settings.typeHandling).compile path selection).output format
          settings.warningsAsErrors := rfl

end Command

/-- Either a check and a compilation of one manifest, whatever roots are asked for, both fail to load
it, with the same fault. Or both report the same diagnostics and count the same warnings, and the
compilation, which has an entry for each root that was asked for, counts an error more for each that
failed. The check fails just when a declaration was rejected, or an accepted object was dropped and
warnings count as errors; the compilation fails just when the check does or a root that was asked for
fails in its turn, as every root does that reaches a cycle. -/
theorem run_check_compile (files : FileAccess Id) (settings : Settings) (format format' : Format)
    (path : String) (selection : Selection) :
    (∃ fault, ((Command.check path).run files settings format).run = .error fault ∧
      ((Command.compile path selection).run files settings format').run = .error fault) ∨
    ∃ manifest built roots checked compiled, (Manifest.load files path).run = .ok manifest ∧
      built = manifest.build settings.typeHandling ∧
      roots = built.schema.toList.filter (fun o => selection.includes (ident o)) ∧
      checked = built.check path ∧ compiled = built.compile path selection ∧
      ((Command.check path).run files settings format).run =
        .ok (checked.output format settings.warningsAsErrors) ∧
      ((Command.compile path selection).run files settings format').run =
        .ok (compiled.output format' settings.warningsAsErrors) ∧
      compiled.compiled = (built.schema.compileEach roots ∅).1 ∧
      compiled.compiled.map (fun c => (⟨c.className, c.key⟩ : Ident)) = roots.map ident ∧
      compiled.diagnostics = checked.diagnostics ∧
      compiled.summary.warnings = checked.summary.warnings ∧
      compiled.summary.errors =
        checked.summary.errors + compiled.compiled.countP (·.diagnostic?.isSome) ∧
      ((checked.output format settings.warningsAsErrors).failed = true ↔
        RuleTable.Rejects manifest.resolver (manifest.objectDeclarations settings.typeHandling)
            manifest.fieldDeclarations ∨
          settings.warningsAsErrors = true ∧
            RuleTable.Drops manifest.resolver (manifest.objectDeclarations settings.typeHandling)
              manifest.fieldDeclarations) ∧
      ((compiled.output format' settings.warningsAsErrors).failed = true ↔
        (checked.output format settings.warningsAsErrors).failed = true ∨
          ∃ o ∈ roots, built.schema.FailsInTurn roots o) ∧
      ∀ o ∈ roots, ¬ built.schema.Acyclic o → built.schema.FailsInTurn roots o := by
  rw [Command.run_check, Command.run_compile]
  cases (Manifest.load files path).run with
  | error fault => exact .inl ⟨fault, rfl, rfl⟩
  | ok manifest =>
    have hobeys : RuleTable.Obeys manifest.resolver (manifest.objectDeclarations settings.typeHandling)
        manifest.fieldDeclarations (manifest.build settings.typeHandling) := RuleTable.obeys_build _ _ _
    have hf : ∀ p ∈ (manifest.build settings.typeHandling).schema.toList, p.fields ≠ [] := fun p hp =>
      fields_ne_nil_of_build (r := manifest.resolver) rfl hp
    exact .inr ⟨manifest, _, _, _, _, rfl, rfl, rfl, rfl, rfl, rfl, rfl, Built.compiled_compile ..,
      Built.idents_compiled _ _ _ hf, rfl, Built.warnings_compile .., Built.errors_compile ..,
      Built.isFailure_check_iff hobeys, Built.isFailure_compile_iff, fun _ ho ha =>
        Schema.failsInTurn_of_not_acyclic (Built.mem_schema_of_mem_roots _ selection) ho ha⟩

end Soql
