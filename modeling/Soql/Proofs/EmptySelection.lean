import Soql.Proofs.QueryShape

/-!
# Queries that select nothing

Only an object without fields projects to nothing at all, and then it has no query; as the target of
a single reference it is replaced by the name of the field. Having fields is not enough for there to
be something to select, though: a collection of an object without fields adds nothing, and a single
reference adds no more than its target does. What an object selects is empty just when single
references from it never get past such collections (`Schema.Hollow`, `plainPaths_eq_nil_iff`).
A hollow object with fields still answers with a query, one whose list is empty, and a single
reference to it adds nothing. Main statement: `query_of_reached`.
-/

namespace Soql.Schema

variable {s : Schema} {o t : Object} {m : Memo} {active : List String} {key : String} {f : Field}

/-- `o` refers to `t` through a field that is no collection. -/
def RefersSingly (s : Schema) (o t : Object) : Prop :=
  ∃ f ∈ o.fields, f.isCollection = false ∧ s.target? o.key f = some t

abbrev ReachesSingly (s : Schema) : Object → Object → Prop := Relation.ReflTransGen s.RefersSingly

/-- Along single references from `o` there are only collections of objects without fields and
references to objects with fields: nothing that could be selected. -/
def Hollow (s : Schema) (o : Object) : Prop :=
  ∀ x, s.ReachesSingly o x → ∀ f ∈ x.fields,
    ∃ t, s.target? x.key f = some t ∧ (f.isCollection = true ↔ t.fields = [])

/-- A collection of an object without fields, or a single reference to a hollow object that has
some. -/
def Vanishes (s : Schema) (key : String) (f : Field) : Prop :=
  ∃ t, s.target? key f = some t ∧
    (f.isCollection = true ∧ t.fields = [] ∨ f.isCollection = false ∧ t.fields ≠ [] ∧ s.Hollow t)

/-- From `o` on, single references lead to no collection of objects without fields. -/
def NoBareCollections (s : Schema) (o : Object) : Prop :=
  ∀ x, s.ReachesSingly o x → ∀ f ∈ x.fields, f.isCollection = true →
    ∀ t, s.target? x.key f = some t → t.fields ≠ []

theorem Hollow.of_refersSingly (h : s.Hollow o) (ht : s.RefersSingly o t) : s.Hollow t :=
  fun x hx => h x (.head ht hx)

theorem hollow_iff : s.Hollow o ↔ ∀ f ∈ o.fields, s.Vanishes o.key f := by
  constructor
  · intro h f hf
    obtain ⟨t, ht, hft⟩ := h o .refl f hf
    cases hc : f.isCollection with
    | true => exact ⟨t, ht, .inl ⟨hc, hft.1 hc⟩⟩
    | false =>
      have hne : t.fields ≠ [] := fun e => by simp [hft.2 e] at hc
      exact ⟨t, ht, .inr ⟨hc, hne, h.of_refersSingly ⟨f, hf, hc, ht⟩⟩⟩
  · intro h x hx f hf
    rcases hx.cases_head with rfl | ⟨t, ⟨g, hg, hc, ht⟩, hx⟩
    · obtain ⟨t, ht, ⟨hc, htf⟩ | ⟨hc, htf, -⟩⟩ := h f hf
      · exact ⟨t, ht, iff_of_true hc htf⟩
      · exact ⟨t, ht, iff_of_false (by simp [hc]) htf⟩
    · obtain ⟨t', ht', ⟨hc', -⟩ | ⟨-, -, hhollow⟩⟩ := h g hg
      · rw [hc] at hc'
        cases hc'
      · obtain rfl : t = t' := Option.some.inj (ht.symm.trans ht')
        exact hhollow x hx f hf

theorem plainField_of_bare_reference (ht : s.target? key f = some t) (hc : f.isCollection = false)
    (hf : t.fields = []) : s.plainField s.plainPaths key f = [f.name] := by
  simp [plainField_eq_expand ht, plain?, hf, Field.expand, hc]

theorem plainField_of_bare_collection (ht : s.target? key f = some t) (hc : f.isCollection = true)
    (hf : t.fields = []) : s.plainField s.plainPaths key f = [] := by
  simp [plainField_eq_expand ht, plain?, hf, Field.expand, hc]

theorem plainField_eq_nil_iff
    (h : ∀ t, s.target? key f = some t → (s.plainPaths t = [] ↔ s.Hollow t)) :
    s.plainField s.plainPaths key f = [] ↔ s.Vanishes key f := by
  cases ht : s.target? key f with
  | none => simp [plainField_of_none ht, Vanishes, ht]
  | some t =>
    by_cases hf : t.fields = [] <;> cases hc : f.isCollection
    · simp [plainField_of_bare_reference ht hc hf, Vanishes, ht, hc, hf]
    · simp [plainField_of_bare_collection ht hc hf, Vanishes, ht, hc, hf]
    · simp [plainField_of_reference ht hc hf, Vanishes, ht, hc, hf, h t ht]
    · simp [plainField_of_collection ht hc hf, Vanishes, ht, hc, hf]

theorem plainPaths_eq_nil_iff (ha : s.Acyclic o) : s.plainPaths o = [] ↔ s.Hollow o := by
  induction ha using Acyclic.induction with
  | step o ha ih =>
    rw [plainPaths_eq ha, List.flatMap_eq_nil_iff, hollow_iff]
    exact forall₂_congr fun f hf => plainField_eq_nil_iff fun t ht => ih t ⟨f, hf, ht⟩

theorem NoBareCollections.not_vanishes (h : s.NoBareCollections o) (ha : s.Acyclic o)
    (hf : f ∈ o.fields) : ¬ s.Vanishes o.key f := by
  induction ha using Acyclic.induction generalizing f with
  | step o ha ih =>
    rintro ⟨t, ht, ⟨hc, htf⟩ | ⟨hc, htf, hhollow⟩⟩
    · exact h o .refl f hf hc t ht htf
    · have htail : s.NoBareCollections t := fun x hx => h x (.head ⟨f, hf, hc, ht⟩ hx)
      obtain ⟨g, hg⟩ := List.exists_mem_of_ne_nil _ htf
      exact ih t ⟨f, hf, ht⟩ htail hg (hollow_iff.1 hhollow g hg)

/-! ### The answers of a query -/

theorem Sound.fst_project_eq_none_iff (h : s.Sound m) (ho : o ∈ s.toList) :
    (s.project o ⟨active, m⟩).1 = .ok none ↔ o.fields = [] ∧ o.name ∉ active := by
  constructor
  · intro hr
    have hf := plain?_eq_none_iff.1 ((sound_project h ho active).2 _ hr).2.symm
    refine ⟨hf, fun ha => ?_⟩
    cases hm : m.paths? (ident o) with
    | none => rw [project_of_active hm ha] at hr; cases hr
    | some paths => simp only [project_eq, hm] at hr; cases hr
  · rintro ⟨hf, ha⟩
    cases hm : m.paths? (ident o) with
    | none => simp [project_eq, hm, ha, hf]
    | some paths => exact absurd hf (plain?_eq_some_iff.1 (h.known ho hm).2).1

/-- There is no query just for an object without fields. A query lists what the fields of its object
add, one after the other. A field adds nothing just when it is a collection of an object without
fields or a single reference to a hollow object with fields; a single reference to an object without
fields adds its own name. So the list is empty just for a hollow object, and neither it nor what a
field adds is empty as long as no collection of an object without fields is reached along single
references. -/
theorem query_of_reached (h : s.Reached m) (ho : o ∈ s.toList) (source : Option String)
    (active : List String) :
    ((s.query o source ⟨active, m⟩).1 = .ok none ↔ o.fields = [] ∧ o.name ∉ active) ∧
    ∀ text, (s.query o source ⟨active, m⟩).1 = .ok (some text) →
      o.fields ≠ [] ∧ ∃ items, (s.project o ⟨active, m⟩).1 = .ok (some items) ∧
        text = queryText items (source.getD o.name) ∧
        items = o.fields.flatMap (s.plainField s.plainPaths o.key) ∧
        (∀ f ∈ o.fields, s.plainField s.plainPaths o.key f = [] ↔ s.Vanishes o.key f) ∧
        (∀ f ∈ o.fields, f.isCollection = false → ∀ t, s.target? o.key f = some t → t.fields = [] →
          s.plainField s.plainPaths o.key f = [f.name]) ∧
        (items = [] ↔ s.Hollow o) ∧
        (s.NoBareCollections o → items ≠ [] ∧ ∀ f ∈ o.fields, s.plainField s.plainPaths o.key f ≠ []) := by
  refine ⟨fst_query_eq_none_iff.trans (h.sound.fst_project_eq_none_iff ho), fun text ht => ?_⟩
  obtain ⟨items, hp, rfl⟩ := fst_query_eq_some_iff.1 ht
  obtain ⟨ha, he⟩ := (sound_project h.sound ho active).2 _ hp
  obtain ⟨hf, rfl⟩ := plain?_eq_some_iff.1 he.symm
  have hfield : ∀ f ∈ o.fields, s.plainField s.plainPaths o.key f = [] ↔ s.Vanishes o.key f :=
    fun f hf => plainField_eq_nil_iff fun t ht => plainPaths_eq_nil_iff (ha.of_refers ⟨f, hf, ht⟩)
  have hempty := plainPaths_eq_nil_iff ha
  refine ⟨hf, _, hp, rfl, plainPaths_eq ha, hfield,
    fun f _ hc t ht htf => plainField_of_bare_reference ht hc htf, hempty,
    fun hn => ⟨fun hnil => ?_, fun f hm hnil => hn.not_vanishes ha hm ((hfield f hm).1 hnil)⟩⟩
  obtain ⟨f, hm⟩ := List.exists_mem_of_ne_nil _ hf
  exact hn.not_vanishes ha hm (hollow_iff.1 (hempty.1 hnil) f hm)

/-- A box holds marks, which have no fields. -/
def box : Object := ⟨"Box", "App.Box", "K", false, .strict, [collectionField "Marks" "App.Mark"]⟩

def shelf : Object :=
  ⟨"Shelf", "App.Shelf", "K", false, .strict,
    [referenceField "Label" "string", referenceField "Box" "App.Box", referenceField "Mark" "App.Mark"]⟩

def storage : Schema := .ofList [box, ⟨"Mark", "App.Mark", "K", false, .strict, []⟩, shelf]

theorem query_of_reached_storage :
    box ∈ storage.toList ∧
      (storage.query box none ⟨[], ∅⟩).1 = .ok (some (queryText [] "Box")) ∧ storage.Hollow box := by
  have hb : box ∈ storage.toList := by decide +kernel
  have hq : (storage.query box none ⟨[], ∅⟩).1 = .ok (some (queryText [] "Box")) := by decide +kernel
  have hp : (storage.project box ⟨[], ∅⟩).1 = .ok (some []) := by decide +kernel
  obtain ⟨-, items, hitems, -, -, -, -, hhollow, -⟩ := (query_of_reached .start hb none []).2 _ hq
  obtain rfl : [] = items := Option.some.inj (Except.ok.inj (hp.symm.trans hitems))
  exact ⟨hb, hq, hhollow.1 rfl⟩

/-- A query may select nothing, and a single reference may leave no trace. -/
theorem query_storage :
    (storage.query box none ⟨[], ∅⟩).1 = .ok (some "SELECT  FROM Box") ∧
      (storage.query shelf none ⟨[], ∅⟩).1 = .ok (some "SELECT Label, Mark FROM Shelf") := by
  decide +kernel

end Soql.Schema
