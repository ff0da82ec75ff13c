import Soql.Proofs.Footprint
import Soql.Proofs.History
import Soql.Proofs.QueryShape

/-!
# When a root gives a query

The guard against cycles goes by names, and two classes may stand for external objects of one name.
An expansion meets `x` for the first time on one way only, on which each object is left by the first
of its fields that leads to `x` (`Schema.FirstWay`), and the active names are then those of the
objects on that way. So a root gives a query just when no object is first met past one of its own
name (`MeetsFresh`, `fst_project_eq_ok_iff`); under distinct names that is the same as to reach no
cycle.
-/

namespace Soql.Schema

variable {s : Schema} {o t u x : Object} {m m' : Memo} {active : List String} {key : String} {f : Field}
  {fs : List Field} {past : List Object}

open Classical in
/-- The first target of the fields from which `x` is reached. -/
noncomputable def firstTo? (s : Schema) (key : String) (fs : List Field) (x : Object) : Option Object :=
  (fs.filterMap (s.target? key)).find? fun t => s.Reaches t x

/-- `x` is first met from `o` past the objects of the list. -/
inductive FirstWay (s : Schema) : Object → List Object → Object → Prop
  | here {o : Object} : s.FirstWay o [] o
  | step {o t x : Object} {past : List Object} (ht : s.firstTo? o.key o.fields x = some t)
    (h : s.FirstWay t past x) : s.FirstWay o (o :: past) x

/-- No object is first met past one of its own name. -/
def MeetsFresh (s : Schema) (o : Object) : Prop :=
  ∀ past x, s.FirstWay o past x → ∀ p ∈ past, p.name ≠ x.name

theorem firstTo?_leaf (ht : s.target? key f = none) :
    s.firstTo? key (f :: fs) x = s.firstTo? key fs x := by
  rw [firstTo?, List.filterMap_cons_none ht, firstTo?]

theorem firstTo?_of_reaches (ht : s.target? key f = some t) (h : s.Reaches t x) :
    s.firstTo? key (f :: fs) x = some t := by
  rw [firstTo?, List.filterMap_cons_some ht, List.find?_cons_of_pos (by simpa using h)]

theorem firstTo?_of_not_reaches (ht : s.target? key f = some t) (h : ¬ s.Reaches t x) :
    s.firstTo? key (f :: fs) x = s.firstTo? key fs x := by
  rw [firstTo?, List.filterMap_cons_some ht, List.find?_cons_of_neg (by simpa using h), firstTo?]

theorem refers_of_firstTo? (h : s.firstTo? o.key o.fields x = some t) : s.Refers o t :=
  let ⟨f, hf, ht⟩ := List.mem_filterMap.1 (List.mem_of_find?_eq_some h)
  ⟨f, hf, ht⟩

namespace FirstWay

theorem reaches (h : s.FirstWay o past x) : s.Reaches o x := by
  induction h with
  | here => exact .refl
  | step ht _ ih => exact .head (refers_of_firstTo? ht) ih

theorem follows (h : s.FirstWay o past x) {p : Object} (hp : p ∈ past) :
    s.Reaches o p ∧ s.Follows p x := by
  induction h with
  | here => cases hp
  | step ht h ih =>
    rcases List.mem_cons.1 hp with rfl | hp
    · exact ⟨.refl, .head' (refers_of_firstTo? ht) h.reaches⟩
    · exact ⟨.head (refers_of_firstTo? ht) (ih hp).1, (ih hp).2⟩

end FirstWay

theorem MeetsFresh.of_distinctNames (hd : s.DistinctNames) (ho : o ∈ s.toList) (ha : s.Acyclic o) :
    s.MeetsFresh o := by
  intro past x hx p hp hn
  obtain ⟨hop, hpx⟩ := hx.follows hp
  have hk : p.key = x.key := (Reaches.key hpx.to_reflTransGen).symm
  obtain rfl := hd p (hop.mem ho) x (hx.reaches.mem ho) hk hn
  exact ha p hop hpx

/-! ### Ways that are clear -/

/-- The ways on which `x` is first met from the targets of the fields. -/
def FieldsWay (s : Schema) (key : String) (fs : List Field) (past : List Object) (x : Object) : Prop :=
  ∃ t, s.firstTo? key fs x = some t ∧ s.FirstWay t past x

/-- What is met on the ways without being known has no active name, and none of those before it. -/
def Clear (active : List String) (m : Memo) (way : List Object → Object → Prop) : Prop :=
  ∀ past x, way past x → ¬ m.Knows x → x.name ∉ active ∧ ∀ p ∈ past, p.name ≠ x.name

theorem firstWay_iff : s.FirstWay o past x ↔
    past = [] ∧ x = o ∨ ∃ rest, past = o :: rest ∧ s.FieldsWay o.key o.fields rest x := by
  constructor
  · rintro (_ | ⟨ht, h⟩)
    · exact .inl ⟨rfl, rfl⟩
    · exact .inr ⟨_, rfl, _, ht, h⟩
  · rintro (⟨rfl, rfl⟩ | ⟨rest, rfl, t, ht, h⟩)
    · exact .here
    · exact .step ht h

theorem fieldsWay_leaf (ht : s.target? key f = none) :
    s.FieldsWay key (f :: fs) past x ↔ s.FieldsWay key fs past x := by
  rw [FieldsWay, firstTo?_leaf ht, FieldsWay]

theorem fieldsWay_nested (ht : s.target? key f = some t) :
    s.FieldsWay key (f :: fs) past x ↔
      s.FirstWay t past x ∨ ¬ s.Reaches t x ∧ s.FieldsWay key fs past x := by
  by_cases hr : s.Reaches t x
  · simp [FieldsWay, firstTo?_of_reaches ht hr, hr]
  · rw [FieldsWay, firstTo?_of_not_reaches ht hr]
    have hn : ¬ s.FirstWay t past x := fun h => hr h.reaches
    simp [FieldsWay, hr, hn]

theorem FieldsWay.mem (h : s.FieldsWay key fs past x) : x ∈ s.toList := by
  obtain ⟨t, ht, h⟩ := h
  obtain ⟨f, -, ht⟩ := List.mem_filterMap.1 (List.mem_of_find?_eq_some ht)
  exact h.reaches.mem (mem_of_target? ht)

namespace Clear

theorem of_knows (hf : ∀ p ∈ s.toList, p.fields ≠ []) (hc : s.Closed m) (ho : o ∈ s.toList)
    (hk : m.Knows o) : Clear active m (s.FirstWay o) := by
  intro past x h hx
  exact absurd (hc o ho hk x h.reaches (hf x (h.reaches.mem ho))) hx

theorem name_notMem (h : Clear active m (s.FirstWay o)) (hk : ¬ m.Knows o) : o.name ∉ active :=
  (h [] o .here hk).1

theorem object_iff (hk : ¬ m.Knows o) (hn : o.name ∉ active) : Clear active m (s.FirstWay o) ↔
    Clear (o.name :: active) m (s.FieldsWay o.key o.fields) := by
  constructor
  · intro h past x hx hk
    obtain ⟨ha, hp⟩ := h (o :: past) x (firstWay_iff.2 (.inr ⟨past, rfl, hx⟩)) hk
    refine ⟨fun hm => ?_, fun p hpp => hp p (List.mem_cons_of_mem _ hpp)⟩
    rcases List.mem_cons.1 hm with e | hm
    · exact hp o (List.mem_cons_self ..) e.symm
    · exact ha hm
  · intro h past x hx hk
    rcases firstWay_iff.1 hx with ⟨rfl, rfl⟩ | ⟨rest, rfl, hw⟩
    · exact ⟨hn, fun _ hp => nomatch hp⟩
    · obtain ⟨ha, hp⟩ := h rest x hw hk
      refine ⟨fun hm => ha (List.mem_cons_of_mem _ hm), fun p hpp e => ?_⟩
      rcases List.mem_cons.1 hpp with rfl | hpp
      · exact ha (e ▸ List.mem_cons_self ..)
      · exact hp p hpp e

theorem nil : Clear active m (s.FieldsWay key []) := fun _ _ ⟨_, ht, _⟩ => nomatch ht

theorem leaf_iff (ht : s.target? key f = none) :
    Clear active m (s.FieldsWay key (f :: fs)) ↔ Clear active m (s.FieldsWay key fs) := by
  simp only [Clear, fieldsWay_leaf ht]

theorem head (ht : s.target? key f = some t) (h : Clear active m (s.FieldsWay key (f :: fs))) :
    Clear active m (s.FirstWay t) :=
  fun past x hx => h past x ((fieldsWay_nested ht).2 (.inl hx))

theorem nested_iff (hf : ∀ p ∈ s.toList, p.fields ≠ []) (ht : s.target? key f = some t)
    (ha : s.Adds (s.Reaches t) m m') : Clear active m (s.FieldsWay key (f :: fs)) ↔
      Clear active m (s.FirstWay t) ∧ Clear active m' (s.FieldsWay key fs) := by
  -- what the first target leads to is known by the time the other fields are come to
  have hk : ∀ {past x}, s.FieldsWay key fs past x → (¬ m'.Knows x ↔ ¬ m.Knows x ∧ ¬ s.Reaches t x) := by
    intro past x hx
    rw [ha x hx.mem, not_or, and_iff_left (hf x hx.mem)]
  constructor
  · intro h
    refine ⟨h.head ht, fun past x hx hx' => ?_⟩
    obtain ⟨hm, hr⟩ := (hk hx).1 hx'
    exact h past x ((fieldsWay_nested ht).2 (.inr ⟨hr, hx⟩)) hm
  · rintro ⟨ht', hfs⟩ past x hx hm
    rcases (fieldsWay_nested ht).1 hx with hx | ⟨hr, hx⟩
    · exact ht' past x hx hm
    · exact hfs past x hx ((hk hx).2 ⟨hm, hr⟩)

end Clear

theorem isOk_map {α β : Type} {r : Except Cycle α} {g : α → β} :
    (∃ b, r.map g = .ok b) ↔ ∃ a, r = .ok a := by
  simp [map_eq_ok_iff]

theorem clearRules (hf : ∀ p ∈ s.toList, p.fields ≠ []) : s.Rules
    (fun o active m r _ => o ∈ s.toList → s.Closed m →
      ((∃ a, r = .ok a) ↔ Clear active m (s.FirstWay o)))
    (fun key fs active m r _ => s.Closed m →
      ((∃ paths, r = .ok paths) ↔ Clear active m (s.FieldsWay key fs))) where
  known hm ho hc := iff_of_true ⟨_, rfl⟩ (.of_knows hf hc ho ⟨_, hm⟩)
  active hm hn _ _ := by
    refine iff_of_false (by simp) fun h => ?_
    exact h.name_notMem (Memo.not_knows_iff.2 hm) hn
  bare _ _ he ho := absurd he (hf _ ho)
  failed hm hn _ hQ _ hc := by
    rw [Clear.object_iff (Memo.not_knows_iff.2 hm) hn, ← hQ hc]
    simp
  done hm hn _ hQ _ hc := by
    rw [Clear.object_iff (Memo.not_knows_iff.2 hm) hn, ← hQ hc]
    simp
  nil _ := iff_of_true ⟨_, rfl⟩ .nil
  leaf ht hQ hc := by
    rw [Clear.leaf_iff ht, ← hQ hc, isOk_map]
  broken ht _ hP hc := by
    refine iff_of_false (by simp) fun h => ?_
    obtain ⟨_, e⟩ := (hP (mem_of_target? ht) hc).2 (h.head ht)
    cases e
  nested ht he hP hQ hc := by
    have ho := mem_of_target? ht
    have ha := hc.adds_of_project_eq ho he
    rw [Clear.nested_iff hf ht ha, ← hP ho hc, ← hQ (keeps_closed.of_project_eq hc ho he), isOk_map]
    simp

/-- The exact condition for an expansion from nothing to succeed. -/
theorem fst_project_eq_ok_iff (hf : ∀ p ∈ s.toList, p.fields ≠ []) (ho : o ∈ s.toList) :
    (∃ a, (s.project o ⟨[], ∅⟩).1 = .ok a) ↔ s.MeetsFresh o := by
  rw [(clearRules hf).project o [] ∅ ho closed_empty]
  constructor
  · exact fun h past x hx => (h past x hx Memo.not_knows_empty).2
  · exact fun h past x hx _ => ⟨List.not_mem_nil, h past x hx⟩

theorem MeetsFresh.acyclic (hf : ∀ p ∈ s.toList, p.fields ≠ []) (ho : o ∈ s.toList)
    (h : s.MeetsFresh o) : s.Acyclic o := by
  obtain ⟨a, e⟩ := (fst_project_eq_ok_iff hf ho).2 h
  exact ((sound_project sound_empty ho []).2 a e).1

/-! ### Roots of a built schema -/

theorem compileRoot_cases (ho : o ∈ s.toList) (hf : o.fields ≠ []) :
    (∃ a, (s.project o ⟨[], ∅⟩).1 = .ok a) ∧
      (∃ c text plan, (s.compileRoot (ident o) ∅).1 = some c ∧ c.verdict = .query text plan) ∨
    (¬ ∃ a, (s.project o ⟨[], ∅⟩).1 = .ok a) ∧
      ∃ c cycle, (s.compileRoot (ident o) ∅).1 = some c ∧ c.verdict = .failed (Cycle.diagnostic cycle) := by
  rw [compileRoot_of_get? (Index.get?_of_mem ho), fst_compileObject]
  cases hr : (s.project o ⟨[], ∅⟩).1 with
  | error c => exact .inr ⟨by simp, _, c, rfl, rfl⟩
  | ok a =>
    obtain ⟨-, rfl⟩ := (sound_project sound_empty ho []).2 a hr
    rw [plain?_eq_some_iff.2 ⟨hf, rfl⟩]
    exact .inl ⟨⟨_, rfl⟩, _, _, _, rfl, rfl⟩

/-- A root of a built schema gives a query just when it reaches no cycle and meets no object past
one of its own name; otherwise it fails with a cycle. Under distinct names the cycles decide. -/
theorem compileRoot_of_build {r : Resolver Id} {objects : List ObjectDeclaration}
    {fields : List FieldDeclaration} {b : Built} (hb : (build r objects fields).run = b)
    (ho : o ∈ b.schema.toList) :
    ((∃ c text plan, (b.schema.compileRoot (ident o) ∅).1 = some c ∧ c.verdict = .query text plan) ↔
      b.schema.Acyclic o ∧ b.schema.MeetsFresh o) ∧
    (¬ (b.schema.Acyclic o ∧ b.schema.MeetsFresh o) →
      ∃ c cycle, (b.schema.compileRoot (ident o) ∅).1 = some c ∧
        c.verdict = .failed (Cycle.diagnostic cycle)) ∧
    (b.schema.DistinctNames →
      ((∃ c text plan, (b.schema.compileRoot (ident o) ∅).1 = some c ∧ c.verdict = .query text plan) ↔
        b.schema.Acyclic o)) := by
  have hf : ∀ p ∈ b.schema.toList, p.fields ≠ [] := fun p hp => fields_ne_nil_of_build (r := r) hb hp
  have hok := fst_project_eq_ok_iff hf ho
  have hq : (∃ c text plan, (b.schema.compileRoot (ident o) ∅).1 = some c ∧
      c.verdict = .query text plan) ↔ b.schema.MeetsFresh o := by
    rcases compileRoot_cases ho (hf o ho) with ⟨h, hc⟩ | ⟨h, c, cycle, hc, hv⟩
    · exact iff_of_true hc (hok.1 h)
    · refine iff_of_false ?_ fun hm => h (hok.2 hm)
      rintro ⟨c', text, plan, hc', hv'⟩
      rw [hc] at hc'
      cases hc'
      rw [hv] at hv'
      cases hv'
  have ha : b.schema.Acyclic o ∧ b.schema.MeetsFresh o ↔ b.schema.MeetsFresh o :=
    and_iff_right_of_imp (MeetsFresh.acyclic hf ho)
  refine ⟨hq.trans ha.symm, fun hn => ?_, fun hd => hq.trans ?_⟩
  · rcases compileRoot_cases ho (hf o ho) with ⟨h, -⟩ | ⟨-, hc⟩
    · exact absurd (ha.2 (hok.1 h)) hn
    · exact hc
  · exact ⟨MeetsFresh.acyclic hf ho, fun ha => .of_distinctNames hd ho ha⟩

/-- The root refers to its owner, and the owner to contacts. -/
theorem compileRoot_of_build_ownedContacts :
    ownedObject "Account" ∈ ownedContactsBuilt.schema.toList ∧
      (ownedContactsBuilt.schema.compileRoot (ident (ownedObject "Account")) ∅).1 =
        some ⟨"App.Account", "K", "Account", .query "SELECT Owner.(SELECT LastName FROM Contacts) FROM Account"
          (ownedContactsBuilt.schema.plan (ownedObject "Account"))⟩ ∧
      ownedContactsBuilt.schema.Acyclic (ownedObject "Account") ∧
      ownedContactsBuilt.schema.MeetsFresh (ownedObject "Account") := by
  have ho : ownedObject "Account" ∈ ownedContactsBuilt.schema.toList := by decide +kernel
  have hc : (ownedContactsBuilt.schema.compileRoot (ident (ownedObject "Account")) ∅).1 =
      some ⟨"App.Account", "K", "Account", .query "SELECT Owner.(SELECT LastName FROM Contacts) FROM Account"
        (ownedContactsBuilt.schema.plan (ownedObject "Account"))⟩ := by decide +kernel
  exact ⟨ho, hc, (compileRoot_of_build rfl ho).1.1 ⟨_, _, _, hc, rfl⟩⟩

/-- Two classes stand for one external object, and a child refers to its parent. -/
def sharedName : Manifest where
  types := [
    ⟨"App.Child", true, true, none, [⟨"Parent", "App.Parent", false, none, false, false, .public, none⟩]⟩,
    ⟨"App.Parent", true, true, none, [⟨"Title", "string", false, none, false, false, .public, none⟩]⟩]
  objects := [⟨"Account", "K", "App.Child", none⟩, ⟨"Account", "K", "App.Parent", none⟩]
  fields := [⟨"Parent", "K", "Parent", "App.Child", none⟩, ⟨"Title", "K", "Title", "App.Parent", none⟩]

def sharedNameBuilt : Built :=
  (build sharedName.resolver (sharedName.objectDeclarations .strict) sharedName.fieldDeclarations).run

def childAccount : Object :=
  ⟨"Account", "App.Child", "K", false, .strict, [referenceField "Parent" "App.Parent"]⟩

def parentAccount : Object :=
  ⟨"Account", "App.Parent", "K", false, .strict, [referenceField "Title" "string"]⟩

/-- The child reaches no cycle, and still its root fails with one. -/
theorem compileRoot_sharedName_failed :
    childAccount ∈ sharedNameBuilt.schema.toList ∧ sharedNameBuilt.schema.Acyclic childAccount ∧
      (sharedNameBuilt.schema.compileRoot (ident childAccount) ∅).1 =
        some ⟨"App.Child", "K", "Account",
          .failed (Cycle.diagnostic ⟨"Account", ident parentAccount⟩)⟩ := by
  have ho : childAccount ∈ sharedNameBuilt.schema.toList := by decide +kernel
  refine ⟨ho, Acyclic.of_falling (fun o => if o = childAccount then 1 else 0) ?_ ho, ?_⟩
  · decide +kernel
  · decide +kernel

end Soql.Schema
