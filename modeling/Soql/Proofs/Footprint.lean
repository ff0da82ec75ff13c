import Soql.Proofs.Expansion
import Soql.Proofs.Reached
import Soql.Proofs.Reference

/-!
# What an expansion finds out

The objects that a memo knows are closed under references, as far as they have fields
(`Schema.Closed`), and every expansion keeps this, so it holds of all memos that calls leave behind
(`Reached.closed`). An expansion that succeeds comes to know exactly the objects with fields that its
own object reaches (`Closed.adds_of_project_eq`).
-/

namespace Soql

def Memo.Knows (m : Memo) (o : Object) : Prop := ∃ paths, m.paths? (ident o) = some paths

variable {m m' : Memo} {o x : Object}

theorem Memo.not_knows_empty : ¬ Memo.Knows ∅ o := fun ⟨_, h⟩ => nomatch h

theorem Memo.not_knows_iff : ¬ m.Knows o ↔ m.paths? (ident o) = none := by
  rw [Option.eq_none_iff_forall_ne_some]
  exact not_exists

theorem Memo.knows_remember {i : Ident} {paths : List String} :
    (m.remember i paths).Knows x ↔ i = ident x ∨ m.Knows x := by
  rw [Knows, Knows, paths?_remember]
  by_cases h : i = ident x <;> simp [h]

namespace Schema

variable {s : Schema} {t : Object} {key : String} {f : Field} {fs : List Field}

theorem eq_of_ident_eq (ho : o ∈ s.toList) (hx : x ∈ s.toList) (h : ident o = ident x) : o = x := by
  have e := Index.get?_of_mem ho
  rw [h, Index.get?_of_mem hx] at e
  exact (Option.some.inj e).symm

/-- `x` is the target of one of the fields, or comes after one. -/
def FieldsReach (s : Schema) (key : String) (fs : List Field) (x : Object) : Prop :=
  ∃ f ∈ fs, ∃ t, s.target? key f = some t ∧ s.Reaches t x

theorem reaches_iff : s.Reaches o x ↔ x = o ∨ s.FieldsReach o.key o.fields x := by
  constructor
  · intro h
    rcases h.cases_head with rfl | ⟨t, ⟨f, hf, ht⟩, h⟩
    · exact .inl rfl
    · exact .inr ⟨f, hf, t, ht, h⟩
  · rintro (rfl | ⟨f, hf, t, ht, h⟩)
    · exact .refl
    · exact .head ⟨f, hf, ht⟩ h

theorem not_fieldsReach_nil : ¬ s.FieldsReach key [] x := by simp [FieldsReach]

theorem fieldsReach_leaf (ht : s.target? key f = none) :
    s.FieldsReach key (f :: fs) x ↔ s.FieldsReach key fs x := by
  simp [FieldsReach, ht]

theorem fieldsReach_nested (ht : s.target? key f = some t) :
    s.FieldsReach key (f :: fs) x ↔ s.Reaches t x ∨ s.FieldsReach key fs x := by
  simp [FieldsReach, ht]

/-- What is reached from a known object is known, if it has fields. -/
def Closed (s : Schema) (m : Memo) : Prop :=
  ∀ o ∈ s.toList, m.Knows o → ∀ x, s.Reaches o x → x.fields ≠ [] → m.Knows x

theorem closed_empty : s.Closed ∅ := fun _ _ h => absurd h Memo.not_knows_empty

/-- `m'` knows what `m` knows and what has fields and satisfies `reached`. -/
def Adds (s : Schema) (reached : Object → Prop) (m m' : Memo) : Prop :=
  ∀ x ∈ s.toList, m'.Knows x ↔ m.Knows x ∨ reached x ∧ x.fields ≠ []

theorem Closed.adds_of_knows (h : s.Closed m) (ho : o ∈ s.toList) (hk : m.Knows o) :
    s.Adds (s.Reaches o) m m := fun x _ =>
  ⟨.inl, fun hx => hx.elim id fun ⟨hr, hf⟩ => h o ho hk x hr hf⟩

theorem Adds.remember (ho : o ∈ s.toList) (hf : o.fields ≠ [])
    (h : s.Adds (s.FieldsReach o.key o.fields) m m') (paths : List String) :
    s.Adds (s.Reaches o) m (m'.remember (ident o) paths) := by
  intro x hx
  have e : ident o = ident x ↔ x = o := ⟨fun e => (eq_of_ident_eq ho hx e).symm, fun e => e ▸ rfl⟩
  rw [Memo.knows_remember, e, h x hx, reaches_iff]
  constructor
  · rintro (rfl | hk | ⟨hr, hx⟩)
    · exact .inr ⟨.inl rfl, hf⟩
    · exact .inl hk
    · exact .inr ⟨.inr hr, hx⟩
  · rintro (hk | ⟨rfl | hr, hx⟩)
    · exact .inr (.inl hk)
    · exact .inl rfl
    · exact .inr (.inr ⟨hr, hx⟩)

theorem Closed.remember (hc : s.Closed m') (ho : o ∈ s.toList)
    {paths : List String} (h : s.Adds (s.Reaches o) m (m'.remember (ident o) paths)) :
    s.Closed (m'.remember (ident o) paths) := by
  intro p hp hk x hx hf
  rcases Memo.knows_remember.1 hk with e | hk
  · obtain rfl := eq_of_ident_eq ho hp e
    exact (h x (hx.mem ho)).2 (.inr ⟨hx, hf⟩)
  · exact Memo.knows_remember.2 (.inr (hc p hp hk x hx hf))

theorem footprintRules : s.Rules
    (fun o _ m r m' => o ∈ s.toList → s.Closed m →
      s.Closed m' ∧ ∀ a, r = .ok a → s.Adds (s.Reaches o) m m')
    (fun key fs _ m r m' => s.Closed m →
      s.Closed m' ∧ ∀ paths, r = .ok paths → s.Adds (s.FieldsReach key fs) m m') where
  known hm ho h := ⟨h, fun _ _ => h.adds_of_knows ho ⟨_, hm⟩⟩
  active _ _ _ h := ⟨h, fun _ => nofun⟩
  bare {o _ _} _ _ hf _ h := by
    refine ⟨h, fun _ _ x _ => ⟨.inl, ?_⟩⟩
    rintro (hk | ⟨hr, hx⟩)
    · exact hk
    · rcases hr.cases_head with rfl | ⟨t, ht, -⟩
      · exact absurd hf hx
      · exact absurd ht (not_refers_of_fields hf)
  failed _ _ _ hQ _ h := ⟨(hQ h).1, fun _ => nofun⟩
  done {o _ _ paths _} _ _ hf hQ ho h := by
    have ha := ((hQ h).2 _ rfl).remember ho hf paths
    exact ⟨(hQ h).1.remember ho ha, fun _ _ => ha⟩
  nil h := ⟨h, fun _ _ x _ => by simp [not_fieldsReach_nil]⟩
  leaf ht hQ h := by
    refine ⟨(hQ h).1, fun _ hr x hx => ?_⟩
    obtain ⟨paths, hp, -⟩ := map_eq_ok_iff.1 hr
    rw [(hQ h).2 paths hp x hx, fieldsReach_leaf ht]
  broken ht _ hP h := ⟨(hP (mem_of_target? ht) h).1, fun _ => nofun⟩
  nested ht _ hP hQ h := by
    obtain ⟨h₁, ha⟩ := hP (mem_of_target? ht) h
    refine ⟨(hQ h₁).1, fun _ hr x hx => ?_⟩
    obtain ⟨paths, hp, -⟩ := map_eq_ok_iff.1 hr
    rw [(hQ h₁).2 paths hp x hx, ha _ rfl x hx, fieldsReach_nested ht, or_and_right, or_assoc]

theorem keeps_closed : s.Keeps s.Closed where
  project h ho active := (footprintRules.project _ active _ ho h).1
  projectAll h key fs active := (footprintRules.projectAll key fs active _ h).1

theorem Reached.closed (h : s.Reached m) : s.Closed m := keeps_closed.reached closed_empty h

theorem Closed.adds_of_project_eq (h : s.Closed m) (ho : o ∈ s.toList) {active : List String}
    {a : Option (List String)} {t : Traversal} (he : s.project o ⟨active, m⟩ = (.ok a, t)) :
    s.Adds (s.Reaches o) m t.memo := by
  have h' := (footprintRules.project o active m ho h).2
  rw [he] at h'
  exact h' a rfl

end Schema
end Soql
