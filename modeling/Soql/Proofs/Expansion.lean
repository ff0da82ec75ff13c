import Soql.Projection.Equations

/-!
# Rules for expansions

A property of expanding objects and field lists that is closed under the ways in which an expansion
can go (`Schema.Rules`) holds of every expansion: `Rules.project`, `Rules.projectAll`. The active
names are given once, since an expansion leaves them as they were.
-/

namespace Soql

section
variable {ε α β : Type} {x : Except ε α} {f : α → β}

theorem map_eq_ok_iff {b : β} : x.map f = .ok b ↔ ∃ a, x = .ok a ∧ f a = b := by
  cases x <;> simp [Except.map]

theorem map_eq_error_iff {e : ε} : x.map f = .error e ↔ x = .error e := by
  cases x <;> simp [Except.map]

end

namespace Schema

variable {s : Schema}
  {P : Object → List String → Memo → Except Cycle (Option (List String)) → Memo → Prop}
  {Q : String → List Field → List String → Memo → Except Cycle (List String) → Memo → Prop}

/-! ### What an expansion answers -/

section
variable {o : Object} {t : Traversal} {key : String} {f : Field} {fs : List Field}

theorem project_of_active (hm : t.memo.paths? (ident o) = none) (ha : o.name ∈ t.active) :
    s.project o t = (.error ⟨o.name, ident o⟩, t) := by
  simp only [project_eq, hm, if_pos ha]

theorem fst_project_of_fields (hm : t.memo.paths? (ident o) = none) (ha : o.name ∉ t.active)
    (hf : o.fields ≠ []) :
    (s.project o t).1 = (s.projectAll o.key o.fields ⟨o.name :: t.active, t.memo⟩).1.map some := by
  simp only [project_eq, hm, if_neg ha, List.isEmpty_iff, if_neg hf]
  split <;> rename_i e <;> rw [e] <;> rfl

theorem fst_projectAll_leaf (ht : s.target? key f = none) :
    (s.projectAll key (f :: fs) t).1 = (s.projectAll key fs t).1.map ([f.name] ++ ·) := by
  rw [projectAll, ht]
  rfl

theorem fst_projectAll_broken {c : Cycle} (ht : s.target? key f = some o)
    (h : (s.project o t).1 = .error c) : (s.projectAll key (f :: fs) t).1 = .error c := by
  rw [projectAll, ht]
  obtain ⟨r, t', e⟩ : ∃ r t', s.project o t = (r, t') := ⟨_, _, rfl⟩
  obtain rfl : r = .error c := by rw [← h, e]
  simp only [e]

theorem fst_projectAll_nested {paths : Option (List String)} (ht : s.target? key f = some o)
    (h : (s.project o t).1 = .ok paths) :
    (s.projectAll key (f :: fs) t).1 =
      (s.projectAll key fs ⟨t.active, (s.project o t).2.memo⟩).1.map (f.expand paths ++ ·) := by
  have ha := active_project (s := s) o t
  rw [projectAll, ht]
  obtain ⟨r, t', e⟩ : ∃ r t', s.project o t = (r, t') := ⟨_, _, rfl⟩
  obtain rfl : r = .ok paths := by rw [← h, e]
  rw [e] at ha
  simp only [e, ← ha]
  rfl

end

/-! ### What a query answers -/

section
variable {o : Object} {t : Traversal} {source : Option String}

theorem fst_query (o : Object) (source : Option String) (t : Traversal) : (s.query o source t).1 =
    (s.project o t).1.map (·.map (queryText · (source.getD o.name))) := rfl

theorem fst_query_eq_some_iff {text : String} : (s.query o source t).1 = .ok (some text) ↔
    ∃ paths, (s.project o t).1 = .ok (some paths) ∧ text = queryText paths (source.getD o.name) := by
  rw [fst_query, map_eq_ok_iff]
  constructor
  · rintro ⟨a, ha, e⟩
    obtain ⟨paths, rfl, rfl⟩ := Option.map_eq_some_iff.1 e
    exact ⟨paths, ha, rfl⟩
  · rintro ⟨paths, hp, rfl⟩
    exact ⟨some paths, hp, rfl⟩

theorem fst_query_eq_none_iff :
    (s.query o source t).1 = .ok none ↔ (s.project o t).1 = .ok none := by
  simp only [fst_query, map_eq_ok_iff, Option.map_eq_none_iff, exists_eq_right]

theorem fst_query_eq_error_iff {c : Cycle} :
    (s.query o source t).1 = .error c ↔ (s.project o t).1 = .error c := map_eq_error_iff

end

/-! ### The rules -/

/-- `P o active m r m'`: expanding `o` under the active names gives `r` and turns `m` into `m'`;
`Q` says the same of the fields of an object with the given key. -/
structure Rules (s : Schema)
    (P : Object → List String → Memo → Except Cycle (Option (List String)) → Memo → Prop)
    (Q : String → List Field → List String → Memo → Except Cycle (List String) → Memo → Prop) : Prop where
  known : ∀ {o active m paths}, m.paths? (ident o) = some paths → P o active m (.ok (some paths)) m
  active : ∀ {o active m}, m.paths? (ident o) = none → o.name ∈ active →
    P o active m (.error ⟨o.name, ident o⟩) m
  bare : ∀ {o active m}, m.paths? (ident o) = none → o.name ∉ active → o.fields = [] →
    P o active m (.ok none) m
  failed : ∀ {o active m c m'}, m.paths? (ident o) = none → o.name ∉ active → o.fields ≠ [] →
    Q o.key o.fields (o.name :: active) m (.error c) m' → P o active m (.error c) m'
  done : ∀ {o active m paths m'}, m.paths? (ident o) = none → o.name ∉ active → o.fields ≠ [] →
    Q o.key o.fields (o.name :: active) m (.ok paths) m' →
      P o active m (.ok (some paths)) (m'.remember (ident o) paths)
  nil : ∀ {key active m}, Q key [] active m (.ok []) m
  leaf : ∀ {key f fs active m r m'}, s.target? key f = none → Q key fs active m r m' →
    Q key (f :: fs) active m (r.map ([f.name] ++ ·)) m'
  broken : ∀ {key f fs o active m c m'}, s.target? key f = some o →
    s.project o ⟨active, m⟩ = (.error c, ⟨active, m'⟩) → P o active m (.error c) m' →
      Q key (f :: fs) active m (.error c) m'
  nested : ∀ {key f fs o active m paths m₁ r m'}, s.target? key f = some o →
    s.project o ⟨active, m⟩ = (.ok paths, ⟨active, m₁⟩) → P o active m (.ok paths) m₁ →
      Q key fs active m₁ r m' → Q key (f :: fs) active m (r.map (f.expand paths ++ ·)) m'

namespace Rules

theorem projectFields (h : s.Rules P Q)
    {resolve : Object → Traversal → Option (Outcome (Option (List String)))}
    (hr : ∀ {o t x}, resolve o t = some x →
      s.project o t = x ∧ x.2.active = t.active ∧ P o t.active t.memo x.1 x.2.memo)
    {key : String} {fs : List Field} {t : Traversal} {x : Outcome (List String)}
    (hx : s.projectFields resolve key fs t = some x) :
    x.2.active = t.active ∧ Q key fs t.active t.memo x.1 x.2.memo := by
  induction fs generalizing t x with
  | nil =>
    obtain rfl := Option.some.inj hx
    exact ⟨rfl, h.nil⟩
  | cons f fs ih =>
    rw [Schema.projectFields] at hx
    split at hx
    · rename_i ht
      obtain ⟨y, hy, rfl⟩ := Option.map_eq_some_iff.1 hx
      exact ⟨(ih hy).1, h.leaf ht (ih hy).2⟩
    · rename_i o ht
      split at hx
      · cases hx
      · rename_i c t' e
        obtain rfl := Option.some.inj hx
        obtain ⟨he, ha, hP⟩ := hr e
        have ha : t'.active = t.active := ha
        exact ⟨ha, h.broken ht (he.trans (by rw [← ha])) hP⟩
      · rename_i paths t' e
        obtain ⟨he, ha, hP⟩ := hr e
        have ha : t'.active = t.active := ha
        obtain ⟨y, hy, rfl⟩ := Option.map_eq_some_iff.1 hx
        obtain ⟨hb, hQ⟩ := ih hy
        rw [ha] at hb hQ
        exact ⟨hb, h.nested ht (he.trans (by rw [← ha])) hP hQ⟩

theorem projectWithin (h : s.Rules P Q) {n : Nat} {o : Object} {t : Traversal}
    {x : Outcome (Option (List String))} (hx : s.projectWithin n o t = some x) :
    x.2.active = t.active ∧ P o t.active t.memo x.1 x.2.memo := by
  induction n generalizing o t x with
  | zero => cases hx
  | succ n ih =>
    rw [Schema.projectWithin] at hx
    split at hx
    · rename_i paths hm
      obtain rfl := Option.some.inj hx
      exact ⟨rfl, h.known hm⟩
    · rename_i hm
      split at hx
      · rename_i ha
        obtain rfl := Option.some.inj hx
        exact ⟨rfl, h.active hm ha⟩
      · rename_i ha
        split at hx
        · rename_i hf
          obtain rfl := Option.some.inj hx
          exact ⟨rfl, h.bare hm ha (List.isEmpty_iff.1 hf)⟩
        · rename_i hf
          have hf : o.fields ≠ [] := fun e => hf (List.isEmpty_iff.2 e)
          split at hx
          · cases hx
          · rename_i c t' e
            obtain rfl := Option.some.inj hx
            obtain ⟨hb, hQ⟩ := h.projectFields (fun e => ⟨project_eq_of_projectWithin e, ih e⟩) e
            have hb : t'.active = o.name :: t.active := hb
            exact ⟨by simp [hb], h.failed hm ha hf hQ⟩
          · rename_i paths t' e
            obtain rfl := Option.some.inj hx
            obtain ⟨hb, hQ⟩ := h.projectFields (fun e => ⟨project_eq_of_projectWithin e, ih e⟩) e
            have hb : t'.active = o.name :: t.active := hb
            exact ⟨by simp [hb], h.done hm ha hf hQ⟩

theorem project (h : s.Rules P Q) (o : Object) (active : List String) (m : Memo) :
    P o active m (s.project o ⟨active, m⟩).1 (s.project o ⟨active, m⟩).2.memo :=
  (h.projectWithin (projectWithin_size_add_two o ⟨active, m⟩)).2

theorem projectAll (h : s.Rules P Q) (key : String) (fs : List Field) (active : List String) (m : Memo) :
    Q key fs active m (s.projectAll key fs ⟨active, m⟩).1 (s.projectAll key fs ⟨active, m⟩).2.memo := by
  induction fs generalizing m with
  | nil => exact h.nil
  | cons f fs ih =>
    rw [Schema.projectAll]
    split
    · rename_i ht
      exact h.leaf ht (ih m)
    · rename_i o ht
      have hP := h.project o active m
      have ha := active_project (s := s) o ⟨active, m⟩
      split <;> rename_i t' e <;> rw [e] at hP ha <;> obtain rfl : t'.active = active := ha
      · exact h.broken ht e hP
      · exact h.nested ht e hP (ih t'.memo)

end Rules

end Schema
end Soql
