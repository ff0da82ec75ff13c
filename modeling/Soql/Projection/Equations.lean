import Soql.Projection

/-!
# Projections without a budget

A budget that is enough may be replaced by any greater one (`projectWithin_mono`), so projecting can
be described without one: `project_eq` for an object, `projectAll` for its fields. The active names
come back as they were (`active_project`).
-/

namespace Soql.Schema
variable {s : Schema}

/-- Answers that `r` gives and `r'` gives as well lead to the same answers for fields. -/
theorem projectFields_mono {r r' : Object → Traversal → Option (Outcome (Option (List String)))}
    (h : ∀ {o t x}, r o t = some x → r' o t = some x) {key : String} {fs : List Field}
    {t : Traversal} {x : Outcome (List String)} (hx : s.projectFields r key fs t = some x) :
    s.projectFields r' key fs t = some x := by
  induction fs generalizing t x with
  | nil => exact hx
  | cons f fs ih =>
    rw [projectFields] at hx ⊢
    split at hx
    · obtain ⟨y, hy, rfl⟩ := Option.map_eq_some_iff.1 hx
      rw [ih hy]; rfl
    · rename_i o _
      split at hx
      · cases hx
      · rename_i e; rw [h e]; exact hx
      · rename_i e
        obtain ⟨y, hy, rfl⟩ := Option.map_eq_some_iff.1 hx
        rw [h e]; simp only [ih hy]; rfl

theorem projectWithin_succ {n : Nat} {o : Object} {t : Traversal} {x : Outcome (Option (List String))}
    (hx : s.projectWithin n o t = some x) : s.projectWithin (n + 1) o t = some x := by
  induction n generalizing o t x with
  | zero => cases hx
  | succ n ih =>
    rw [projectWithin] at hx ⊢
    split at hx
    · exact hx
    · split at hx
      · rw [if_pos ‹_›]; exact hx
      · rw [if_neg ‹_›]
        split at hx
        · rw [if_pos ‹_›]; exact hx
        · rw [if_neg ‹_›]
          split at hx
          · cases hx
          · rename_i e; rw [projectFields_mono ih e]; exact hx
          · rename_i e; rw [projectFields_mono ih e]; exact hx

theorem projectWithin_mono {m n : Nat} (h : m ≤ n) {o : Object} {t : Traversal}
    {x : Outcome (Option (List String))} (hx : s.projectWithin m o t = some x) :
    s.projectWithin n o t = some x := by
  induction h with
  | refl => exact hx
  | step _ ih => exact projectWithin_succ ih

theorem project_eq_of_projectWithin {n : Nat} {o : Object} {t : Traversal}
    {x : Outcome (Option (List String))} (hx : s.projectWithin n o t = some x) :
    s.project o t = x := by
  refine Option.some.inj (Eq.trans ?_ (projectWithin_mono (Nat.le_max_left n (s.size + 2)) hx))
  exact (projectWithin_mono (Nat.le_max_right ..) (Option.some_get _).symm).symm

theorem projectWithin_size_add_two (o : Object) (t : Traversal) :
    s.projectWithin (s.size + 2) o t = some (s.project o t) := (Option.some_get _).symm

variable (s) in
def projectAll (key : String) : List Field → Traversal → Outcome (List String)
  | [], t => (.ok [], t)
  | f :: fs, t =>
    match s.target? key f with
    | none => (projectAll key fs t).map ([f.name] ++ ·)
    | some o =>
      match s.project o t with
      | (.error c, t) => (.error c, t)
      | (.ok paths, t) => (projectAll key fs t).map (f.expand paths ++ ·)

theorem projectAll_eq_of_projectFields {n : Nat} {key : String} {fs : List Field} {t : Traversal}
    {x : Outcome (List String)} (hx : s.projectFields (s.projectWithin n) key fs t = some x) :
    s.projectAll key fs t = x := by
  induction fs generalizing t x with
  | nil => exact Option.some.inj hx
  | cons f fs ih =>
    rw [projectFields] at hx
    rw [projectAll]
    cases ht : s.target? key f with
    | none =>
      rw [ht] at hx
      obtain ⟨y, hy, rfl⟩ := Option.map_eq_some_iff.1 hx
      simp only [ih hy]
    | some o =>
      rw [ht] at hx
      obtain ⟨⟨r, t'⟩, e⟩ : ∃ y, s.projectWithin n o t = some y := by
        cases e : s.projectWithin n o t with
        | none => simp [e] at hx
        | some y => exact ⟨y, rfl⟩
      simp only [e] at hx
      simp only [project_eq_of_projectWithin e]
      cases r with
      | error c => exact Option.some.inj hx
      | ok paths =>
        obtain ⟨y, hy, rfl⟩ := Option.map_eq_some_iff.1 hx
        simp only [ih hy]

theorem project_eq (o : Object) (t : Traversal) :
    s.project o t =
      match t.memo.paths? (ident o) with
      | some paths => (.ok (some paths), t)
      | none =>
        if o.name ∈ t.active then (.error ⟨o.name, ident o⟩, t)
        else if o.fields.isEmpty then (.ok none, t)
        else
          match s.projectAll o.key o.fields ⟨o.name :: t.active, t.memo⟩ with
          | (.error c, t) => (.error c, ⟨t.active.erase o.name, t.memo⟩)
          | (.ok paths, t) =>
            (.ok (some paths), ⟨t.active.erase o.name, t.memo.remember (ident o) paths⟩) := by
  have h := projectWithin_size_add_two (s := s) o t
  rw [projectWithin] at h
  cases hm : t.memo.paths? (ident o) with
  | some paths => rw [hm] at h; exact (Option.some.inj h).symm
  | none =>
    simp only [hm] at h ⊢
    by_cases ha : o.name ∈ t.active
    · rw [if_pos ha] at h ⊢; exact (Option.some.inj h).symm
    · rw [if_neg ha] at h ⊢
      by_cases hf : o.fields.isEmpty = true
      · rw [if_pos hf] at h ⊢; exact (Option.some.inj h).symm
      · rw [if_neg hf] at h ⊢
        split at h
        · cases h
        · rename_i e; rw [projectAll_eq_of_projectFields e]; exact (Option.some.inj h).symm
        · rename_i e; rw [projectAll_eq_of_projectFields e]; exact (Option.some.inj h).symm

theorem active_project (o : Object) (t : Traversal) : (s.project o t).2.active = t.active := by
  obtain ⟨r, t', e, ht⟩ := settles_projectWithin_of_lt (s.size + 2) o t
    (Nat.lt_succ_of_le (Nat.succ_le_succ (length_openNames_le ..)))
  rw [project_eq_of_projectWithin e]; exact ht

end Soql.Schema
