import Soql.Proofs.Verdicts

/-!
# Taking entries out of a list

Where a verdict asks whether an entry is acceptable in itself and whether one of its kind has come
before (`Judges`), the first acceptable entry of each kind is passed and nothing else. Entries that
have not been passed may then be taken out, whether they are unacceptable or came second: the first
one of their kind is still there. It is the other way round when a passed entry is taken out, since a
later one of its kind may then be passed in its place. So what remains the same is said of some kinds
only, and of these all that has been passed must stay (`Judges.filter_passed_thinned`).
-/

namespace Soql.RuleTable

variable {α φ κ : Type}

/-- What is left of a list when entries are taken out, but none of those that stand. -/
inductive Thinned (stands : α × Option φ → Prop) : List (α × Option φ) → List α → Prop
  | nil : Thinned stands [] []
  | keep {j : α × Option φ} {judged : List (α × Option φ)} {l : List α}
    (h : Thinned stands judged l) : Thinned stands (j :: judged) (j.1 :: l)
  | drop {j : α × Option φ} {judged : List (α × Option φ)} {l : List α} (hj : ¬ stands j)
    (h : Thinned stands judged l) : Thinned stands (j :: judged) l

/-- The entries that stand. -/
def standing (stands : α × Option φ → Prop) [DecidablePred stands] (judged : List (α × Option φ)) :
    List α :=
  (judged.filter stands).map (·.1)

theorem standing_eq_filter_passed {stands : α × Option φ → Prop} [DecidablePred stands] {p : α → Bool}
    (h : ∀ j, stands j ↔ j.2 = none ∧ p j.1 = true) (judged : List (α × Option φ)) :
    standing stands judged = (passed judged).filter p := by
  rw [standing, passed, List.filter_map, List.filter_filter]
  refine congrArg _ (List.filter_congr fun j _ => ?_)
  rw [Bool.eq_iff_iff, decide_eq_true_iff, h, Bool.and_eq_true, Option.isNone_iff_eq_none, and_comm]
  rfl

namespace Thinned

variable {stands : α × Option φ → Prop} {judged : List (α × Option φ)} {l : List α}

theorem subset (h : Thinned stands judged l) : l ⊆ judged.map (·.1) := by
  induction h with
  | nil => exact List.Subset.refl _
  | keep _ ih => exact List.cons_subset_cons _ ih
  | drop _ _ ih => exact List.subset_cons_of_subset _ ih

/-- All that does not stand may be taken out. -/
theorem of_standing (stands : α × Option φ → Prop) [DecidablePred stands] (judged : List (α × Option φ)) :
    Thinned stands judged (standing stands judged) := by
  induction judged with
  | nil => exact .nil
  | cons j judged ih =>
    by_cases hj : stands j
    · have e : standing stands (j :: judged) = j.1 :: standing stands judged := by simp [standing, hj]
      exact e ▸ .keep ih
    · have e : standing stands (j :: judged) = standing stands judged := by simp [standing, hj]
      exact e ▸ .drop hj ih

end Thinned

/-- Nothing is said against an entry just when its kind is acceptable and has not come before. -/
def Judges (v : List α → α → Option φ) (kind : α → κ) (ok : κ → Prop) : Prop :=
  ∀ before a, v before a = none ↔ ok (kind a) ∧ kind a ∉ before.map kind

theorem map_fst_judge (v : List α → α → Option φ) (l : List α) : (judge v l).map (·.1) = l := by
  rw [judge, List.map_map]
  exact List.zipIdx_map_fst 0 l

theorem Thinned.subset_of_judge {stands : α × Option φ → Prop} {v : List α → α → Option φ} {l l' : List α}
    (h : Thinned stands (judge v l) l') : l' ⊆ l :=
  map_fst_judge v l ▸ h.subset

theorem passed_sublist (v : List α → α → Option φ) (l : List α) : (passed (judge v l)).Sublist l := by
  have h := (List.filter_sublist (p := fun j => j.2.isNone) (l := judge v l)).map (·.1)
  rwa [map_fst_judge] at h

/-- If all entries are passed, nothing is said against any of them. -/
theorem eq_none_of_passed_eq {v : List α → α → Option φ} {l : List α} (h : passed (judge v l) = l) :
    ∀ j ∈ judge v l, j.2 = none := by
  have hlen : ((judge v l).filter (·.2.isNone)).length = (judge v l).length :=
    calc ((judge v l).filter (·.2.isNone)).length
        = (passed (judge v l)).length := (List.length_map _).symm
      _ = ((judge v l).map (·.1)).length := by rw [h, map_fst_judge]
      _ = (judge v l).length := List.length_map _
  exact fun j hj => Option.isNone_iff_eq_none.1 (List.length_filter_eq_length_iff.1 hlen j hj)

namespace Judges

variable {v v' : List α → α → Option φ} {kind : α → κ} {ok ok' : κ → Prop} {before before' l l' : List α}
  {a : α}

theorem ok_of_mem_passed (h : Judges v kind ok) (ha : a ∈ passed (judge v l)) : ok (kind a) := by
  obtain ⟨j, hj, rfl⟩ := List.mem_map.1 ha
  obtain ⟨hj, hnone⟩ := List.mem_filter.1 hj
  obtain ⟨before, hv⟩ := mem_judge hj
  exact ((h before j.1).1 (hv ▸ Option.isNone_iff_eq_none.1 hnone)).1

theorem exists_passed_judgeAfter (h : Judges v kind ok) (ha : a ∈ l) (hok : ok (kind a))
    (hfirst : kind a ∉ before.map kind) : ∃ b ∈ passed (judgeAfter v before l), kind b = kind a := by
  induction l generalizing before with
  | nil => cases ha
  | cons c l ih =>
    by_cases hc : kind c = kind a
    · have hv : v before c = none := (h before c).2 (by rw [hc]; exact ⟨hok, hfirst⟩)
      exact ⟨c, mem_passed_cons.2 (.inl ⟨hv, rfl⟩), hc⟩
    · have hal : a ∈ l := (List.mem_cons.1 ha).resolve_left fun e => hc (e ▸ rfl)
      have hfirst : kind a ∉ (before ++ [c]).map kind := by
        simpa [hfirst] using Ne.symm hc
      obtain ⟨b, hb, e⟩ := ih hal hfirst
      exact ⟨b, mem_passed_cons.2 (.inr hb), e⟩

/-- Of each acceptable kind an entry is passed, and of no other. -/
theorem mem_map_passed_iff (h : Judges v kind ok) {k : κ} :
    k ∈ (passed (judge v l)).map kind ↔ k ∈ l.map kind ∧ ok k := by
  constructor
  · intro hk
    obtain ⟨a, ha, rfl⟩ := List.mem_map.1 hk
    exact ⟨List.mem_map_of_mem ((passed_sublist v l).subset ha), h.ok_of_mem_passed ha⟩
  · rintro ⟨hk, hok⟩
    obtain ⟨a, ha, rfl⟩ := List.mem_map.1 hk
    rw [judge_eq_judgeAfter]
    exact List.mem_map.2 (h.exists_passed_judgeAfter ha hok List.not_mem_nil)

theorem filter_passed_judgeAfter_thinned (h : Judges v kind ok) (h' : Judges v' kind ok') {p : κ → Bool}
    (hp : ∀ k, p k = true → (ok k ↔ ok' k))
    (hb : ∀ k, p k = true → ok k → (k ∈ before'.map kind ↔ k ∈ before.map kind))
    (hl : Thinned (fun j => j.2 = none ∧ p (kind j.1) = true) (judgeAfter v before l) l') :
    (passed (judgeAfter v' before' l')).filter (p <| kind ·) =
      (passed (judgeAfter v before l)).filter (p <| kind ·) := by
  induction l generalizing before before' l' with
  | nil =>
    cases hl
    rfl
  | cons a l ih =>
    rw [passed_judgeAfter_cons v, List.filter_append]
    cases hl with
    | keep hl =>
      have hb' : ∀ k, p k = true → ok k →
          (k ∈ (before' ++ [a]).map kind ↔ k ∈ (before ++ [a]).map kind) := by
        intro k hk hok
        simp only [List.map_append, List.mem_append, hb k hk hok]
      rw [passed_judgeAfter_cons, List.filter_append, ih hb' hl]
      cases hk : p (kind a) with
      | false => split <;> split <;> simp [hk]
      | true =>
        have hv : v' before' a = none ↔ v before a = none := by
          rw [h, h', ← hp _ hk]
          exact and_congr_right fun hok => not_congr (hb _ hk hok)
        simp only [Option.isNone_iff_eq_none, hv]
    | drop ha hl =>
      have hnil : (if (v before a).isNone then [a] else []).filter (p <| kind ·) = [] := by
        split
        · rename_i hv
          simpa using fun hk => ha ⟨Option.isNone_iff_eq_none.1 hv, hk⟩
        · rfl
      -- If the kind of `a` is at stake at all, it has come before.
      have hb' : ∀ k, p k = true → ok k → (k ∈ before'.map kind ↔ k ∈ (before ++ [a]).map kind) := by
        intro k hk hok
        rw [hb k hk hok, List.map_append, List.mem_append]
        refine (or_iff_left_of_imp fun hka => ?_).symm
        obtain rfl := List.mem_singleton.1 hka
        by_contra hfirst
        exact ha ⟨(h before a).2 ⟨hok, hfirst⟩, hk⟩
      rw [hnil, List.nil_append]
      exact ih hb' hl

/-- Of the kinds that `p` picks, the same entries are passed after others have been taken out. -/
theorem filter_passed_thinned (h : Judges v kind ok) (h' : Judges v' kind ok') {p : κ → Bool}
    (hp : ∀ k, p k = true → (ok k ↔ ok' k))
    (hl : Thinned (fun j => j.2 = none ∧ p (kind j.1) = true) (judge v l) l') :
    (passed (judge v' l')).filter (p <| kind ·) = (passed (judge v l)).filter (p <| kind ·) := by
  rw [judge_eq_judgeAfter] at hl
  rw [judge_eq_judgeAfter, judge_eq_judgeAfter]
  exact h.filter_passed_judgeAfter_thinned h' hp (fun _ _ _ => Iff.rfl) hl

end Judges

end Soql.RuleTable
