import Mathlib.Data.List.Count
import Soql.Proofs.RuleTable

/-!
# Verdicts on parts of a list

A verdict looks at all entries before, but only those that share something with the entry itself can
change it. So the verdicts on a part of a list are those that the part gets alone (`filter_judge`,
`filter_passed`). Rearranging a list keeps its verdicts then, as long as the entries that look at one
another stay in order (`perm_judge`); and where a verdict goes by some trait and asks only whether the trait
has come before, any order gives the same verdicts, counted by trait (`perm_map_judge`).
-/

namespace Soql.RuleTable

variable {α β φ κ : Type} {l l' : List α}

theorem exists_mem_filter_iff {p : α → Bool} {q : α → Prop} (h : ∀ a, q a → p a = true) :
    (∃ a ∈ l.filter p, q a) ↔ ∃ a ∈ l, q a := by
  simp only [List.mem_filter]
  exact exists_congr fun a => ⟨fun ⟨⟨ha, _⟩, hq⟩ => ⟨ha, hq⟩, fun ⟨ha, hq⟩ => ⟨⟨ha, h a hq⟩, hq⟩⟩

/-- Lists that have the same entries of each key, in the same order, are rearrangements. -/
theorem perm_of_filter_eq [DecidableEq α] [DecidableEq κ] (key : α → κ)
    (h : ∀ k, l.filter (key · = k) = l'.filter (key · = k)) : l.Perm l' := by
  refine List.perm_iff_count.2 fun a => ?_
  have hcount : ∀ l : List α, (l.filter (key · = key a)).count a = l.count a := fun l =>
    List.count_filter (by simp)
  rw [← hcount l, h, hcount]

/-! ### Parts -/

section
variable {p : α → Bool} {v w : List α → α → Option φ}

theorem filter_judgeAfter (h : ∀ before a, p a = true → v before a = w (before.filter p) a)
    (before l : List α) : (judgeAfter v before l).filter (fun j => p j.1) =
      judgeAfter w (before.filter p) (l.filter p) := by
  induction l generalizing before with
  | nil => rfl
  | cons a l ih =>
    rw [judgeAfter, List.filter_cons, List.filter_cons, ih, List.filter_append, List.filter_singleton]
    cases ha : p a with
    | true => simp only [if_true, judgeAfter, h before a ha, cond_true]
    | false => simp

theorem filter_judge (h : ∀ before a, p a = true → v before a = w (before.filter p) a) (l : List α) :
    (judge v l).filter (fun j => p j.1) = judge w (l.filter p) := by
  rw [judge_eq_judgeAfter, judge_eq_judgeAfter]
  exact filter_judgeAfter h [] l

theorem passed_judgeAfter_cons (v : List α → α → Option φ) (before : List α) (a : α) (l : List α) :
    passed (judgeAfter v before (a :: l)) =
      (if (v before a).isNone then [a] else []) ++ passed (judgeAfter v (before ++ [a]) l) := by
  cases h : v before a <;> simp [judgeAfter, passed, h]

theorem filter_passed_judgeAfter
    (h : ∀ before a, p a = true → (v before a).isNone = (w (before.filter p) a).isNone)
    (before l : List α) : (passed (judgeAfter v before l)).filter p =
      passed (judgeAfter w (before.filter p) (l.filter p)) := by
  induction l generalizing before with
  | nil => rfl
  | cons a l ih =>
    rw [passed_judgeAfter_cons, List.filter_append, ih, List.filter_append, List.filter_singleton,
      List.filter_cons]
    cases ha : p a with
    | true =>
      rw [if_pos rfl, passed_judgeAfter_cons, h before a ha]
      cases (w (before.filter p) a).isNone <;> simp [ha]
    | false => cases (v before a).isNone <;> simp [ha]

theorem filter_passed
    (h : ∀ before a, p a = true → (v before a).isNone = (w (before.filter p) a).isNone) (l : List α) :
    (passed (judge v l)).filter p = passed (judge w (l.filter p)) := by
  rw [judge_eq_judgeAfter, judge_eq_judgeAfter]
  exact filter_passed_judgeAfter h [] l

end

/-! ### Traits -/

section
variable {g : α → β} {v : List α → α → Option φ} {w : List β → β → Option φ}

theorem map_judgeAfter (h : ∀ before a, v before a = w (before.map g) (g a)) (before l : List α) :
    (judgeAfter v before l).map (Prod.map g id) = judgeAfter w (before.map g) (l.map g) := by
  induction l generalizing before with
  | nil => rfl
  | cons a l ih =>
    rw [judgeAfter, List.map_cons, ih, List.map_cons, judgeAfter, Prod.map_apply, h, List.map_append]
    rfl

/-- Verdicts that go by a trait of the entries are verdicts on the traits. -/
theorem map_judge (h : ∀ before a, v before a = w (before.map g) (g a)) (l : List α) :
    (judge v l).map (Prod.map g id) = judge w (l.map g) := by
  rw [judge_eq_judgeAfter, judge_eq_judgeAfter]
  exact map_judgeAfter h [] l

theorem map_passed (judged : List (α × Option φ)) :
    (passed judged).map g = passed (judged.map (Prod.map g id)) := by
  rw [passed, passed, List.filter_map, List.map_map, List.map_map]
  rfl

end

/-! ### Rearrangements -/

theorem mem_judge {v : List α → α → Option φ} {j : α × Option φ} (h : j ∈ judge v l) :
    ∃ before, j.2 = v before j.1 := by
  obtain ⟨⟨a, i⟩, -, rfl⟩ := List.mem_map.1 h
  exact ⟨l.take i, rfl⟩

theorem perm_passed {judged judged' : List (α × Option φ)} (h : judged.Perm judged') :
    (passed judged).Perm (passed judged') := (h.filter _).map _

theorem perm_judge [DecidableEq α] [DecidableEq φ] [DecidableEq κ] (key : α → κ)
    {v : List α → α → Option φ} (hv : ∀ before a, v before a = v (before.filter (key · = key a)) a)
    (h : ∀ k, l.filter (key · = k) = l'.filter (key · = k)) : (judge v l).Perm (judge v l') := by
  refine perm_of_filter_eq (fun j => key j.1) fun k => ?_
  have hk : ∀ before a, decide (key a = k) = true → v before a = v (before.filter (key · = k)) a := by
    intro before a ha
    rw [hv, of_decide_eq_true ha]
  rw [filter_judge hk, filter_judge hk, h]

/-- Verdicts that go by a trait, and by whether that trait has come before, are the same in any
order, if perhaps on other ones of the entries that share it. -/
theorem perm_map_judge [DecidableEq β] [DecidableEq φ] (g : α → β) {v : List α → α → Option φ}
    {w : β → Bool → Option φ} (hv : ∀ before a, v before a = w (g a) (decide (g a ∈ before.map g)))
    (h : l.Perm l') : ((judge v l).map (Prod.map g id)).Perm ((judge v l').map (Prod.map g id)) := by
  have hmap : ∀ l : List α, (judge v l).map (Prod.map g id) =
      judge (fun before b => w b (decide (b ∈ before))) (l.map g) := fun l => map_judge hv l
  rw [hmap, hmap]
  refine perm_judge id (fun before b => ?_) fun b => ?_
  · simp
  · have hcount := (h.map g).count_eq b
    simp only [id]
    rw [List.filter_eq, List.filter_eq, hcount]

end Soql.RuleTable
