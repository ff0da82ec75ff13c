import Soql.Projection.Equations
import Soql.Proofs.Roots

/-!
# Memos that calls leave behind

What can be remembered about a schema between two calls, or between two fields of one
(`Schema.Reached`). All that calls do to a memo they do by expansions. So what expansions keep
(`Schema.Keeps`) holds of every such memo if it holds of the empty one (`Keeps.reached`).
-/

namespace Soql.Schema

variable {s : Schema} {o : Object} {m : Memo} {K : Memo → Prop}

/-- What can be remembered about a schema at some moment: nothing at first, then what calls on its
objects have left behind, under any active names, and what a call has found out when it has come
past some of the fields of an object. -/
inductive Reached (s : Schema) : Memo → Prop
  | start : s.Reached ∅
  | project {m : Memo} (h : s.Reached m) {o : Object} (ho : o ∈ s.toList) (active : List String) :
    s.Reached (s.project o ⟨active, m⟩).2.memo
  | query {m : Memo} (h : s.Reached m) {o : Object} (ho : o ∈ s.toList) (source : Option String)
    (active : List String) : s.Reached (s.query o source ⟨active, m⟩).2.memo
  | compileRoot {m : Memo} (h : s.Reached m) (i : Ident) : s.Reached (s.compileRoot i m).2
  | compileAll {m : Memo} (h : s.Reached m) : s.Reached (s.compileAll m).2
  | within {m : Memo} (h : s.Reached m) {o : Object} (ho : o ∈ s.toList) (active : List String)
    {fs : List Field} (hfs : fs <+: o.fields) :
    s.Reached (s.projectAll o.key fs ⟨o.name :: active, m⟩).2.memo

/-- Expanding an object or a list of fields keeps `K`. -/
structure Keeps (s : Schema) (K : Memo → Prop) : Prop where
  project : ∀ {m : Memo} {o : Object}, K m → o ∈ s.toList → ∀ active,
    K (s.project o ⟨active, m⟩).2.memo
  projectAll : ∀ {m : Memo}, K m → ∀ key fs active, K (s.projectAll key fs ⟨active, m⟩).2.memo

namespace Keeps

theorem of_project_eq (hK : s.Keeps K) (h : K m) (ho : o ∈ s.toList) {active : List String}
    {r : Except Cycle (Option (List String))} {t : Traversal} (he : s.project o ⟨active, m⟩ = (r, t)) :
    K t.memo := by
  have h' := hK.project h ho active
  rwa [he] at h'

theorem compileObject (hK : s.Keeps K) (h : K m) (ho : o ∈ s.toList) : K (s.compileObject o m).2 := by
  rw [snd_compileObject]
  exact hK.project h ho []

theorem compileEach (hK : s.Keeps K) (h : K m) {os : List Object} (hos : ∀ o ∈ os, o ∈ s.toList) :
    K (s.compileEach os m).2 := by
  induction os generalizing m with
  | nil => exact h
  | cons o os ih =>
    obtain ⟨ho, hos⟩ := List.forall_mem_cons.1 hos
    exact ih (hK.compileObject h ho) hos

theorem compileRoot (hK : s.Keeps K) (h : K m) (i : Ident) : K (s.compileRoot i m).2 := by
  rw [Schema.compileRoot]
  split
  · rename_i ho
    exact hK.compileObject h (Index.mem_of_get? ho)
  · exact h

theorem reached (hK : s.Keeps K) (hempty : K ∅) (h : s.Reached m) : K m := by
  induction h with
  | start => exact hempty
  | project _ ho active ih => exact hK.project ih ho active
  | query _ ho _ active ih => exact hK.project ih ho active
  | compileRoot _ i ih => exact hK.compileRoot ih i
  | compileAll _ ih => exact hK.compileEach ih fun _ ho => ho
  | within _ _ active _ ih => exact hK.projectAll ih _ _ _

end Keeps

end Soql.Schema
