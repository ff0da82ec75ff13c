import Soql.Proofs.CyclePath
import Soql.Proofs.Guard
import Soql.Proofs.MemoGrowth

/-!
# How deep calls nest

`Schema.Visits` runs down one chain of calls, each made inside the one before. All objects of a chain
but the last are still being expanded. The budget of an expansion is about chains too, though it is
handed down and knows nothing of them: going through fields runs out of it in a call for one of them,
past fields whose calls have all been answered (`RunsOut`), and that call is the next one of a chain.
So a budget is enough just when no chain is longer (`isSome_projectWithin_iff`), and what is known of
one bounds the other. Enough is one more than there are names to make active, since each call that
makes calls of its own takes one of them; also in a schema full of cycles. Main statement:
`depth_of_project`.
-/

namespace Soql.Schema

variable {s : Schema} {o : Object} {t : Traversal} {key : String} {f : Field} {fs : List Field} {n : Nat}

/-! ### Running out of budget -/

theorem map_outcome_eq_ok_iff {α β : Type} {x : Outcome α} {g : α → β} {b : β} :
    x.map g = (.ok b, t) ↔ ∃ a, x = (.ok a, t) ∧ g a = b := by
  obtain ⟨r, v⟩ := x
  cases r <;> simp [Outcome.map, Except.map, and_comm]

/-- Going through fields runs out of budget in a call for one of them, after all before it have been
gone through. -/
def RunsOut (s : Schema) (n : Nat) (key : String) (fs : List Field) (t : Traversal) : Prop :=
  ∃ before f after p paths t', fs = before ++ f :: after ∧
    s.projectAll key before t = (.ok paths, t') ∧ s.target? key f = some p ∧ s.projectWithin n p t' = none

theorem not_runsOut_nil : ¬ s.RunsOut n key [] t := by
  rintro ⟨before, f, after, -, -, -, hfs, -⟩
  simp at hfs

theorem runsOut_leaf (ht : s.target? key f = none) :
    s.RunsOut n key (f :: fs) t ↔ s.RunsOut n key fs t := by
  constructor
  · rintro ⟨before, g, after, p, paths, t', hfs, hb, hg, hn⟩
    cases before with
    | nil =>
      obtain ⟨rfl, -⟩ := List.cons_eq_cons.1 hfs
      simp [ht] at hg
    | cons _ before =>
      obtain ⟨rfl, rfl⟩ := List.cons_eq_cons.1 hfs
      rw [projectAll, ht] at hb
      obtain ⟨rest, hb, -⟩ := map_outcome_eq_ok_iff.1 hb
      exact ⟨before, g, after, p, rest, t', rfl, hb, hg, hn⟩
  · rintro ⟨before, g, after, p, paths, t', rfl, hb, hg, hn⟩
    refine ⟨f :: before, g, after, p, [f.name] ++ paths, t', rfl, ?_, hg, hn⟩
    rw [projectAll, ht]
    exact map_outcome_eq_ok_iff.2 ⟨paths, hb, rfl⟩

theorem runsOut_nested {o : Object} (ht : s.target? key f = some o) :
    s.RunsOut n key (f :: fs) t ↔ s.projectWithin n o t = none ∨
      ∃ paths t', s.project o t = (.ok paths, t') ∧ s.RunsOut n key fs t' := by
  constructor
  · rintro ⟨before, g, after, p, paths, t', hfs, hb, hg, hn⟩
    cases before with
    | nil =>
      obtain ⟨rfl, -⟩ := List.cons_eq_cons.1 hfs
      obtain rfl : o = p := Option.some.inj (ht.symm.trans hg)
      obtain rfl : t = t' := congrArg Prod.snd hb
      exact .inl hn
    | cons _ before =>
      obtain ⟨rfl, rfl⟩ := List.cons_eq_cons.1 hfs
      rw [projectAll, ht] at hb
      simp only at hb
      split at hb
      · cases hb
      · rename_i own t₁ ho
        obtain ⟨rest, hb, -⟩ := map_outcome_eq_ok_iff.1 hb
        exact .inr ⟨own, t₁, ho, before, g, after, p, rest, t', rfl, hb, hg, hn⟩
  · rintro (hn | ⟨own, t₁, ho, before, g, after, p, paths, t', rfl, hb, hg, hn⟩)
    · exact ⟨[], f, fs, o, [], t, rfl, rfl, ht, hn⟩
    · refine ⟨f :: before, g, after, p, f.expand own ++ paths, t', rfl, ?_, hg, hn⟩
      simp only [projectAll, ht, ho]
      exact map_outcome_eq_ok_iff.2 ⟨paths, hb, rfl⟩

theorem projectFields_eq_none_iff :
    s.projectFields (s.projectWithin n) key fs t = none ↔ s.RunsOut n key fs t := by
  induction fs generalizing t with
  | nil => exact iff_of_false nofun not_runsOut_nil
  | cons f fs ih =>
    rw [projectFields]
    cases ht : s.target? key f with
    | none => rw [Option.map_eq_none_iff, ih, runsOut_leaf ht]
    | some o =>
      rw [runsOut_nested ht]
      cases he : s.projectWithin n o t with
      | none => simp only [he, true_or]
      | some x =>
        obtain ⟨r, t'⟩ := x
        rw [project_eq_of_projectWithin he]
        cases r with
        | error c => simp [he]
        | ok paths => simp [he, ih]

/-- An expansion runs out of budget just when it comes to a call with that many calls around it. -/
theorem projectWithin_eq_none_iff :
    s.projectWithin n o t = none ↔ ∃ past x u, s.Visits o t past x u ∧ n ≤ past.length := by
  induction n generalizing o t with
  | zero => exact iff_of_true rfl ⟨[], o, t, .here, Nat.le_refl _⟩
  | succ n ih =>
    constructor
    · intro h
      rw [projectWithin] at h
      split at h
      · cases h
      · rename_i hm
        split_ifs at h with ha hf
        split at h
        · rename_i he
          obtain ⟨before, f, after, p, paths, t', hfs, hb, ht, hn⟩ := projectFields_eq_none_iff.1 he
          have hactive : t'.active = o.name :: t.active := by
            simpa only [hb] using active_projectAll (s := s) o.key before ⟨o.name :: t.active, t.memo⟩
          obtain ⟨m, rfl⟩ : ∃ m, t' = ⟨o.name :: t.active, m⟩ := ⟨t'.memo, by rw [← hactive]⟩
          obtain ⟨past, x, u, hvis, hle⟩ := ih.1 hn
          exact ⟨o :: past, x, u, .nested hm ha hfs hb ht hvis, Nat.succ_le_succ hle⟩
        · cases h
        · cases h
    · rintro ⟨past, x, u, hvis, hle⟩
      cases hvis with
      | here => cases hle
      | nested hm ha hfs hb ht hvis =>
        have hf : o.fields.isEmpty = false := by simp [hfs]
        have he := projectFields_eq_none_iff.2
          ⟨_, _, _, _, _, _, hfs, hb, ht, ih.2 ⟨_, _, _, hvis, Nat.le_of_succ_le_succ hle⟩⟩
        simp [projectWithin, hm, ha, hf, he]

/-- A budget is enough just when no chain of calls is longer. -/
theorem isSome_projectWithin_iff :
    (s.projectWithin n o t).isSome ↔ ∀ past x u, s.Visits o t past x u → (past ++ [x]).length ≤ n := by
  rw [Option.isSome_iff_ne_none, ne_eq, projectWithin_eq_none_iff]
  simp only [not_exists, not_and, not_le, List.length_append, List.length_singleton, Nat.succ_le_iff]

/-- From an object of the schema, cyclic or not, whatever is remembered and active: a chain of calls,
each inside the one before, has at most one call more than there are names of objects of its key that
are not active. An expansion with that budget or a greater one ends, always with the same outcome; less
is enough just when no chain of calls is longer. -/
theorem depth_of_project (ho : o ∈ s.toList) (t : Traversal) :
    (∀ past x u, s.Visits o t past x u →
      (past ++ [x]).length ≤ 1 + (s.openNames o.key t.active).length) ∧
    (∀ n, 1 + (s.openNames o.key t.active).length ≤ n →
      s.projectWithin n o t = some (s.project o t) ∧
      s.watchWithin n o (.ofTraversal t) = some (s.watch o (.ofTraversal t))) ∧
    (∀ n, (s.projectWithin n o t).isSome ↔
      ∀ past x u, s.Visits o t past x u → (past ++ [x]).length ≤ n) := by
  have hends : ∀ n, 1 + (s.openNames o.key t.active).length ≤ n →
      s.projectWithin n o t = some (s.project o t) := by
    intro n hn
    obtain ⟨r, t', e, -⟩ := settles_projectWithin n o t ho (by omega)
    rw [e, project_eq_of_projectWithin e]
  refine ⟨?_, fun n hn => ⟨hends n hn, ?_⟩, fun n => isSome_projectWithin_iff⟩
  · refine isSome_projectWithin_iff.1 ?_
    rw [hends _ (Nat.le_refl _)]
    rfl
  · rw [watchWithin_ofTraversal, watch_ofTraversal, hends n hn]
    rfl

/-- With the users' name active, a folder is the only one to be made active, and its owner is the
last call. -/
theorem depth_of_project_folders :
    folder ∈ folders.toList ∧ 1 + (folders.openNames folder.key ["User"]).length = 2 ∧
      folders.Visits folder ⟨["User"], ∅⟩ [folder] owningUser ⟨["Folder", "User"], ∅⟩ ∧
      ([folder] ++ [owningUser]).length ≤ 1 + (folders.openNames folder.key ["User"]).length ∧
      folders.projectWithin 1 folder ⟨["User"], ∅⟩ = none ∧
      folders.projectWithin 2 folder ⟨["User"], ∅⟩ = some (folders.project folder ⟨["User"], ∅⟩) ∧
      folders.watchWithin 2 folder ⟨{"User"}, ∅⟩ = some (folders.watch folder ⟨{"User"}, ∅⟩) := by
  have ho : folder ∈ folders.toList := by decide +kernel
  have hn : 1 + (folders.openNames folder.key ["User"]).length = 2 := by decide +kernel
  have hfs : folder.fields =
      [] ++ referenceField "Owner" "App.User" :: [referenceField "Parent" "App.Folder"] := rfl
  have hvis : folders.Visits folder ⟨["User"], ∅⟩ [folder] owningUser ⟨["Folder", "User"], ∅⟩ :=
    .nested rfl (by decide) hfs rfl (by decide +kernel) .here
  obtain ⟨hlen, hends, hleast⟩ := depth_of_project ho ⟨["User"], ∅⟩
  obtain ⟨hlist, hset⟩ := hends 2 hn.le
  have hnone : folders.projectWithin 1 folder ⟨["User"], ∅⟩ = none := by
    refine Option.not_isSome_iff_eq_none.1 fun h => ?_
    exact absurd ((hleast 1).1 h _ _ _ hvis) (by decide)
  exact ⟨ho, hn, hvis, hlen _ _ _ hvis, hnone, hlist, hset⟩

end Soql.Schema
