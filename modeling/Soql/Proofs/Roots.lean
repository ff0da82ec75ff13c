import Soql.Compile

/-!
# What becomes of a root

A root's entry is read off the answer about its object (`fst_compileObject`), and compiling a root
leaves behind what its expansion leaves behind (`snd_compileObject`). The entries of a pass are what
becomes of its roots, each in its turn (`mem_compileEach_iff`).
-/

namespace Soql.Schema

variable {s : Schema} {o : Object} {m : Memo} {c : Compiled}
  {r : Except Cycle (Option (List String))}

/-- The entry of a root, given the answer about its object. -/
def entry (s : Schema) (o : Object) : Except Cycle (Option (List String)) → Option Compiled
  | .ok (some paths) => some ⟨o.className, o.key, o.name, .query (queryText paths o.name) (s.plan o)⟩
  | .ok none => none
  | .error c => some ⟨o.className, o.key, o.name, .failed c.diagnostic⟩

theorem compileObject_eq (o : Object) (m : Memo) :
    s.compileObject o m = (s.entry o (s.project o ⟨[], m⟩).1, (s.project o ⟨[], m⟩).2.memo) := by
  rw [compileObject, query, Outcome.map]
  obtain ⟨r, t, e⟩ : ∃ r t, s.project o ⟨[], m⟩ = (r, t) := ⟨_, _, rfl⟩
  rw [e]
  match r with
  | .ok (some paths) => rfl
  | .ok none => rfl
  | .error c => rfl

theorem fst_compileObject (o : Object) (m : Memo) :
    (s.compileObject o m).1 = s.entry o (s.project o ⟨[], m⟩).1 := by
  rw [compileObject_eq]

theorem snd_compileObject (o : Object) (m : Memo) :
    (s.compileObject o m).2 = (s.project o ⟨[], m⟩).2.memo := by
  rw [compileObject_eq]

theorem ident_of_entry (h : s.entry o r = some c) : (⟨c.className, c.key⟩ : Ident) = ident o := by
  match r with
  | .ok (some _) => cases h; rfl
  | .error _ => cases h; rfl

theorem entry_query {text : String} {plan : Plan} (h : s.entry o r = some c)
    (hv : c.verdict = .query text plan) :
    ∃ paths, r = .ok (some paths) ∧ text = queryText paths o.name := by
  match r with
  | .ok (some paths) => cases h; cases hv; exact ⟨paths, rfl, rfl⟩
  | .error _ => cases h; cases hv

theorem entry_failed {d : Diagnostic} (h : s.entry o r = some c) (hv : c.verdict = .failed d) :
    ∃ cycle, r = .error cycle ∧ d = cycle.diagnostic := by
  match r with
  | .ok (some _) => cases h; cases hv
  | .error cycle => cases h; cases hv; exact ⟨cycle, rfl, rfl⟩

theorem compileEach_cons (o : Object) (os : List Object) (m : Memo) :
    s.compileEach (o :: os) m =
      ((s.compileObject o m).1.toList ++ (s.compileEach os (s.compileObject o m).2).1,
        (s.compileEach os (s.compileObject o m).2).2) := rfl

/-- An entry of a pass is that of a root, with what the roots before it have left behind. -/
theorem mem_compileEach_iff {os : List Object} : c ∈ (s.compileEach os m).1 ↔
    ∃ before o after, os = before ++ o :: after ∧
      (s.compileObject o (s.compileEach before m).2).1 = some c := by
  induction os generalizing m with
  | nil => simp [compileEach]
  | cons o os ih =>
    rw [compileEach_cons, List.mem_append, Option.mem_toList, ih]
    constructor
    · rintro (hc | ⟨before, p, after, rfl, hc⟩)
      · exact ⟨[], o, os, rfl, hc⟩
      · exact ⟨o :: before, p, after, rfl, hc⟩
    · rintro ⟨_ | ⟨q, before⟩, p, after, e, hc⟩
      · obtain ⟨rfl, rfl⟩ := List.cons.inj e
        exact .inl hc
      · obtain ⟨rfl, rfl⟩ := List.cons.inj e
        exact .inr ⟨before, p, after, rfl, hc⟩

theorem compileRoot_of_get? {i : Ident} (h : s.get? i = some o) (m : Memo) :
    s.compileRoot i m = s.compileObject o m := by
  rw [compileRoot, h]

theorem exists_of_compileRoot {i : Ident} (h : (s.compileRoot i m).1 = some c) :
    ∃ o, s.get? i = some o ∧ s.entry o (s.project o ⟨[], m⟩).1 = some c := by
  rw [compileRoot] at h
  split at h
  · rename_i o ho
    rw [fst_compileObject] at h
    exact ⟨o, ho, h⟩
  · cases h

end Soql.Schema
