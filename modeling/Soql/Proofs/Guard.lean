import Mathlib.Data.Finset.Card
import Soql.Proofs.Expansion

/-!
# The names on guard

An expansion keeps its active names as a list, innermost first, and the name that was added last is
the one that it takes away. Here the names are a set instead (`Schema.watchWithin`). A set does not
know who has added a name: what one object takes away may be what another one of its name has added
before, and that one's guard would be gone. It never comes to this, because an object of an active
name is refused before it adds its own. So forgetting the order of the names makes no difference at
any depth of the expansion (`watchWithin_ofTraversal`), and every call gives the set back as it got
it, also a call that fails. Main statement: `watch_restores`.
-/

namespace Soql

/-- Where an expansion stands whose active names are a set. -/
structure Watch where
  active : Finset String
  memo : Memo

/-- Forgets in which order the names became active, and how often. -/
def Watch.ofTraversal (t : Traversal) : Watch := ⟨t.active.toFinset, t.memo⟩

theorem Watch.exists_ofTraversal (w : Watch) : ∃ t, Watch.ofTraversal t = w :=
  ⟨⟨w.active.toList, w.memo⟩, by rw [ofTraversal, Finset.toList_toFinset]⟩

/-- A result, or the cycle that was met, and where the expansion stands after it. -/
abbrev Watched (α : Type) := Except Cycle α × Watch

def Watched.map {α β : Type} (f : α → β) (x : Watched α) : Watched β := (x.1.map f, x.2)

/-- The outcome of an expansion, the order of the active names forgotten. -/
def Outcome.watched {α : Type} (x : Outcome α) : Watched α := (x.1, .ofTraversal x.2)

namespace Schema

variable (s : Schema)

/-- The paths of a list of fields, when `resolve` gives those of the objects they refer to. -/
def watchFields (resolve : Object → Watch → Option (Watched (Option (List String)))) (key : String) :
    List Field → Watch → Option (Watched (List String))
  | [], w => some (.ok [], w)
  | f :: fs, w =>
    match s.target? key f with
    | none => (watchFields resolve key fs w).map (·.map ([f.name] ++ ·))
    | some o =>
      match resolve o w with
      | none => none
      | some (.error c, w) => some (.error c, w)
      | some (.ok paths, w) => (watchFields resolve key fs w).map (·.map (f.expand paths ++ ·))

/-- The paths of an object, expanding objects inside one another at most `budget` deep. Its name is
put into the set before its fields are gone through, and taken out of it after them. -/
def watchWithin (budget : Nat) (o : Object) (w : Watch) : Option (Watched (Option (List String))) :=
  match budget with
  | 0 => none
  | budget + 1 =>
    match w.memo.paths? (ident o) with
    | some paths => some (.ok (some paths), w)
    | none =>
      if o.name ∈ w.active then some (.error ⟨o.name, ident o⟩, w)
      else if o.fields.isEmpty then some (.ok none, w)
      else
        match s.watchFields (watchWithin budget) o.key o.fields ⟨insert o.name w.active, w.memo⟩ with
        | none => none
        | some (.error c, w) => some (.error c, ⟨w.active.erase o.name, w.memo⟩)
        | some (.ok paths, w) =>
          some (.ok (some paths), ⟨w.active.erase o.name, w.memo.remember (ident o) paths⟩)

variable {s}

/-! ### The order of the names does not matter -/

/-- A name that was not in the set before it was put in is the only one that taking it out takes. -/
theorem toFinset_erase_cons {a : String} {l : List String} (h : a ∉ l) :
    (a :: l).toFinset.erase a = ((a :: l).erase a).toFinset := by
  rw [List.toFinset_cons, Finset.erase_insert (mt List.mem_toFinset.1 h), List.erase_cons_head]

theorem active_projectAll (key : String) (fs : List Field) (t : Traversal) :
    (s.projectAll key fs t).2.active = t.active := by
  induction fs generalizing t with
  | nil => rfl
  | cons f fs ih =>
    rw [projectAll]
    split
    · exact ih t
    · rename_i o _
      have ha := active_project (s := s) o t
      split <;> rename_i t' e <;> rw [e] at ha
      · exact ha
      · exact (ih t').trans ha

theorem active_of_projectFields {n : Nat} {key : String} {fs : List Field} {t : Traversal}
    {x : Outcome (List String)} (hx : s.projectFields (s.projectWithin n) key fs t = some x) :
    x.2.active = t.active := by
  rw [← projectAll_eq_of_projectFields hx, active_projectAll]

theorem watchFields_ofTraversal {resolve : Object → Traversal → Option (Outcome (Option (List String)))}
    {resolve' : Object → Watch → Option (Watched (Option (List String)))}
    (h : ∀ o t, resolve' o (.ofTraversal t) = (resolve o t).map Outcome.watched)
    (key : String) (fs : List Field) (t : Traversal) :
    s.watchFields resolve' key fs (.ofTraversal t) =
      (s.projectFields resolve key fs t).map Outcome.watched := by
  induction fs generalizing t with
  | nil => rfl
  | cons f fs ih =>
    rw [watchFields, projectFields]
    cases s.target? key f with
    | none =>
      simp only [ih, Option.map_map]
      rfl
    | some o =>
      simp only [h]
      cases resolve o t with
      | none => rfl
      | some x =>
        obtain ⟨r, t'⟩ := x
        cases r with
        | error c => rfl
        | ok paths =>
          simp only [Option.map_some, Outcome.watched, ih, Option.map_map]
          rfl

theorem watchWithin_ofTraversal (n : Nat) (o : Object) (t : Traversal) :
    s.watchWithin n o (.ofTraversal t) = (s.projectWithin n o t).map Outcome.watched := by
  induction n generalizing o t with
  | zero => rfl
  | succ n ih =>
    have hfields := watchFields_ofTraversal (s := s) ih o.key o.fields ⟨o.name :: t.active, t.memo⟩
    rw [Watch.ofTraversal, List.toFinset_cons] at hfields
    rw [watchWithin, projectWithin]
    cases hm : t.memo.paths? (ident o) with
    | some paths => simp only [Watch.ofTraversal, hm]; rfl
    | none =>
      simp only [Watch.ofTraversal, hm, List.mem_toFinset, hfields]
      by_cases ha : o.name ∈ t.active
      · rw [if_pos ha, if_pos ha]; rfl
      · rw [if_neg ha, if_neg ha]
        by_cases hf : o.fields.isEmpty = true
        · rw [if_pos hf, if_pos hf]; rfl
        · rw [if_neg hf, if_neg hf]
          cases he : s.projectFields (s.projectWithin n) o.key o.fields ⟨o.name :: t.active, t.memo⟩ with
          | none => rfl
          | some x =>
            obtain ⟨r, t'⟩ := x
            have hx : t'.active = o.name :: t.active := active_of_projectFields he
            have herase : t'.active.toFinset.erase o.name = (t'.active.erase o.name).toFinset := by
              rw [hx, toFinset_erase_cons ha]
            cases r <;> simp only [Option.map_some, Outcome.watched, Watch.ofTraversal, herase]

theorem isSome_watchWithin (o : Object) (w : Watch) : (s.watchWithin (s.size + 2) o w).isSome := by
  obtain ⟨t, rfl⟩ := w.exists_ofTraversal
  rw [watchWithin_ofTraversal, Option.isSome_map]
  exact isSome_projectWithin o t

/-! ### Calls -/

variable (s)

/-- The paths of an object, absent when it has no fields, or the cycle that was met. -/
def watch (o : Object) (w : Watch) : Watched (Option (List String)) :=
  (s.watchWithin (s.size + 2) o w).get (isSome_watchWithin o w)

/-- The text of the query on an object, from `source` if that is given. -/
def watchQuery (o : Object) (source : Option String) (w : Watch) : Watched (Option String) :=
  (s.watch o w).map (·.map (queryText · (source.getD o.name)))

variable {s}

theorem watch_ofTraversal (o : Object) (t : Traversal) :
    s.watch o (.ofTraversal t) = (s.project o t).watched := by
  refine Option.some.inj ?_
  rw [watch, Option.some_get, watchWithin_ofTraversal, projectWithin_size_add_two, Option.map_some]

theorem watchQuery_ofTraversal (o : Object) (source : Option String) (t : Traversal) :
    s.watchQuery o source (.ofTraversal t) = (s.query o source t).watched := by
  rw [watchQuery, watch_ofTraversal]
  rfl

variable (s)

/-- A call gives the active names back as it got them, whatever they are, whatever is remembered and
however the call ends; so it is for names in a set, for names in a list, and the answers are the
same. -/
theorem watch_restores (o : Object) (source : Option String) :
    (∀ w, (s.watch o w).2.active = w.active ∧ (s.watchQuery o source w).2.active = w.active) ∧
    (∀ t, (s.project o t).2.active = t.active ∧ (s.query o source t).2.active = t.active) ∧
    (∀ t, s.watch o (.ofTraversal t) = (s.project o t).watched ∧
      s.watchQuery o source (.ofTraversal t) = (s.query o source t).watched) := by
  refine ⟨fun w => ?_, fun t => ⟨active_project o t, active_project o t⟩,
    fun t => ⟨watch_ofTraversal o t, watchQuery_ofTraversal o source t⟩⟩
  obtain ⟨t, rfl⟩ := w.exists_ofTraversal
  have hw : (s.watch o (.ofTraversal t)).2.active = t.active.toFinset := by
    rw [watch_ofTraversal, Outcome.watched, Watch.ofTraversal, active_project]
  exact ⟨hw, hw⟩

end Schema
end Soql
