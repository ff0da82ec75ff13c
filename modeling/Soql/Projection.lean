import Soql.Diagnostic
import Soql.Schema

/-!
# Projections

The paths that a query on an object selects. A field that refers to no object of the schema is
selected by its name. One that refers to an object brings in that object's paths: each after the
field's name and a point, or, for a collection, all of them as one sub-query.

Paths are remembered per object. The names of the objects being expanded are the active ones, and
meeting an active name again is a cycle. An expansion can only go as deep as there are names that
are not active yet, so a budget of that many steps is enough, and the active names come back as
they were (`settles_projectWithin`).
-/

namespace Soql

def queryText (paths : List String) (source : String) : String :=
  "SELECT " ++ ", ".intercalate paths ++ " FROM " ++ source

/-- What a field adds to the paths of its owner, given those of the object it refers to. A
collection of an object without fields adds nothing. -/
def Field.expand (f : Field) : Option (List String) → List String
  | some paths =>
    if f.isCollection then ["(" ++ queryText paths f.name ++ ")"]
    else paths.map (f.name ++ "." ++ ·)
  | none => if f.isCollection then [] else [f.name]

structure Projection where
  owner : Ident
  paths : List String
deriving DecidableEq, Repr

instance : Identified Projection := ⟨Projection.owner⟩

abbrev Memo := Index Projection

namespace Memo

def paths? (m : Memo) (i : Ident) : Option (List String) := (m.get? i).map (·.paths)

def remember (m : Memo) (i : Ident) (paths : List String) : Memo := m.insert ⟨i, paths⟩

@[simp] theorem paths?_empty (i : Ident) : paths? ∅ i = none := rfl

@[simp] theorem paths?_remember (m : Memo) (i j : Ident) (paths : List String) :
    (m.remember i paths).paths? j = if i = j then some paths else m.paths? j := by
  rw [paths?, remember, Index.get?_insert]
  show Option.map _ (if i = j then _ else _) = _
  split <;> rfl

@[simp] theorem paths?_erase (m : Memo) (i j : Ident) :
    paths? (m.erase i) j = if i = j then none else m.paths? j := by
  rw [paths?, Index.get?_erase]; split <;> rfl

end Memo

/-- An object whose name was met while it was active. -/
structure Cycle where
  objectName : String
  ident : Ident
deriving DecidableEq, Repr

def Cycle.diagnostic (c : Cycle) : Diagnostic := .ofObject .cyclic c.objectName c.ident none

/-- Where an expansion stands: the names being expanded, innermost first, and what is known. -/
structure Traversal where
  active : List String
  memo : Memo

/-- A result, or the cycle that was met, and where the expansion stands after it. -/
abbrev Outcome (α : Type) := Except Cycle α × Traversal

def Outcome.map {α β : Type} (f : α → β) (x : Outcome α) : Outcome β := (x.1.map f, x.2)

namespace Schema
variable (s : Schema)

/-- The paths of a list of fields, when `resolve` gives those of the objects they refer to. -/
def projectFields (resolve : Object → Traversal → Option (Outcome (Option (List String))))
    (key : String) : List Field → Traversal → Option (Outcome (List String))
  | [], t => some (.ok [], t)
  | f :: fs, t =>
    match s.target? key f with
    | none => (projectFields resolve key fs t).map (·.map ([f.name] ++ ·))
    | some o =>
      match resolve o t with
      | none => none
      | some (.error c, t) => some (.error c, t)
      | some (.ok paths, t) => (projectFields resolve key fs t).map (·.map (f.expand paths ++ ·))

/-- The paths of an object, expanding objects inside one another at most `budget` deep; absent when
that is not deep enough. -/
def projectWithin (budget : Nat) (o : Object) (t : Traversal) :
    Option (Outcome (Option (List String))) :=
  match budget with
  | 0 => none
  | budget + 1 =>
    match t.memo.paths? (ident o) with
    | some paths => some (.ok (some paths), t)
    | none =>
      if o.name ∈ t.active then some (.error ⟨o.name, ident o⟩, t)
      else if o.fields.isEmpty then some (.ok none, t)
      else
        match s.projectFields (projectWithin budget) o.key o.fields ⟨o.name :: t.active, t.memo⟩ with
        | none => none
        | some (.error c, t) => some (.error c, ⟨t.active.erase o.name, t.memo⟩)
        | some (.ok paths, t) =>
          some (.ok (some paths), ⟨t.active.erase o.name, t.memo.remember (ident o) paths⟩)

/-- The names of the objects of a key that are not active, each once. -/
def openNames (key : String) (active : List String) : List String :=
  (((s.toList.filter (·.key = key)).map (·.name)).filter (· ∉ active)).eraseDups

/-! ### Enough budget -/

theorem filter_filter_comm (p q : String → Bool) (l : List String) :
    (l.filter p).filter q = (l.filter q).filter p := by
  simp only [List.filter_filter]
  exact List.filter_congr fun a _ => Bool.and_comm ..

theorem length_eraseDups_filter_le (p : String → Bool) (l : List String) :
    (l.filter p).eraseDups.length ≤ l.eraseDups.length := by
  match l with
  | [] => simp
  | a :: l =>
    have ih := length_eraseDups_filter_le p (l.filter fun b => !b == a)
    rw [List.eraseDups_cons]
    by_cases ha : p a
    · rw [List.filter_cons_of_pos ha, List.eraseDups_cons, filter_filter_comm p]
      exact Nat.succ_le_succ ih
    · have e : l.filter p = (l.filter fun b => !b == a).filter p := by
        rw [List.filter_filter]
        refine List.filter_congr fun b _ => ?_
        by_cases hb : b = a
        · subst hb; simp [ha]
        · simp [hb]
      rw [List.filter_cons_of_neg ha, e]
      exact Nat.le_succ_of_le ih
termination_by l.length
decreasing_by simp only [List.length_cons]; have := List.length_filter_le (fun b => !b == a) l; omega

theorem length_eraseDups_filter_ne_lt {a : String} {l : List String} (h : a ∈ l) :
    (l.filter (· ≠ a)).eraseDups.length < l.eraseDups.length := by
  match l with
  | [] => cases h
  | b :: l =>
    rw [List.eraseDups_cons (a := b)]
    by_cases hb : b = a
    · subst hb
      rw [List.filter_cons_of_neg (by simp)]
      refine Nat.lt_succ_of_le (Nat.le_of_eq ?_)
      exact congrArg (fun l => (List.eraseDups l).length) (List.filter_congr fun c _ => by
        by_cases hc : c = b <;> simp [hc])
    · have hm : a ∈ l.filter fun c => !c == b :=
        List.mem_filter.2 ⟨(List.mem_cons.1 h).resolve_left (Ne.symm hb), by simp [Ne.symm hb]⟩
      have ih := length_eraseDups_filter_ne_lt hm
      rw [List.filter_cons_of_pos (by simpa using hb), List.eraseDups_cons, filter_filter_comm]
      exact Nat.succ_lt_succ ih
termination_by l.length
decreasing_by simp only [List.length_cons]; have := List.length_filter_le (fun c => !c == b) l; omega

variable {s}

theorem openNames_cons (key name : String) (active : List String) :
    s.openNames key (name :: active) =
      ((((s.toList.filter (·.key = key)).map (·.name)).filter (· ∉ active)).filter (· ≠ name)).eraseDups := by
  rw [openNames, List.filter_filter]
  exact congrArg List.eraseDups (List.filter_congr fun a _ => by simp [not_or])

theorem length_openNames_cons_le (key name : String) (active : List String) :
    (s.openNames key (name :: active)).length ≤ (s.openNames key active).length := by
  rw [openNames_cons]; exact length_eraseDups_filter_le _ _

theorem length_openNames_cons_lt {o : Object} (ho : o ∈ s.toList) {active : List String}
    (h : o.name ∉ active) :
    (s.openNames o.key (o.name :: active)).length < (s.openNames o.key active).length := by
  rw [openNames_cons]
  exact length_eraseDups_filter_ne_lt (by
    simp only [List.mem_filter, List.mem_map]
    exact ⟨⟨o, ⟨ho, by simp⟩, rfl⟩, by simpa using h⟩)

/-- An answer that leaves the active names as they were. -/
def Settles (active : List String) {α : Type} (x : Option (Outcome α)) : Prop :=
  ∃ r t, x = some (r, t) ∧ t.active = active

theorem Settles.map {active : List String} {α β : Type} {x : Option (Outcome α)}
    (h : Settles active x) (f : α → β) : Settles active (x.map (·.map f)) := by
  obtain ⟨r, t, rfl, ht⟩ := h
  exact ⟨_, t, rfl, ht⟩

theorem settles_projectFields {resolve : Object → Traversal → Option (Outcome (Option (List String)))}
    {key : String} {active : List String}
    (h : ∀ o ∈ s.toList, o.key = key → ∀ t, t.active = active → Settles active (resolve o t))
    (fs : List Field) (t : Traversal) (ht : t.active = active) :
    Settles active (s.projectFields resolve key fs t) := by
  induction fs generalizing t with
  | nil => exact ⟨_, t, rfl, ht⟩
  | cons f fs ih =>
    rw [projectFields]
    split
    · exact (ih t ht).map _
    · rename_i o ho
      obtain ⟨r, t', e, ht'⟩ := h o (mem_of_target? ho) (key_of_target? ho) t ht
      rw [e]
      cases r with
      | error c => exact ⟨_, t', rfl, ht'⟩
      | ok paths => exact (ih t' ht').map _

theorem settles_projectWithin_succ {n : Nat} {o : Object} {t : Traversal}
    (h : o.name ∉ t.active → ∀ o' ∈ s.toList, o'.key = o.key → ∀ t' : Traversal,
      t'.active = o.name :: t.active → Settles (o.name :: t.active) (s.projectWithin n o' t')) :
    Settles t.active (s.projectWithin (n + 1) o t) := by
  rw [projectWithin]
  split
  · exact ⟨_, t, rfl, rfl⟩
  · split
    · exact ⟨_, t, rfl, rfl⟩
    · rename_i hname
      split
      · exact ⟨_, t, rfl, rfl⟩
      · obtain ⟨r, t', e, ht'⟩ :=
          settles_projectFields (h hname) o.fields ⟨o.name :: t.active, t.memo⟩ rfl
        rw [e]
        cases r <;> exact ⟨_, _, rfl, by simp [ht']⟩

/-- A budget of one step more than there are open names is enough for an object of the schema, and
the active names come back as they were. -/
theorem settles_projectWithin (n : Nat) (o : Object) (t : Traversal) (ho : o ∈ s.toList)
    (h : (s.openNames o.key t.active).length < n) : Settles t.active (s.projectWithin n o t) := by
  induction n generalizing o t with
  | zero => omega
  | succ n ih =>
    refine settles_projectWithin_succ fun hname o' ho' hkey t' ht' => ?_
    have := length_openNames_cons_lt ho hname
    rw [← ht']
    exact ih o' t' ho' (by rw [hkey, ht']; omega)

/-- One more step is enough for an object that need not be in the schema itself. -/
theorem settles_projectWithin_of_lt (n : Nat) (o : Object) (t : Traversal)
    (h : (s.openNames o.key t.active).length + 1 < n) :
    Settles t.active (s.projectWithin n o t) := by
  obtain ⟨n, rfl⟩ : ∃ k, n = k + 1 := ⟨n - 1, by omega⟩
  refine settles_projectWithin_succ fun _ o' ho' hkey t' ht' => ?_
  have := length_openNames_cons_le (s := s) o.key o.name t.active
  rw [← ht']
  exact settles_projectWithin n o' t' ho' (by rw [hkey, ht']; omega)

theorem length_eraseDups_le (l : List String) : l.eraseDups.length ≤ l.length := by
  match l with
  | [] => simp
  | a :: l =>
    have ih := length_eraseDups_le (l.filter fun b => !b == a)
    have := List.length_filter_le (fun b => !b == a) l
    rw [List.eraseDups_cons, List.length_cons, List.length_cons]
    omega
termination_by l.length
decreasing_by simp only [List.length_cons]; have := List.length_filter_le (fun b => !b == a) l; omega

theorem length_openNames_le (key : String) (active : List String) :
    (s.openNames key active).length ≤ s.size := by
  refine Nat.le_trans (length_eraseDups_le _) (Nat.le_trans (List.length_filter_le ..) ?_)
  rw [List.length_map]
  exact List.length_filter_le ..

theorem isSome_projectWithin (o : Object) (t : Traversal) :
    (s.projectWithin (s.size + 2) o t).isSome := by
  obtain ⟨r, t', e, _⟩ := settles_projectWithin_of_lt (s.size + 2) o t
    (Nat.lt_succ_of_le (Nat.succ_le_succ (length_openNames_le ..)))
  rw [e]; rfl

variable (s)

/-- The paths of an object, absent when it has no fields, or the cycle that was met. -/
def project (o : Object) (t : Traversal) : Outcome (Option (List String)) :=
  (s.projectWithin (s.size + 2) o t).get (isSome_projectWithin o t)

/-- The text of the query on an object, from `source` if that is given. -/
def query (o : Object) (source : Option String) (t : Traversal) : Outcome (Option String) :=
  (s.project o t).map (·.map (queryText · (source.getD o.name)))

end Schema
end Soql
