import Mathlib.Data.List.Basic
import Soql.Proofs.Reference

/-!
# The plain reading of an object

What an object projects to, read off the schema alone: nothing is remembered and no name is guarded.
`plainWithin` reads as many objects inside one another as it is told; an acyclic object needs no
more than there are in the schema, so `plainPaths` satisfies the recursive equation
(`plainPaths_eq`).
-/

namespace Soql.Schema

variable {s : Schema} {o : Object}

/-- What a field adds, when `paths` gives the paths of the objects that have fields. -/
def plainField (s : Schema) (paths : Object → List String) (key : String) (f : Field) : List String :=
  match s.target? key f with
  | none => [f.name]
  | some t =>
    if f.isCollection then
      if t.fields = [] then [] else ["(SELECT " ++ ", ".intercalate (paths t) ++ " FROM " ++ f.name ++ ")"]
    else
      if t.fields = [] then [f.name] else (paths t).map fun p => f.name ++ "." ++ p

def plainWithin (s : Schema) : Nat → Object → List String
  | 0, _ => []
  | depth + 1, o => o.fields.flatMap (s.plainField (s.plainWithin depth) o.key)

def plainPaths (s : Schema) (o : Object) : List String := s.plainWithin (s.size + 1) o

/-- The answer about an object by the plain reading: nothing for one without fields. -/
def plain? (s : Schema) (o : Object) : Option (List String) :=
  if o.fields = [] then none else some (s.plainPaths o)

theorem plainField_congr {p q : Object → List String} {key : String} {f : Field}
    (h : ∀ t, s.target? key f = some t → p t = q t) : s.plainField p key f = s.plainField q key f := by
  rw [plainField, plainField]
  split
  · rfl
  · rename_i t ht
    rw [h t ht]

theorem flatMap_plainField_congr {p q : Object → List String} (h : ∀ t, s.Refers o t → p t = q t) :
    o.fields.flatMap (s.plainField p o.key) = o.fields.flatMap (s.plainField q o.key) :=
  List.flatMap_congr fun f hf => plainField_congr fun t ht => h t ⟨f, hf, ht⟩

theorem plainWithin_succ (h : s.Acyclic o) :
    ∀ {n}, s.rank o < n → s.plainWithin (n + 1) o = s.plainWithin n o := by
  induction h using Acyclic.induction with
  | step o h ih =>
    intro n hn
    obtain ⟨n, rfl⟩ : ∃ k, n = k + 1 := ⟨n - 1, by omega⟩
    refine flatMap_plainField_congr fun t ht => ih t ht ?_
    have := rank_lt_of_refers h ht
    omega

theorem plainPaths_eq (h : s.Acyclic o) :
    s.plainPaths o = o.fields.flatMap (s.plainField s.plainPaths o.key) := by
  have hr := rank_le_size (s := s) (o := o)
  refine flatMap_plainField_congr fun t ht => (plainWithin_succ (h.of_refers ht) ?_).symm
  have := rank_lt_of_refers h ht
  omega

theorem plain?_eq_some_iff {paths : List String} :
    s.plain? o = some paths ↔ o.fields ≠ [] ∧ s.plainPaths o = paths := by
  by_cases h : o.fields = [] <;> simp [plain?, h]

theorem plain?_eq_none_iff : s.plain? o = none ↔ o.fields = [] := by
  by_cases h : o.fields = [] <;> simp [plain?, h]

theorem plainField_of_none {key : String} {f : Field} (h : s.target? key f = none) :
    s.plainField s.plainPaths key f = [f.name] := by
  rw [plainField, h]

end Soql.Schema
