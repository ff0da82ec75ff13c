import Mathlib.Data.List.Chain
import Soql.Projection

/-!
# The grammar of queries

A query selects items from a name; an item is a dotted path of names, or a whole query in
parentheses (`Derives`). Names are words over the characters of `letter`. Main statement: where
neither the point nor the parenthesis is such a character, no text of the grammar has a point right
before a parenthesis (`Derives.unjoined`).
-/

namespace Soql

/-- A word of at least one character. -/
def IsName (letter : Char → Prop) (s : String) : Prop := s ≠ "" ∧ ∀ c ∈ s.toList, letter c

instance (letter : Char → Prop) [DecidablePred letter] : DecidablePred (IsName letter) :=
  fun s => @instDecidableAnd _ _ _ (List.decidableBAll letter s.toList)

/-- Letters, digits and the underscore. -/
def IsWordChar (c : Char) : Prop := c.isAlphanum ∨ c = '_'

instance : DecidablePred IsWordChar := fun _ => inferInstanceAs (Decidable (_ ∨ _))

/-- What texts of the grammar stand for. -/
inductive Part where
  | path
  | item
  | items
  | query
deriving DecidableEq, Repr

/-- The texts of the grammar over names of the given characters. -/
inductive Derives (letter : Char → Prop) : Part → String → Prop
  | name {n : String} (h : IsName letter n) : Derives letter .path n
  | dot {n p : String} (hn : IsName letter n) (hp : Derives letter .path p) :
    Derives letter .path (n ++ "." ++ p)
  | path {p : String} (h : Derives letter .path p) : Derives letter .item p
  | nested {q : String} (h : Derives letter .query q) : Derives letter .item ("(" ++ q ++ ")")
  | last {i : String} (h : Derives letter .item i) : Derives letter .items i
  | more {i is : String} (hi : Derives letter .item i) (his : Derives letter .items is) :
    Derives letter .items (i ++ ", " ++ is)
  | query {is n : String} (his : Derives letter .items is) (hn : IsName letter n) :
    Derives letter .query ("SELECT " ++ is ++ " FROM " ++ n)

variable {letter : Char → Prop} {s t n : String} {part : Part}

theorem derives_intercalate {items : List String} (hne : items ≠ [])
    (h : ∀ i ∈ items, Derives letter .item i) : Derives letter .items (", ".intercalate items) := by
  induction items with
  | nil => exact absurd rfl hne
  | cons i items ih =>
    have hi := h i (List.mem_cons_self ..)
    by_cases he : items = []
    · rw [he, String.intercalate_singleton]
      exact .last hi
    · rw [String.intercalate_cons_of_ne_nil he]
      exact .more hi (ih he fun j hj => h j (List.mem_cons_of_mem _ hj))

theorem derives_queryText {items : List String} (hne : items ≠ [])
    (h : ∀ i ∈ items, Derives letter .item i) (hn : IsName letter n) :
    Derives letter .query (queryText items n) :=
  .query (derives_intercalate hne h) hn

/-! ### Points and parentheses -/

/-- No point stands right before an opening parenthesis. -/
def Unjoined (s : String) : Prop := s.toList.IsChain fun a b => a = '.' → b ≠ '('

theorem getLast?_toList_append (h : t.toList ≠ []) :
    (s ++ t).toList.getLast? = t.toList.getLast? := by
  rw [String.toList_append, List.getLast?_append_of_ne_nil _ h]

instance : DecidablePred Unjoined := fun s => inferInstanceAs (Decidable (List.IsChain _ s.toList))

namespace Unjoined

protected theorem append (hs : Unjoined s) (ht : Unjoined t)
    (h : s.toList.getLast? = some '.' → t.toList.head? ≠ some '(') : Unjoined (s ++ t) := by
  rw [Unjoined, String.toList_append]
  refine List.IsChain.append hs ht ?_
  rintro a ha b hb rfl rfl
  exact h ha hb

theorem append_of_head (hs : Unjoined s) (ht : Unjoined t) (h : t.toList.head? ≠ some '(') :
    Unjoined (s ++ t) := hs.append ht fun _ => h

theorem append_of_last (hs : Unjoined s) (ht : Unjoined t) (h : s.toList.getLast? ≠ some '.') :
    Unjoined (s ++ t) := hs.append ht fun e => absurd e h

theorem not_of_infix (h : ['.', '('] <:+: s.toList) : ¬ Unjoined s := by
  intro hs
  have hc := List.IsChain.infix hs h
  simp at hc

end Unjoined

namespace IsName

theorem unjoined (h : IsName letter n) (hpoint : ¬ letter '.') : Unjoined n := by
  refine List.isChain_iff_forall_rel_of_append_cons_cons.2 fun {a b l₁ l₂} e => ?_
  rintro rfl
  exact absurd (h.2 '.' (by simp [e])) hpoint

theorem head?_ne (h : IsName letter n) (hparen : ¬ letter '(') : n.toList.head? ≠ some '(' :=
  fun e => hparen (h.2 _ (List.mem_of_mem_head? e))

theorem toList_ne_nil (h : IsName letter n) : n.toList ≠ [] := by
  simpa using h.1

end IsName

namespace Derives

theorem head?_of_path (h : Derives letter .path s) (hparen : ¬ letter '(') : s.toList.head? ≠ some '(' := by
  cases h with
  | name h => exact h.head?_ne hparen
  | @dot n p h hp =>
    rw [String.toList_append, String.toList_append, List.append_assoc,
      List.head?_append_of_ne_nil _ h.toList_ne_nil]
    exact h.head?_ne hparen

theorem unjoined (h : Derives letter part s) (hpoint : ¬ letter '.') (hparen : ¬ letter '(') :
    Unjoined s := by
  induction h with
  | name h => exact h.unjoined hpoint
  | dot hn hp ih =>
    have h := (hn.unjoined hpoint).append_of_head (t := ".") (by decide) (by decide)
    exact h.append ih fun _ => hp.head?_of_path hparen
  | path _ ih => exact ih
  | nested _ ih =>
    have h : Unjoined ("(" ++ _) := Unjoined.append_of_last (by decide) ih (by decide)
    exact h.append_of_head (by decide) (by decide)
  | last _ ih => exact ih
  | more _ _ ihi ihis =>
    have h := ihi.append_of_head (t := ", ") (by decide) (by decide)
    exact h.append_of_last ihis (by rw [getLast?_toList_append (by decide)]; decide)
  | query _ hn ih =>
    have h : Unjoined ("SELECT " ++ _) := Unjoined.append_of_last (by decide) ih (by decide)
    have h := h.append_of_head (t := " FROM ") (by decide) (by decide)
    exact h.append_of_last (hn.unjoined hpoint) (by rw [getLast?_toList_append (by decide)]; decide)

end Derives

end Soql
