import Mathlib.Algebra.GroupWithZero.Nat
import Mathlib.Data.List.Dedup
import Soql.Index

/-!
# Indexes class by class

A collection can be kept in two levels: under each class name a shelf, and on the shelf an entry under
each key. Whatever is in it stands under its own class name and key (`Shelves.placed`). To walk along
the shelves in the order of their classes is to walk along the entries in the order of their identities,
so the shelves in a row are an index (`Shelves.index`). An insertion, which looks at one shelf only and
puts up a new one if there is none, is an insertion into that index (`Shelves.index_insert`), and lookups
and sizes are the same.
-/

namespace Soql

/-- A collection in two levels. -/
structure Shelves (α : Type) [Identified α] where
  classes : Std.TreeMap String (Std.TreeMap String α)
  placed : ∀ c shelf k a, classes[c]? = some shelf → shelf[k]? = some a → ident a = ⟨c, k⟩

namespace Shelves
variable {α : Type} [Identified α]

def empty : Shelves α := ⟨∅, fun c shelf k a h => by simp at h⟩

/-- The entries of a class with one more. -/
def extended (classes : Std.TreeMap String (Std.TreeMap String α)) (a : α) :
    Std.TreeMap String (Std.TreeMap String α) :=
  classes.alter (ident a).className fun shelf => some ((shelf.getD ∅).insert (ident a).key a)

theorem getElem?_extended (classes : Std.TreeMap String (Std.TreeMap String α)) (a : α) (c : String) :
    (extended classes a)[c]? =
      if (ident a).className = c then some ((classes[c]?.getD ∅).insert (ident a).key a) else classes[c]? := by
  simp only [extended, Std.TreeMap.getElem?_alter, Std.compare_eq_iff_eq]
  split
  · rename_i h
    rw [h]
  · rfl

omit [Identified α] in
theorem getElem?_insert_shelf (shelf : Std.TreeMap String α) (key k : String) (a : α) :
    (shelf.insert key a)[k]? = if key = k then some a else shelf[k]? := by
  simp only [Std.TreeMap.getElem?_insert, Std.compare_eq_iff_eq]

/-- Adds an entry; an entry of the same class and key gives way. -/
def insert (t : Shelves α) (a : α) : Shelves α where
  classes := extended t.classes a
  placed := by
    intro c shelf k b hshelf hb
    rw [getElem?_extended] at hshelf
    split at hshelf
    · rename_i hc
      obtain rfl := Option.some.inj hshelf
      rw [getElem?_insert_shelf] at hb
      split at hb
      · rename_i hk
        obtain rfl := Option.some.inj hb
        rw [← hc, ← hk]
      · cases h : t.classes[c]? with
        | none => simp [h] at hb
        | some shelf' =>
          rw [h, Option.getD_some] at hb
          exact t.placed c shelf' k b h hb
    · exact t.placed c shelf k b hshelf hb

def ofList (l : List α) : Shelves α := l.foldl insert empty

def get? (t : Shelves α) (i : Ident) : Option α := t.classes[i.className]?.bind (·[i.key]?)

/-- The entries, shelf after shelf. -/
def toList (t : Shelves α) : List α := t.classes.toList.flatMap fun shelf => shelf.2.toList.map (·.2)

def size (t : Shelves α) : Nat := (t.classes.toList.map fun shelf => shelf.2.size).sum

def isEmpty (t : Shelves α) : Bool := decide (t.size = 0)

theorem get?_insert (t : Shelves α) (a : α) (i : Ident) :
    (t.insert a).get? i = if ident a = i then some a else t.get? i := by
  obtain ⟨c, k⟩ := i
  show (extended t.classes a)[c]?.bind (·[k]?) = _
  rw [getElem?_extended]
  by_cases hc : (ident a).className = c
  · rw [if_pos hc, Option.bind_some, getElem?_insert_shelf]
    by_cases hk : (ident a).key = k
    · rw [if_pos hk, if_pos]
      rw [← hc, ← hk]
    · rw [if_neg hk, if_neg (fun e => hk (congrArg Ident.key e)), get?]
      cases t.classes[c]? <;> simp
  · rw [if_neg hc, if_neg (fun e => hc (congrArg Ident.className e)), get?]

/-! ### The shelves in a row -/

theorem mem_toList_iff {t : Shelves α} {a : α} : a ∈ t.toList ↔ t.get? (ident a) = some a := by
  simp only [toList, List.mem_flatMap, List.mem_map, Prod.exists, exists_eq_right,
    Std.TreeMap.mem_toList_iff_getElem?_eq_some]
  constructor
  · rintro ⟨c, shelf, hshelf, k, ha⟩
    rw [t.placed c shelf k a hshelf ha, get?, hshelf]
    exact ha
  · intro h
    obtain ⟨shelf, hshelf, ha⟩ := Option.bind_eq_some_iff.1 h
    exact ⟨_, shelf, hshelf, _, ha⟩

theorem ident_of_get? {t : Shelves α} {i : Ident} {a : α} (h : t.get? i = some a) : ident a = i := by
  obtain ⟨shelf, hshelf, ha⟩ := Option.bind_eq_some_iff.1 h
  exact t.placed _ shelf _ a hshelf ha

theorem lt_of_compare {s t : String} (h : compare s t = .lt) : s < t := compareOfLessAndEq_eq_lt.1 h

/-- Keys are in order on a shelf, and so are the classes of the shelves. -/
theorem sorted_toList (t : Shelves α) : t.toList.Pairwise (ident · < ident ·) := by
  have hident : ∀ {c : String} {shelf : Std.TreeMap String α compare} {k : String} {a : α},
      (c, shelf) ∈ t.classes.toList → (k, a) ∈ shelf.toList → ident a = ⟨c, k⟩ := by
    intro c shelf k a hshelf ha
    exact t.placed c shelf k a (Std.TreeMap.mem_toList_iff_getElem?_eq_some.1 hshelf)
      (Std.TreeMap.mem_toList_iff_getElem?_eq_some.1 ha)
  refine List.pairwise_flatMap.2 ⟨?_, ?_⟩
  · rintro ⟨c, shelf⟩ hshelf
    refine List.pairwise_map.2 ((Std.TreeMap.ordered_keys_toList (t := shelf)).imp_of_mem ?_)
    rintro ⟨k, a⟩ ⟨k', b⟩ ha hb hlt
    rw [hident hshelf ha, hident hshelf hb]
    exact .inr ⟨rfl, lt_of_compare hlt⟩
  · refine (Std.TreeMap.ordered_keys_toList (t := t.classes)).imp_of_mem ?_
    rintro ⟨c, shelf⟩ ⟨c', shelf'⟩ hshelf hshelf' hlt x hx y hy
    obtain ⟨⟨k, a⟩, ha, rfl⟩ := List.mem_map.1 hx
    obtain ⟨⟨k', b⟩, hb, rfl⟩ := List.mem_map.1 hy
    rw [hident hshelf ha, hident hshelf' hb]
    exact .inl (lt_of_compare hlt)

/-- The shelves in a row. -/
def index (t : Shelves α) : Index α := ⟨t.toList, t.sorted_toList⟩

theorem get?_index (t : Shelves α) (i : Ident) : t.index.get? i = t.get? i := by
  ext a
  rw [Index.get?_eq_some_iff]
  show a ∈ t.toList ∧ ident a = i ↔ _
  rw [mem_toList_iff]
  constructor
  · rintro ⟨h, rfl⟩
    exact h
  · intro h
    rw [ident_of_get? h]
    exact ⟨h, rfl⟩

theorem index_insert (t : Shelves α) (a : α) : (t.insert a).index = t.index.insert a :=
  Index.ext_get? fun i => by rw [get?_index, get?_insert, Index.get?_insert, get?_index]

theorem index_ofList (l : List α) : (ofList l).index = .ofList l := by
  have hempty : (empty : Shelves α).index = .empty := by
    refine Index.ext_get? fun i => ?_
    rw [get?_index]
    rfl
  rw [ofList, ← List.foldl_hom index fun t a => (index_insert t a).symm, hempty, Index.ofList]

theorem size_index (t : Shelves α) : t.index.size = t.size := by
  show t.toList.length = _
  rw [toList, List.length_flatMap, size]
  simp only [List.length_map, Std.TreeMap.length_toList]

theorem isEmpty_index (t : Shelves α) : t.index.isEmpty = t.isEmpty := by
  rw [isEmpty, ← size_index, Index.isEmpty, Index.size, Bool.eq_iff_iff, List.isEmpty_iff, decide_eq_true_iff,
    List.length_eq_zero_iff]

end Shelves
end Soql
