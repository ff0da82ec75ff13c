import Soql.Ident

/-!
# Indexes

A finite collection of things that each have an identity, at most one per identity, kept in
ascending order of identity. Equal contents are equal indexes. Main statements: `get?_insert` (a
lookup sees the last insertion) and `Index.ext_get?` (lookups determine the index).
-/

namespace Soql

/-- Things that stand for one object view. -/
class Identified (α : Type) where
  ident : α → Ident

export Identified (ident)

/-- A collection with one entry per identity, in ascending order of identity. -/
structure Index (α : Type) [Identified α] where
  toList : List α
  sorted : toList.Pairwise (ident · < ident ·)

namespace Index
variable {α : Type} [Identified α]

/-- Puts an entry in its place, over an entry of the same identity. -/
def place (a : α) : List α → List α
  | [] => [a]
  | b :: l =>
    if ident a < ident b then a :: b :: l
    else if ident a = ident b then a :: l
    else b :: place a l

theorem mem_place {a x : α} {l : List α} (h : x ∈ place a l) : x = a ∨ x ∈ l := by
  induction l with
  | nil => exact .inl (List.mem_singleton.1 h)
  | cons b l ih =>
    rw [place] at h
    split at h
    · exact List.mem_cons.1 h
    · split at h
      · exact (List.mem_cons.1 h).imp id (List.mem_cons_of_mem b)
      · rcases List.mem_cons.1 h with rfl | h
        · exact .inr (List.mem_cons_self ..)
        · exact (ih h).imp id (List.mem_cons_of_mem b)

theorem sorted_place (a : α) {l : List α} (h : l.Pairwise (ident · < ident ·)) :
    (place a l).Pairwise (ident · < ident ·) := by
  induction l with
  | nil => exact List.pairwise_singleton ..
  | cons b l ih =>
    have hb := List.pairwise_cons.1 h
    rw [place]
    split
    · rename_i hab
      exact List.pairwise_cons.2 ⟨fun x hx => (List.mem_cons.1 hx).elim (fun e => e ▸ hab)
        (fun hx => Ident.lt_trans hab (hb.1 x hx)), h⟩
    · split
      · rename_i _ e
        exact List.pairwise_cons.2 ⟨fun x hx => e ▸ hb.1 x hx, hb.2⟩
      · rename_i hlt hne
        refine List.pairwise_cons.2 ⟨fun x hx => ?_, ih hb.2⟩
        rcases mem_place hx with rfl | hx
        · exact (Ident.lt_trichotomy (ident b) (ident x)).elim id
            fun h' => absurd (h'.imp Eq.symm id) (by rintro (e | e) <;> contradiction)
        · exact hb.1 x hx

def empty : Index α := ⟨[], .nil⟩

/-- Adds an entry; an entry of the same identity gives way. -/
def insert (x : Index α) (a : α) : Index α := ⟨place a x.toList, sorted_place a x.sorted⟩

def ofList (l : List α) : Index α := l.foldl insert empty

def erase (x : Index α) (i : Ident) : Index α :=
  ⟨x.toList.filter (ident · ≠ i), x.sorted.filter _⟩

def get? (x : Index α) (i : Ident) : Option α := x.toList.find? (ident · = i)

def contains (x : Index α) (i : Ident) : Bool := (x.get? i).isSome

def size (x : Index α) : Nat := x.toList.length

def isEmpty (x : Index α) : Bool := x.toList.isEmpty

def idents (x : Index α) : List Ident := x.toList.map ident

instance : Inhabited (Index α) := ⟨empty⟩

instance : EmptyCollection (Index α) := ⟨empty⟩

@[simp] theorem toList_empty : (∅ : Index α).toList = [] := rfl

@[simp] theorem toList_insert (x : Index α) (a : α) : (x.insert a).toList = place a x.toList := rfl

@[simp] theorem toList_erase (x : Index α) (i : Ident) :
    (x.erase i).toList = x.toList.filter (ident · ≠ i) := rfl

@[ext] theorem ext {x y : Index α} (h : x.toList = y.toList) : x = y := by
  cases x; cases y; cases h; rfl

theorem mem_of_get? {x : Index α} {i : Ident} {a : α} (h : x.get? i = some a) : a ∈ x.toList :=
  List.mem_of_find?_eq_some h

theorem ident_of_get? {x : Index α} {i : Ident} {a : α} (h : x.get? i = some a) : ident a = i := by
  simpa using List.find?_some h

theorem find?_of_sorted {l : List α} (hl : l.Pairwise (ident · < ident ·)) {a : α} (ha : a ∈ l) :
    l.find? (ident · = ident a) = some a := by
  induction l with
  | nil => cases ha
  | cons b l ih =>
    have hb := List.pairwise_cons.1 hl
    rcases List.mem_cons.1 ha with rfl | ha
    · simp
    · rw [List.find?_cons_of_neg (by simpa using Ident.ne_of_lt (hb.1 a ha))]
      exact ih hb.2 ha

theorem get?_of_mem {x : Index α} {a : α} (h : a ∈ x.toList) : x.get? (ident a) = some a :=
  find?_of_sorted x.sorted h

theorem get?_eq_some_iff {x : Index α} {i : Ident} {a : α} :
    x.get? i = some a ↔ a ∈ x.toList ∧ ident a = i :=
  ⟨fun h => ⟨mem_of_get? h, ident_of_get? h⟩, fun ⟨h, e⟩ => e ▸ get?_of_mem h⟩

@[simp] theorem get?_empty (i : Ident) : (∅ : Index α).get? i = none := rfl

theorem find?_place (a : α) (i : Ident) (l : List α) :
    (place a l).find? (ident · = i) = if ident a = i then some a else l.find? (ident · = i) := by
  induction l with
  | nil => by_cases h : ident a = i <;> simp [place, h]
  | cons b l ih =>
    rw [place]
    split
    · by_cases h : ident a = i <;> simp [h]
    · split
      · rename_i _ e
        by_cases h : ident a = i
        · simp [h]
        · rw [List.find?_cons_of_neg (by simpa using h),
            List.find?_cons_of_neg (by simpa using fun h' => h (e.trans h')), if_neg h]
      · rename_i hne
        by_cases h : ident b = i
        · rw [List.find?_cons_of_pos (by simpa using h), if_neg (fun h' => hne (h'.trans h.symm)),
            List.find?_cons_of_pos (by simpa using h)]
        · rw [List.find?_cons_of_neg (by simpa using h), ih, List.find?_cons_of_neg (by simpa using h)]

@[simp] theorem get?_insert (x : Index α) (a : α) (i : Ident) :
    (x.insert a).get? i = if ident a = i then some a else x.get? i := find?_place a i x.toList

theorem contains_iff {x : Index α} {i : Ident} : x.contains i = true ↔ ∃ a ∈ x.toList, ident a = i := by
  rw [contains, Option.isSome_iff_exists]
  exact exists_congr fun _ => get?_eq_some_iff

theorem contains_insert {x : Index α} {a : α} {i : Ident} :
    (x.insert a).contains i = true ↔ ident a = i ∨ x.contains i = true := by
  rw [contains, get?_insert, contains]
  by_cases h : ident a = i <;> simp [h]

theorem mem_insert_iff {x : Index α} {a b : α} (h : ¬ x.contains (ident a) = true) :
    b ∈ (x.insert a).toList ↔ b = a ∨ b ∈ x.toList := by
  have mem : ∀ y : Index α, b ∈ y.toList ↔ y.get? (ident b) = some b := fun y =>
    ⟨get?_of_mem, mem_of_get?⟩
  rw [mem, mem, get?_insert]
  by_cases e : ident a = ident b
  · have hb : x.get? (ident b) ≠ some b := fun hb => h (contains_iff.2 ⟨b, mem_of_get? hb, e.symm⟩)
    simp [e, hb, eq_comm]
  · have hne : b ≠ a := fun hb => e (hb ▸ rfl)
    simp [e, hne]

theorem length_place {a : α} {l : List α} (h : ∀ b ∈ l, ident b ≠ ident a) :
    (place a l).length = l.length + 1 := by
  induction l with
  | nil => rfl
  | cons b l ih =>
    rw [place]
    split
    · rfl
    · rw [if_neg (Ne.symm (h b (List.mem_cons_self ..))), List.length_cons,
        ih fun c hc => h c (List.mem_cons_of_mem b hc), List.length_cons]

theorem size_insert {x : Index α} {a : α} (h : ¬ x.contains (ident a) = true) :
    (x.insert a).size = x.size + 1 :=
  length_place fun b hb e => h (contains_iff.2 ⟨b, hb, e⟩)

theorem place_eq_append {a : α} {l : List α} (h : ∀ b ∈ l, ident b < ident a) :
    place a l = l ++ [a] := by
  induction l with
  | nil => rfl
  | cons b l ih =>
    have hb := h b (List.mem_cons_self ..)
    rw [place, if_neg (Ident.lt_asymm hb), if_neg (Ident.ne_of_lt hb).symm,
      ih fun c hc => h c (List.mem_cons_of_mem b hc), List.cons_append]

theorem toList_foldl_insert {x : Index α} {l : List α}
    (h : (x.toList ++ l).Pairwise (ident · < ident ·)) : (l.foldl insert x).toList = x.toList ++ l := by
  induction l generalizing x with
  | nil => rw [List.foldl_nil, List.append_nil]
  | cons a l ih =>
    have e : (x.insert a).toList = x.toList ++ [a] :=
      place_eq_append fun b hb => (List.pairwise_append.1 h).2.2 b hb a (List.mem_cons_self ..)
    rw [List.append_cons, ← e] at h
    rw [List.foldl_cons, ih h, e, ← List.append_cons]

/-- A list that is in order already is kept as it is. -/
theorem toList_ofList {l : List α} (h : l.Pairwise (ident · < ident ·)) : (ofList l).toList = l :=
  toList_foldl_insert (x := empty) h

theorem find?_filter_ne (i j : Ident) (l : List α) :
    (l.filter (ident · ≠ i)).find? (ident · = j) = if i = j then none else l.find? (ident · = j) := by
  induction l with
  | nil => simp
  | cons a l ih =>
    by_cases hi : ident a = i
    · rw [List.filter_cons_of_neg (by simpa using hi), ih]
      split
      · rfl
      · rename_i h
        rw [List.find?_cons_of_neg (by simpa using fun h' => h (hi.symm.trans h'))]
    · rw [List.filter_cons_of_pos (by simpa using hi)]
      by_cases hj : ident a = j
      · simp [hj, if_neg fun h : i = j => hi (hj.trans h.symm)]
      · rw [List.find?_cons_of_neg (by simpa using hj), ih, List.find?_cons_of_neg (by simpa using hj)]

@[simp] theorem get?_erase (x : Index α) (i j : Ident) :
    (x.erase i).get? j = if i = j then none else x.get? j := find?_filter_ne i j x.toList

theorem eq_of_sorted {l₁ l₂ : List α} (h₁ : l₁.Pairwise (ident · < ident ·))
    (h₂ : l₂.Pairwise (ident · < ident ·)) (hm : ∀ a, a ∈ l₁ ↔ a ∈ l₂) : l₁ = l₂ := by
  induction l₁ generalizing l₂ with
  | nil => cases l₂ with
    | nil => rfl
    | cons b l₂ => exact absurd ((hm b).2 (List.mem_cons_self ..)) (by simp)
  | cons a l₁ ih => cases l₂ with
    | nil => exact absurd ((hm a).1 (List.mem_cons_self ..)) (by simp)
    | cons b l₂ =>
      have ha := List.pairwise_cons.1 h₁
      have hb := List.pairwise_cons.1 h₂
      have hab : a = b := by
        rcases List.mem_cons.1 ((hm a).1 (List.mem_cons_self ..)) with e | hal
        · exact e
        · rcases List.mem_cons.1 ((hm b).2 (List.mem_cons_self ..)) with e | hbl
          · exact e.symm
          · exact absurd (ha.1 b hbl) (Ident.lt_asymm (hb.1 a hal))
      subst hab
      refine congrArg _ (ih ha.2 hb.2 fun c => ⟨fun hc => ?_, fun hc => ?_⟩)
      · exact (List.mem_cons.1 ((hm c).1 (List.mem_cons_of_mem a hc))).resolve_left
          fun e => Ident.lt_irrefl _ (e ▸ ha.1 c hc)
      · exact (List.mem_cons.1 ((hm c).2 (List.mem_cons_of_mem a hc))).resolve_left
          fun e => Ident.lt_irrefl _ (e ▸ hb.1 c hc)

theorem ext_mem {x y : Index α} (h : ∀ a, a ∈ x.toList ↔ a ∈ y.toList) : x = y :=
  ext (eq_of_sorted x.sorted y.sorted h)

theorem ext_get? {x y : Index α} (h : ∀ i, x.get? i = y.get? i) : x = y :=
  ext_mem fun _ => ⟨fun ha => mem_of_get? ((h _).symm.trans (get?_of_mem ha)),
    fun ha => mem_of_get? ((h _).trans (get?_of_mem ha))⟩

/-! ### Changing the entries -/

section
variable {β : Type} [Identified β] {g : α → β}

/-- Changes the entries, but not their identities. -/
def map (g : α → β) (hg : ∀ a, ident (g a) = ident a) (x : Index α) : Index β :=
  ⟨x.toList.map g, List.pairwise_map.2 (x.sorted.imp fun h => by rwa [hg, hg])⟩

@[simp] theorem toList_map (hg : ∀ a, ident (g a) = ident a) (x : Index α) :
    (x.map g hg).toList = x.toList.map g := rfl

theorem get?_map (hg : ∀ a, ident (g a) = ident a) (x : Index α) (i : Ident) :
    (x.map g hg).get? i = (x.get? i).map g := by
  have hp : ((fun b => decide (ident b = i)) ∘ g) = fun a => decide (ident a = i) :=
    funext fun a => by rw [Function.comp_apply, hg]
  rw [get?, toList_map, List.find?_map, hp, get?]

theorem contains_map (hg : ∀ a, ident (g a) = ident a) (x : Index α) (i : Ident) :
    (x.map g hg).contains i = x.contains i := by
  rw [contains, get?_map, Option.isSome_map, contains]

theorem place_map (hg : ∀ a, ident (g a) = ident a) (a : α) (l : List α) :
    place (g a) (l.map g) = (place a l).map g := by
  induction l with
  | nil => rfl
  | cons b l ih =>
    rw [List.map_cons, place, place, hg, hg, ih]
    split
    · rfl
    · split <;> rfl

theorem insert_map (hg : ∀ a, ident (g a) = ident a) (x : Index α) (a : α) :
    (x.map g hg).insert (g a) = (x.insert a).map g hg := ext (place_map hg a x.toList)

theorem ofList_map (hg : ∀ a, ident (g a) = ident a) (l : List α) :
    ofList (l.map g) = (ofList l).map g hg := by
  have h : ∀ x : Index α, (l.map g).foldl insert (x.map g hg) = (l.foldl insert x).map g hg := by
    induction l with
    | nil => exact fun _ => rfl
    | cons a l ih => exact fun x => by rw [List.map_cons, List.foldl_cons, insert_map, ih]; rfl
  exact h empty

end

end Index
end Soql
