import Mathlib.Data.List.Induction
import Soql.Proofs.Shelves
import Soql.Session

/-!
# What insertions leave

Of the entries that come in one after another, the last one of each identity stays (`Index.LastOf`). The
argument is the same for a whole index and for one lookup: an insertion is a list with one more entry at
its end, and that entry is the last of its own identity and of no other (`Index.lastOf_concat`). What stays
is therefore the list without the entries that have a later one of their identity (`Index.lasting`), put
into the order of the identities, which is the order of the code points of class names and keys
(`Ident.lt_iff_codePoints`). A session is an index of objects with what is known about their projections
(`Session.entries`), and kept in two levels it is the same. Main statement:
`Session.sorted_map_of_insertions`.
-/

namespace Soql

/-! ### The order of identities -/

def codePoints (s : String) : List Nat := s.toList.map Char.toNat

theorem codePoints_inj {s t : String} : codePoints s = codePoints t ↔ s = t := by
  rw [codePoints, codePoints, (List.map_injective_iff.2 fun _ _ => Char.toNat_inj.1).eq_iff, String.toList_inj]

theorem lt_iff_codePoints {s t : String} : s < t ↔ codePoints s < codePoints t := by
  have hlist : ∀ l l' : List Char, l < l' ↔ l.map Char.toNat < l'.map Char.toNat := by
    intro l
    induction l with
    | nil =>
      intro l'
      cases l' <;> simp
    | cons c l ih =>
      intro l'
      cases l' with
      | nil => simp
      | cons d l' =>
        have hlt : c < d ↔ c.toNat < d.toNat := Iff.rfl
        have heq : c = d ↔ c.toNat = d.toNat := ⟨congrArg _, Char.toNat_inj.1⟩
        rw [List.map_cons, List.map_cons, List.cons_lt_cons_iff, List.cons_lt_cons_iff, ih, hlt, heq]
  exact hlist s.toList t.toList

namespace Ident

def codePoints (i : Ident) : List Nat × List Nat := (Soql.codePoints i.className, Soql.codePoints i.key)

theorem lt_iff_codePoints {i j : Ident} :
    i < j ↔ Prod.Lex (· < ·) (· < ·) i.codePoints j.codePoints := by
  rw [lt_iff, Prod.lex_def, Soql.lt_iff_codePoints, Soql.lt_iff_codePoints, ← codePoints_inj]
  rfl

example : (⟨"App", "Z"⟩ : Ident) < ⟨"App.User", ""⟩ := by decide

end Ident

/-! ### Insertions into an index -/

namespace Index
variable {α : Type} [Identified α] {l : List α} {i : Ident} {a b : α}

/-- `a` is the last entry of the list with the identity `i`. -/
def LastOf (l : List α) (i : Ident) (a : α) : Prop :=
  ∃ before after, l = before ++ a :: after ∧ ident a = i ∧ ∀ b ∈ after, ident b ≠ i

theorem not_lastOf_nil : ¬ LastOf [] i a := by
  rintro ⟨before, after, hl, -⟩
  simp at hl

/-- An entry at the end is the last of its identity, and of other identities the last one stays. -/
theorem lastOf_concat : LastOf (l ++ [b]) i a ↔ if ident b = i then b = a else LastOf l i a := by
  constructor
  · rintro ⟨before, after, hl, ha, hafter⟩
    rcases after.eq_nil_or_concat' with rfl | ⟨rest, c, rfl⟩
    · obtain ⟨-, e⟩ := List.append_inj' hl rfl
      obtain rfl := List.singleton_inj.1 e
      rw [if_pos ha]
    · rw [← List.cons_append, ← List.append_assoc] at hl
      obtain ⟨rfl, e⟩ := List.append_inj' hl rfl
      obtain rfl := List.singleton_inj.1 e
      rw [if_neg (hafter b (by simp))]
      exact ⟨before, rest, rfl, ha, fun c hc => hafter c (List.mem_append_left _ hc)⟩
  · intro h
    split at h
    · rename_i hb
      subst h
      exact ⟨l, [], rfl, hb, by simp⟩
    · rename_i hb
      obtain ⟨before, after, rfl, ha, hafter⟩ := h
      refine ⟨before, after ++ [b], by simp, ha, fun c hc => ?_⟩
      rcases List.mem_append.1 hc with hc | hc
      · exact hafter c hc
      · rwa [List.mem_singleton.1 hc]

theorem ofList_concat (l : List α) (a : α) : ofList (l ++ [a]) = (ofList l).insert a := List.foldl_concat ..

theorem get?_ofList_eq_some_iff : (ofList l).get? i = some a ↔ LastOf l i a := by
  induction l using List.reverseRecOn with
  | nil => exact ⟨nofun, fun h => absurd h not_lastOf_nil⟩
  | append_singleton l b ih =>
    rw [ofList_concat, get?_insert, lastOf_concat]
    split
    · exact Option.some_inj
    · exact ih

theorem get?_ofList_eq_none_iff : (ofList l).get? i = none ↔ ∀ a ∈ l, ident a ≠ i := by
  induction l using List.reverseRecOn with
  | nil => exact ⟨fun _ => nofun, fun _ => rfl⟩
  | append_singleton l b ih =>
    rw [ofList_concat, get?_insert, List.forall_mem_append, List.forall_mem_singleton, ← ih]
    by_cases hb : ident b = i <;> simp [hb]

/-- Nothing but the last entries counts, so their order in the list does not. -/
theorem ofList_eq_iff {l' : List α} : ofList l = ofList l' ↔ ∀ i a, LastOf l i a ↔ LastOf l' i a := by
  constructor
  · intro h i a
    rw [← get?_ofList_eq_some_iff, h, get?_ofList_eq_some_iff]
  · intro h
    refine ext_get? fun i => Option.ext fun a => ?_
    rw [get?_ofList_eq_some_iff, get?_ofList_eq_some_iff, h]

/-- The entries without a later one of the same identity. -/
def lasting : List α → List α
  | [] => []
  | a :: l => if ident a ∈ l.map ident then lasting l else a :: lasting l

theorem map_ident_lasting (l : List α) : (lasting l).map ident = (l.map ident).dedup := by
  induction l with
  | nil => rfl
  | cons a l ih =>
    rw [lasting, List.map_cons, List.dedup_cons]
    split
    · exact ih
    · rw [List.map_cons, ih]

theorem lastOf_cons : LastOf (b :: l) i a ↔ LastOf l i a ∨ b = a ∧ ident a = i ∧ ∀ c ∈ l, ident c ≠ i := by
  constructor
  · rintro ⟨_ | ⟨c, before⟩, after, hl, ha, hafter⟩
    · obtain ⟨rfl, rfl⟩ := List.cons.inj hl
      exact .inr ⟨rfl, ha, hafter⟩
    · obtain ⟨rfl, rfl⟩ := List.cons.inj hl
      exact .inl ⟨before, after, rfl, ha, hafter⟩
  · rintro (⟨before, after, rfl, ha, hafter⟩ | ⟨rfl, ha, hl⟩)
    · exact ⟨b :: before, after, rfl, ha, hafter⟩
    · exact ⟨[], l, rfl, ha, hl⟩

theorem mem_lasting_iff : a ∈ lasting l ↔ LastOf l (ident a) a := by
  induction l with
  | nil => exact ⟨nofun, fun h => absurd h not_lastOf_nil⟩
  | cons b l ih =>
    rw [lastOf_cons, lasting, ← ih]
    split
    · rename_i hb
      obtain ⟨c, hc, e⟩ := List.mem_map.1 hb
      refine ⟨.inl, fun h => h.resolve_right ?_⟩
      rintro ⟨rfl, -, hl⟩
      exact hl c hc e
    · rename_i hb
      rw [List.mem_cons, or_comm, eq_comm]
      refine or_congr_right ⟨?_, And.left⟩
      rintro rfl
      exact ⟨rfl, rfl, fun c hc e => hb (List.mem_map.2 ⟨c, hc, e⟩)⟩

theorem nodup_toList (x : Index α) : x.toList.Nodup :=
  x.sorted.imp fun hab e => Ident.ne_of_lt hab (congrArg ident e)

theorem perm_lasting (l : List α) : (ofList l).toList.Perm (lasting l) := by
  have hnodup : (lasting l).Nodup := by
    refine List.Nodup.of_map ident ?_
    rw [map_ident_lasting]
    exact List.nodup_dedup _
  refine (List.perm_ext_iff_of_nodup (nodup_toList _) hnodup).2 fun a => ?_
  rw [mem_lasting_iff, ← get?_ofList_eq_some_iff]
  exact ⟨get?_of_mem, mem_of_get?⟩

end Index

/-! ### Insertions into a session -/

namespace Session

/-- An object with its projection, if that is known. -/
structure Entry where
  object : Object
  paths : Option (List String)
deriving DecidableEq, Repr

instance : Identified Entry := ⟨fun e => ident e.object⟩

theorem Entry.ident_eq (e : Entry) : ident e = ident e.object := rfl

def get? (s : Session) (i : Ident) : Option Entry := (s.schema.get? i).map (⟨·, s.memo.paths? i⟩)

/-- The objects, each with what is known about its projection. -/
def entries (s : Session) : Index Entry :=
  s.schema.map (fun o => ⟨o, s.memo.paths? (ident o)⟩) fun _ => rfl

theorem get?_entries (s : Session) (i : Ident) : s.entries.get? i = s.get? i := by
  rw [entries, Index.get?_map, get?]
  cases h : s.schema.get? i with
  | none => rfl
  | some o => rw [Option.map_some, Option.map_some, Index.ident_of_get? h]

theorem get?_insert (s : Session) (e : Entry) (i : Ident) :
    (s.insert e.object e.paths).get? i = if ident e = i then some e else s.get? i := by
  rw [get?, paths?_insert, Entry.ident_eq]
  show ((s.schema.insert e.object).get? i).map _ = _
  rw [Index.get?_insert]
  split <;> rfl

theorem entries_insert (s : Session) (e : Entry) :
    (s.insert e.object e.paths).entries = s.entries.insert e :=
  Index.ext_get? fun i => by rw [get?_entries, get?_insert, Index.get?_insert, get?_entries]

/-- The session after the insertion of some entries, one after another. -/
def ofEntries (l : List Entry) : Session := l.foldl (fun s e => s.insert e.object e.paths) (ofSchema ∅)

theorem entries_ofEntries (l : List Entry) : (ofEntries l).entries = .ofList l := by
  rw [ofEntries, ← List.foldl_hom entries fun s e => (entries_insert s e).symm]
  rfl

/-- The session holds the last entry of each identity, and nothing else, in ascending order. -/
structure Holds (s : Session) (l : List Entry) : Prop where
  get? : ∀ c k e, s.get? ⟨c, k⟩ = some e ↔ Index.LastOf l ⟨c, k⟩ e
  get?_none : ∀ c k, s.get? ⟨c, k⟩ = none ↔ ∀ e ∈ l, ident e ≠ ⟨c, k⟩
  object : ∀ c k o, s.schema.get? ⟨c, k⟩ = some o ↔ ∃ paths, Index.LastOf l ⟨c, k⟩ ⟨o, paths⟩
  /-- Each entry that lasts comes up once. -/
  perm : s.entries.toList.Perm (Index.lasting l)
  ascending : s.entries.toList.Pairwise fun a b =>
    Prod.Lex (· < ·) (· < ·) (ident a).codePoints (ident b).codePoints
  objects : s.schema.toList = s.entries.toList.map (·.object)
  idents : s.schema.idents = s.entries.toList.map ident
  idents_perm : s.schema.idents.Perm (l.map ident).dedup
  size : s.schema.size = (l.map ident).dedup.length
  isEmpty : s.schema.isEmpty = true ↔ l = []
  fieldCount : s.schema.fieldCount = ((Index.lasting l).map (·.object.fields.length)).sum

section
variable {s : Session} {l : List Entry}

theorem get?_schema_eq_some_iff {i : Ident} {o : Object} :
    s.schema.get? i = some o ↔ ∃ paths, s.get? i = some ⟨o, paths⟩ := by
  rw [get?]
  cases s.schema.get? i with
  | none => simp
  | some o' => simp

theorem toList_schema (s : Session) : s.schema.toList = s.entries.toList.map (·.object) := by
  rw [entries, Index.toList_map, List.map_map]
  exact (List.map_id _).symm

theorem idents_schema (s : Session) : s.schema.idents = s.entries.toList.map ident := by
  rw [Index.idents, toList_schema, List.map_map]
  rfl

theorem fieldCount_eq_sum (s : Session) :
    s.schema.fieldCount = (s.entries.toList.map (·.object.fields.length)).sum := by
  rw [Schema.fieldCount, List.length_flatMap, toList_schema, List.map_map]
  rfl

/-- All of it follows once the session is the index of the entries. -/
theorem Holds.of_entries (h : s.entries = .ofList l) : s.Holds l := by
  have hentry : ∀ i, s.get? i = (Index.ofList l).get? i := fun i => by rw [← get?_entries, h]
  have hperm : s.entries.toList.Perm (Index.lasting l) := h ▸ Index.perm_lasting l
  have hidents : s.schema.idents.Perm (l.map ident).dedup := by
    rw [idents_schema, ← Index.map_ident_lasting]
    exact hperm.map ident
  have hsize : s.schema.size = (l.map ident).dedup.length := by
    rw [← hidents.length_eq, Index.idents, List.length_map, Index.size]
  exact {
    get? := fun c k e => by rw [hentry, Index.get?_ofList_eq_some_iff]
    get?_none := fun c k => by rw [hentry, Index.get?_ofList_eq_none_iff]
    object := fun c k o => by simp only [get?_schema_eq_some_iff, hentry, Index.get?_ofList_eq_some_iff]
    perm := hperm
    ascending := s.entries.sorted.imp Ident.lt_iff_codePoints.1
    objects := toList_schema s
    idents := idents_schema s
    idents_perm := hidents
    size := hsize
    isEmpty := by
      rw [Index.isEmpty, List.isEmpty_iff, ← List.length_eq_zero_iff, ← Index.size, hsize,
        List.length_eq_zero_iff, List.dedup_eq_nil, List.map_eq_nil_iff]
    fieldCount := by
      rw [fieldCount_eq_sum]
      exact (hperm.map _).sum_nat }

end

/-- Insertions from the start make a sorted map of entries by class name and key: the session holds the
last entry of each identity, in the order of the code points, so that other insertions with the same last
entries make the same of it. The store in two levels holds the same. An insertion puts its own entry in
place, with what is known about its projection, and leaves the entries of other identities as they are. -/
theorem sorted_map_of_insertions (l : List Entry) :
    (ofEntries l).Holds l ∧
    (∀ l', (ofEntries l).entries = (ofEntries l').entries ↔
      ∀ i e, Index.LastOf l i e ↔ Index.LastOf l' i e) ∧
    ((Shelves.ofList l).toList = (ofEntries l).entries.toList ∧
      (∀ i, (Shelves.ofList l).get? i = (ofEntries l).get? i) ∧
      (Shelves.ofList l).size = (ofEntries l).schema.size ∧
      (Shelves.ofList l).isEmpty = (ofEntries l).schema.isEmpty) ∧
    ∀ (s : Session) (e : Entry) (i : Ident),
      (s.insert e.object e.paths).get? i = if ident e = i then some e else s.get? i := by
  have hindex : (Shelves.ofList l).index = (ofEntries l).entries := by
    rw [Shelves.index_ofList, entries_ofEntries]
  have hsize : (Shelves.ofList l).size = (ofEntries l).schema.size := by
    rw [← Shelves.size_index, hindex, Index.size, entries, Index.toList_map, List.length_map, Index.size]
  refine ⟨.of_entries (entries_ofEntries l), fun l' => ?_,
    ⟨congrArg Index.toList hindex, fun i => ?_, hsize, ?_⟩, get?_insert⟩
  · rw [entries_ofEntries, entries_ofEntries, Index.ofList_eq_iff]
  · rw [← Shelves.get?_index, hindex, get?_entries]
  · rw [← Shelves.isEmpty_index, hindex, Index.isEmpty, entries, Index.toList_map, List.isEmpty_map,
      Index.isEmpty]

end Session
end Soql
