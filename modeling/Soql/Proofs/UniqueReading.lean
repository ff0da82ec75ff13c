import Mathlib.Data.List.DropRight
import Soql.Proofs.QueryShape

/-!
# Reading a query back

The items of a query have commas and blanks of their own, those of the sub-queries in them. Counting
open parentheses tells them from the separators: a comma separates where none is open (`cutItems`).
Each item closes what it opens and shows no comma outside (`Unbroken`), at whatever depth it stands,
so cutting gives the items back. The name at the end has no blank, so it is what comes after the last
one, whatever words the items are made of. What a query selects, and from where, can thus be read off
its text alone (`readQuery_queryText`). Main statement: `unique_reading_of_build`.
-/

namespace Soql

variable {least depth : Nat} {v w rest : List Char} {letter : Char → Prop}

/-- The characters by which a query is read. -/
def separators : List Char := [' ', ',', '(', ')']

/-! ### Cutting at commas -/

/-- How many parentheses are open after a character, if `depth` are before it. -/
def nesting (depth : Nat) (c : Char) : Nat :=
  if c = '(' then depth + 1 else if c = ')' then depth - 1 else depth

/-- Cuts at the commas that stand where no parenthesis is open; `depth` are at the start. -/
def cutItems : Nat → List Char → List (List Char)
  | _, [] => [[]]
  | depth, c :: cs =>
    if depth = 0 ∧ c = ',' then [] :: cutItems depth cs
    else (cutItems (nesting depth c) cs).modifyHead (c :: ·)

/-- The items of a list: what stands between the commas, less the blank after each comma. -/
def readItems (cs : List Char) : List String :=
  match cutItems 0 cs with
  | [] => []
  | first :: more => String.ofList first :: more.map fun piece => String.ofList (piece.drop 1)

/-- The items and the name of a query: the name is what comes after the last blank, the items are
those of what stands between the two keywords. -/
def readQuery (text : String) : List String × String :=
  let before := text.toList.rdropWhile (· ≠ ' ')
  (readItems ((before.drop "SELECT ".length).rdrop " FROM ".length),
    String.ofList (text.toList.rtakeWhile (· ≠ ' ')))

theorem cutItems_cons_of_ne {c : Char} (h : c ≠ ',' ∨ depth ≠ 0) (cs : List Char) :
    cutItems depth (c :: cs) = (cutItems (nesting depth c) cs).modifyHead (c :: ·) := by
  rw [cutItems, if_neg]
  rintro ⟨hd, hc⟩
  exact h.elim (· hc) (· hd)

/-- With at least `least` parentheses open, cutting goes past `w` without a cut, and as many are open
after it. -/
def Unbroken (least : Nat) (w : List Char) : Prop :=
  ∀ depth, least ≤ depth → ∀ rest, cutItems depth (w ++ rest) = (cutItems depth rest).modifyHead (w ++ ·)

namespace Unbroken

theorem nil : Unbroken least [] := fun _ _ _ => (congrFun List.modifyHead_id _).symm

protected theorem append (hv : Unbroken least v) (hw : Unbroken least w) : Unbroken least (v ++ w) := by
  intro depth hd rest
  rw [List.append_assoc, hv depth hd, hw depth hd, List.modifyHead_modifyHead]
  congr 1
  funext piece
  exact (List.append_assoc ..).symm

theorem mono {least' : Nat} (h : Unbroken least w) (hl : least ≤ least') : Unbroken least' w :=
  fun depth hd => h depth (hl.trans hd)

/-- A character that is no parenthesis, and no comma unless some parenthesis is open. -/
theorem singleton {c : Char} (hc : c ≠ ',' ∨ least ≠ 0) (hopen : c ≠ '(') (hclose : c ≠ ')') :
    Unbroken least [c] := by
  intro depth hd rest
  have hn : nesting depth c = depth := by rw [nesting, if_neg hopen, if_neg hclose]
  rw [List.singleton_append, cutItems_cons_of_ne (hc.imp_right (by omega)), hn]
  rfl

theorem of_forall (h : ∀ c ∈ w, c ≠ ',' ∧ c ≠ '(' ∧ c ≠ ')') : Unbroken least w := by
  induction w with
  | nil => exact .nil
  | cons c w ih =>
    obtain ⟨⟨hc, hopen, hclose⟩, hw⟩ := List.forall_mem_cons.1 h
    exact (singleton (.inl hc) hopen hclose).append (ih hw)

/-- What may stand where a parenthesis is open may stand in parentheses anywhere. -/
theorem parenthesized (h : Unbroken 1 w) : Unbroken 0 ("(".toList ++ w ++ ")".toList) := by
  intro depth _ rest
  have hin : cutItems depth ('(' :: (w ++ (')' :: rest))) =
      (cutItems (depth + 1) (w ++ (')' :: rest))).modifyHead ('(' :: ·) :=
    cutItems_cons_of_ne (.inl (by decide)) _
  have hout : cutItems (depth + 1) (')' :: rest) = (cutItems depth rest).modifyHead (')' :: ·) :=
    cutItems_cons_of_ne (.inl (by decide)) _
  calc cutItems depth ("(".toList ++ w ++ ")".toList ++ rest)
      = cutItems depth ('(' :: (w ++ (')' :: rest))) := by simp
    _ = ((cutItems depth rest).modifyHead (')' :: ·)).modifyHead (('(' :: ·) ∘ (w ++ ·)) := by
      rw [hin, h (depth + 1) (Nat.le_add_left ..), hout, List.modifyHead_modifyHead]
    _ = (cutItems depth rest).modifyHead ("(".toList ++ w ++ ")".toList ++ ·) := by
      rw [List.modifyHead_modifyHead]
      congr 1
      funext piece
      simp

theorem intercalate {items : List (List Char)} (h : ∀ i ∈ items, Unbroken 0 i) :
    Unbroken 1 (", ".toList.intercalate items) := by
  have hsep : Unbroken 1 ", ".toList :=
    (singleton (c := ',') (.inr (by decide)) (by decide) (by decide)).append
      (singleton (c := ' ') (.inl (by decide)) (by decide) (by decide))
  induction items with
  | nil => exact .nil
  | cons i items ih =>
    obtain ⟨hi, hitems⟩ := List.forall_mem_cons.1 h
    have hi : Unbroken 1 i := hi.mono (Nat.zero_le _)
    cases items with
    | nil => simpa using hi
    | cons j items =>
      rw [List.intercalate_cons_cons]
      exact (hi.append hsep).append (ih hitems)

theorem queryText {items : List String} {n : String} (h : ∀ i ∈ items, Unbroken 0 i.toList)
    (hn : Unbroken 0 n.toList) : Unbroken 1 (queryText items n).toList := by
  have hselect : Unbroken 1 "SELECT ".toList := of_forall (by simp)
  have hfrom : Unbroken 1 " FROM ".toList := of_forall (by simp)
  have hitems : Unbroken 1 (", ".intercalate items).toList := by
    rw [String.toList_intercalate]
    exact intercalate (List.forall_mem_map.2 h)
  simp only [Soql.queryText, String.toList_append]
  exact ((hselect.append hitems).append hfrom).append (hn.mono (Nat.zero_le _))

end Unbroken

/-! ### Reading back -/

theorem cutItems_intercalate {i : List Char} {items : List (List Char)}
    (h : ∀ j ∈ i :: items, Unbroken 0 j) :
    cutItems 0 (", ".toList.intercalate (i :: items)) = i :: items.map (' ' :: ·) := by
  induction items generalizing i with
  | nil =>
    have hi := h i (List.mem_singleton_self i) 0 (Nat.le_refl 0) []
    simpa [cutItems] using hi
  | cons j items ih =>
    obtain ⟨hi, hitems⟩ := List.forall_mem_cons.1 h
    have hblank : Unbroken 0 [' '] := .singleton (.inl (by decide)) (by decide) (by decide)
    rw [List.intercalate_cons_cons, List.append_assoc, hi 0 (Nat.le_refl 0)]
    show ([] :: cutItems 0 ([' '] ++ _)).modifyHead _ = _
    rw [hblank 0 (Nat.le_refl 0), ih hitems]
    simp

theorem readItems_intercalate {items : List String} (hne : items ≠ [])
    (h : ∀ i ∈ items, Unbroken 0 i.toList) : readItems (", ".intercalate items).toList = items := by
  obtain ⟨i, items, rfl⟩ := List.exists_cons_of_ne_nil hne
  rw [readItems, String.toList_intercalate, List.map_cons, cutItems_intercalate (List.forall_mem_map.2 h)]
  simp [Function.comp_def]

/-- Cutting after the last blank. -/
theorem rdropWhile_append_blank (hw : ' ' ∉ w) :
    (v ++ [' '] ++ w).rdropWhile (· ≠ ' ') = v ++ [' '] ∧ (v ++ [' '] ++ w).rtakeWhile (· ≠ ' ') = w := by
  have hw : ∀ c ∈ w.reverse, decide (c ≠ ' ') = true := by
    intro c hc
    refine decide_eq_true ?_
    rintro rfl
    exact hw (List.mem_reverse.1 hc)
  rw [List.rdropWhile, List.rtakeWhile, List.append_assoc, List.reverse_append, List.reverse_append,
    List.append_assoc, List.dropWhile_append_of_pos hw, List.takeWhile_append_of_pos hw]
  simp

theorem rdrop_drop_between (a b : String) :
    ((a.toList ++ w ++ b.toList).drop a.length).rdrop b.length = w := by
  rw [List.append_assoc, ← String.length_toList, List.drop_left, List.rdrop, ← String.length_toList,
    List.length_append, Nat.add_sub_cancel, List.take_left]

theorem readQuery_queryText {items : List String} {n : String} (hne : items ≠ [])
    (h : ∀ i ∈ items, Unbroken 0 i.toList) (hn : ' ' ∉ n.toList) :
    readQuery (queryText items n) = (items, n) := by
  have htext : (queryText items n).toList =
      "SELECT ".toList ++ (", ".intercalate items).toList ++ " FROM".toList ++ [' '] ++ n.toList := by
    simp [queryText]
  obtain ⟨hdrop, htake⟩ := rdropWhile_append_blank
    (v := "SELECT ".toList ++ (", ".intercalate items).toList ++ " FROM".toList) hn
  have hlist : "SELECT ".toList ++ (", ".intercalate items).toList ++ " FROM".toList ++ [' '] =
      "SELECT ".toList ++ (", ".intercalate items).toList ++ " FROM ".toList := by
    simp
  rw [readQuery, htext, hdrop, htake, hlist, rdrop_drop_between, readItems_intercalate hne h,
    String.ofList_toList]

example : readQuery "SELECT Owner.(SELECT LastName, FROM FROM Contacts), SELECT FROM FROM" =
    (["Owner.(SELECT LastName, FROM FROM Contacts)", "SELECT"], "FROM") := by decide +kernel

namespace IsName

variable {n : String}

theorem ne_of_mem (h : IsName letter n) {c d : Char} (hd : ¬ letter d) (hc : c ∈ n.toList) : c ≠ d :=
  fun e => hd (e ▸ h.2 c hc)

theorem unbroken (h : IsName letter n) (hl : ∀ c ∈ separators, ¬ letter c) : Unbroken 0 n.toList := by
  refine .of_forall fun c hc => ⟨?_, ?_, ?_⟩
  · exact h.ne_of_mem (hl ',' (by decide)) hc
  · exact h.ne_of_mem (hl '(' (by decide)) hc
  · exact h.ne_of_mem (hl ')' (by decide)) hc

end IsName

namespace Schema

variable {s : Schema} {o : Object}

theorem unbroken_of_mem_plainPaths (hf : ∀ p ∈ s.toList, p.fields ≠ []) (hn : s.NamedBy letter)
    (hl : ∀ c ∈ separators, ¬ letter c) (ha : s.Acyclic o) (ho : o ∈ s.toList) :
    ∀ p ∈ s.plainPaths o, Unbroken 0 p.toList := by
  induction ha using Acyclic.induction with
  | step o ha ih =>
    intro p hp
    obtain ⟨f, hm, hp⟩ := (mem_plainPaths ha).1 hp
    have hfn : Unbroken 0 f.name.toList := ((hn o ho).2 f hm).unbroken hl
    cases ht : s.target? o.key f with
    | none =>
      rw [plainField_of_none ht] at hp
      obtain rfl := List.mem_singleton.1 hp
      exact hfn
    | some t =>
      have htm := mem_of_target? ht
      have hi := ih t ⟨f, hm, ht⟩ htm
      cases hc : f.isCollection with
      | true =>
        rw [plainField_of_collection ht hc (hf t htm)] at hp
        obtain rfl := List.mem_singleton.1 hp
        rw [String.toList_append, String.toList_append]
        exact (Unbroken.queryText hi hfn).parenthesized
      | false =>
        rw [plainField_of_reference ht hc (hf t htm)] at hp
        obtain ⟨q, hq, rfl⟩ := List.mem_map.1 hp
        rw [String.toList_append, String.toList_append]
        exact (hfn.append (.of_forall (by simp))).append (hi q hq)

/-! ### Queries of built schemas -/

open MonadAttach

variable {m m' : Type → Type} [Monad m] [LawfulMonad m] [MonadAttach m] [LawfulMonadAttach m]
  [Monad m'] [LawfulMonad m'] [MonadAttach m'] [LawfulMonadAttach m'] {r : Resolver m} {r' : Resolver m'}
  {objects objects' : List ObjectDeclaration} {fields fields' : List FieldDeclaration} {b b' : Built}
  {memo memo' : Memo} {o' : Object} {source source' : Option String} {active active' : List String}
  {text : String}

theorem readQuery_of_query (hl : ∀ c ∈ separators, ¬ letter c) (hb : CanReturn (build r objects fields) b)
    (hn : b.schema.NamedBy letter) (hm : b.schema.Reached memo) (ho : o ∈ b.schema.toList)
    (hs : ∀ n ∈ source, IsName letter n)
    (h : (b.schema.query o source ⟨active, memo⟩).1 = .ok (some text)) :
    ∃ paths, (b.schema.project o ⟨active, memo⟩).1 = .ok (some paths) ∧
      readQuery text = (paths, source.getD o.name) := by
  obtain ⟨paths, hp, rfl⟩ := fst_query_eq_some_iff.1 h
  have hf : ∀ p ∈ b.schema.toList, p.fields ≠ [] := fun p hp => fields_ne_nil_of_build hb hp
  obtain ⟨ha, hplain⟩ := (sound_project hm.sound ho active).2 _ hp
  obtain ⟨-, rfl⟩ := plain?_eq_some_iff.1 hplain.symm
  have hname : IsName letter (source.getD o.name) := by
    cases source with
    | none => exact (hn o ho).1
    | some n => exact hs n rfl
  have hblank : ' ' ∉ (source.getD o.name).toList :=
    fun hc => hname.ne_of_mem (hl ' ' (by decide)) hc rfl
  refine ⟨_, hp, readQuery_queryText (plainPaths_ne_nil hf ha ho) ?_ hblank⟩
  exact unbroken_of_mem_plainPaths hf hn hl ha ho

/-- Names have none of the characters by which a query is read. Then queries of one text, on objects
of one built schema or of two, select the same paths from the same name; reading the text gives them
back. -/
theorem unique_reading_of_build (hl : ∀ c ∈ separators, ¬ letter c)
    (hb : CanReturn (build r objects fields) b) (hb' : CanReturn (build r' objects' fields') b')
    (hn : b.schema.NamedBy letter) (hn' : b'.schema.NamedBy letter)
    (hm : b.schema.Reached memo) (hm' : b'.schema.Reached memo')
    (ho : o ∈ b.schema.toList) (ho' : o' ∈ b'.schema.toList)
    (hs : ∀ n ∈ source, IsName letter n) (hs' : ∀ n ∈ source', IsName letter n)
    (h : (b.schema.query o source ⟨active, memo⟩).1 = .ok (some text))
    (h' : (b'.schema.query o' source' ⟨active', memo'⟩).1 = .ok (some text)) :
    ∃ paths, (b.schema.project o ⟨active, memo⟩).1 = .ok (some paths) ∧
      (b'.schema.project o' ⟨active', memo'⟩).1 = .ok (some paths) ∧
      source.getD o.name = source'.getD o'.name ∧
      readQuery text = (paths, source.getD o.name) := by
  obtain ⟨paths, hp, hread⟩ := readQuery_of_query hl hb hn hm ho hs h
  obtain ⟨paths', hp', hread'⟩ := readQuery_of_query hl hb' hn' hm' ho' hs' h'
  obtain ⟨rfl, hname⟩ := Prod.mk.inj (hread.symm.trans hread')
  exact ⟨paths, hp, hp', hname, hread⟩

/-- Like `ownedContacts`, but accounts are named clients. -/
def ownedClients : Manifest where
  types := ownedContacts.types
  objects := [⟨"Client", "K", "App.Account", none⟩, ⟨"User", "K", "App.User", none⟩,
    ⟨"Contact", "K", "App.Contact", none⟩]
  fields := ownedContacts.fields

def ownedClientsBuilt : Built :=
  (build ownedClients.resolver (ownedClients.objectDeclarations .strict)
    ownedClients.fieldDeclarations).run

def ownedQuery : String := "SELECT Owner.(SELECT LastName FROM Contacts) FROM Account"

/-- Accounts, and clients read from where the accounts are. -/
theorem unique_reading_of_build_owned :
    ownedContactsBuilt.schema.NamedBy IsWordChar ∧ ownedClientsBuilt.schema.NamedBy IsWordChar ∧
      ownedObject "Account" ∈ ownedContactsBuilt.schema.toList ∧
      ownedObject "Client" ∈ ownedClientsBuilt.schema.toList ∧
      (ownedContactsBuilt.schema.query (ownedObject "Account") none ⟨[], ∅⟩).1 = .ok (some ownedQuery) ∧
      (ownedClientsBuilt.schema.query (ownedObject "Client") (some "Account")
        ⟨["Task"], (ownedClientsBuilt.schema.compileAll ∅).2⟩).1 = .ok (some ownedQuery) ∧
      ∃ paths, (ownedContactsBuilt.schema.project (ownedObject "Account") ⟨[], ∅⟩).1 = .ok (some paths) ∧
        readQuery ownedQuery = (paths, "Account") := by
  have hb : CanReturn (build ownedContacts.resolver (ownedContacts.objectDeclarations .strict)
      ownedContacts.fieldDeclarations) ownedContactsBuilt := rfl
  have hb' : CanReturn (build ownedClients.resolver (ownedClients.objectDeclarations .strict)
      ownedClients.fieldDeclarations) ownedClientsBuilt := rfl
  have hn : ownedContactsBuilt.schema.NamedBy IsWordChar := by decide +kernel
  have hn' : ownedClientsBuilt.schema.NamedBy IsWordChar := by decide +kernel
  have ho : ownedObject "Account" ∈ ownedContactsBuilt.schema.toList := by decide +kernel
  have ho' : ownedObject "Client" ∈ ownedClientsBuilt.schema.toList := by decide +kernel
  have h : (ownedContactsBuilt.schema.query (ownedObject "Account") none ⟨[], ∅⟩).1 =
      .ok (some ownedQuery) := by
    decide +kernel
  have h' : (ownedClientsBuilt.schema.query (ownedObject "Client") (some "Account")
      ⟨["Task"], (ownedClientsBuilt.schema.compileAll ∅).2⟩).1 = .ok (some ownedQuery) := by
    decide +kernel
  have hl : ∀ c ∈ separators, ¬ IsWordChar c := by simp [separators, IsWordChar]
  obtain ⟨paths, hp, -, -, hread⟩ := unique_reading_of_build hl hb hb' hn hn' .start
    (.compileAll .start) ho ho' (by decide) (by decide +kernel) h h'
  exact ⟨hn, hn', ho, ho', h, h', paths, hp, hread⟩

end Schema
end Soql
