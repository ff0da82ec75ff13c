import Soql.Json.Record
import Soql.Proofs.JsonColumns
import Soql.Proofs.JsonValues

/-!
# Reading records

A record is read from an object as what can be told of it by the names of its fields
(`Reader.Reads.record`), whatever the order of the members and whatever stands under other names.
-/

namespace Soql.Json

/-- A list would be read as a record by the places of the fields. -/
def Value.NotList (v : Value) : Prop := ∀ vs, v ≠ .list vs

/-- Every field is read as what its column says. The condition is on the values under the names of the
fields. -/
inductive Fields.Fit : {δ ρ : Type} → Fields δ ρ → Columns δ ρ → ((String → List Value) → Prop) → Prop where
  | nil : Fit .nil .nil fun _ => True
  | cons {α δ ρ : Type} {x : Reader α} {shape : Value → Prop} {decode : Value → Option α}
    {fs : Fields δ ρ} {cols : Columns δ ρ} {P Q : (String → List Value) → Prop} (name : String)
    (default : Option α) (hx : x.Reads shape decode) (h : Fit fs cols P)
    (hQ : ∀ look, Q look → (∀ v ∈ look name, shape v) ∧ P look) :
    Fit (.cons name x default fs) (.cons name decode default cols) Q

theorem Fields.entry?_cons {α δ ρ : Type} (key name : String) (x : Reader α) (default : Option α)
    (rest : Fields δ ρ) (slot : Option α) (slots : δ) :
    Fields.entry? key (.cons name x default rest) (slot, slots) =
      if key = name then
        some (match slot with
          | some _ => .fail (.duplicateField name)
          | none => do
            Reader.colon
            let a ← x
            pure (some a, slots))
      else (rest.entry? key slots).map fun x => (slot, ·) <$> x := rfl

namespace Fields.Fit
variable {δ ρ : Type} {fs : Fields δ ρ} {cols : Columns δ ρ} {P : (String → List Value) → Prop}

variable {α : Type} {x : Reader α} {decode : Value → Option α}

theorem scalar (name : String) (default : Option α) (hx : x.Reads (fun _ => True) decode)
    (h : fs.Fit cols P) : Fit (.cons name x default fs) (.cons name decode default cols) P :=
  .cons name default hx h fun _ hP => ⟨fun _ _ => trivial, hP⟩

theorem shaped {shape : Value → Prop} (name : String) (default : Option α) (hx : x.Reads shape decode)
    (h : fs.Fit cols P) : Fit (.cons name x default fs) (.cons name decode default cols)
      fun look => (∀ v ∈ look name, shape v) ∧ P look :=
  .cons name default hx h fun _ => id

theorem blank_eq (h : fs.Fit cols P) : fs.blank = cols.blank := by
  induction h with
  | nil => rfl
  | cons name default hx h _ ih => rw [Fields.blank, Columns.blank, ih]

theorem toOption_finish (h : fs.Fit cols P) (draft : δ) :
    (fs.finish draft).toOption = cols.finish? draft := by
  induction h with
  | nil => rfl
  | cons name default hx h _ ih =>
    obtain ⟨slot, slots⟩ := draft
    rw [Fields.finish, Columns.finish?, ← ih]
    cases slot.or default with
    | none => rfl
    | some a => exact toOption_map ..

end Fields.Fit

namespace Reader
variable {δ ρ : Type} {fs : Fields δ ρ} {cols : Columns δ ρ} {P : (String → List Value) → Prop}
  {ms : List (Quotation × Value)} {look : String → List Value} {v : Value} {s s₂ s₃ r : List Char}

/-- What a reader does with a member that no field is named after. -/
def passOver (draft : δ) : Reader δ := do
  colon
  skipValue
  pure draft

theorem parse_passOver (hc : Blanks s (':' :: s₂)) (hb : Blanks s₂ s₃) (hv : Spells v s₃ r) (hr : Ends r)
    (draft : δ) : (passOver draft).parse s = some (draft, r) := by
  simp [passOver, parse_colon hc, parse_skipValue hb hv hr]

/-- Behind the key of a member. -/
theorem parse_getD_entry? (h : fs.Fit cols P) (hP : P look) {key : String} (hk : v ∈ look key)
    (hc : Blanks s (':' :: s₂)) (hb : Blanks s₂ s₃) (hv : Spells v s₃ r) (hr : Ends r) (draft : δ) :
    ((fs.entry? key draft).getD (passOver draft)).parse s = (cols.take? key v draft).map (·, r) := by
  induction h with
  | nil => exact parse_passOver hc hb hv hr _
  | cons name default hx h hQ ih =>
    rename_i x shape decode fs cols P Q
    obtain ⟨slot, slots⟩ := draft
    obtain ⟨hshape, hP⟩ := hQ look hP
    rw [Fields.entry?_cons, Columns.take?_cons]
    by_cases hname : key = name
    · subst hname
      rw [if_pos rfl, if_pos rfl, Option.getD_some]
      cases slot with
      | some a => rfl
      | none =>
        show (do colon; let a ← x; pure (some a, slots) : Reader _).parse s = _
        rw [parse_bind, parse_colon hc, Option.bind_some, parse_bind, hx (hshape v hk) hb hv hr]
        cases decode v <;> rfl
    · rw [if_neg hname, if_neg hname]
      have ih := ih hP slots
      cases he : fs.entry? key slots with
      | none =>
        rw [he, Option.getD_none, parse_passOver hc hb hv hr] at ih
        rw [Option.map_none, Option.getD_none, parse_passOver hc hb hv hr]
        cases ht : cols.take? key v slots with
        | none =>
          rw [ht] at ih
          cases ih
        | some slots' =>
          rw [ht] at ih
          cases ih
          rfl
      | some y =>
        rw [he, Option.getD_some] at ih
        rw [Option.map_some, Option.getD_some, parse_map, ih]
        cases cols.take? key v slots <;> rfl

theorem entry_eq (fs : Fields δ ρ) (draft : δ) :
    entry fs draft = stringBody >>= fun key => (fs.entry? key draft).getD (passOver draft) := by
  unfold entry
  congr 1
  funext key
  cases fs.entry? key draft <;> rfl

theorem parse_entry (h : fs.Fit cols P) (hP : P look) {k : Quotation}
    (hk : ∀ key, k.string? = some key → v ∈ look key) (hc : Blanks s (':' :: s₂)) (hb : Blanks s₂ s₃)
    (hv : Spells v s₃ r) (hr : Ends r) (draft : δ) :
    (entry fs draft).parse (k.text ++ '"' :: s) =
      (k.string?.bind fun key => cols.take? key v draft).map (·, r) := by
  rw [entry_eq, parse_bind, parse_stringBody]
  cases hkey : k.string? with
  | none => rfl
  | some key => exact parse_getD_entry? h hP (hk key hkey) hc hb hv hr draft

theorem moreEntries_end {draft : δ} (h : trimmed s = '\x7d' :: r) :
    moreEntries fs draft s = .ok (draft, r) := by
  rw [moreEntries]
  split
  · rename_i e
    cases h.symm.trans e
  · rename_i e
    obtain ⟨rfl, rfl⟩ := List.cons.inj (h.symm.trans e)
    exact if_pos rfl

theorem toOption_moreEntries_comma {draft : δ} {t : List Char} (h : trimmed s = ',' :: t)
    (ht : trimmed t = '"' :: r) : (moreEntries fs draft s).toOption =
      ((entry fs draft).parse r).bind fun p => (moreEntries fs p.1 p.2).toOption := by
  have hparse : ∀ y, (entry fs draft).run r = y → (entry fs draft).parse r = y.toOption :=
    fun y e => congrArg Except.toOption e
  conv => lhs; rw [moreEntries]
  split
  · rename_i e
    cases h.symm.trans e
  · rename_i e
    obtain ⟨rfl, rfl⟩ := List.cons.inj (h.symm.trans e)
    rw [if_neg (by decide), if_pos rfl]
    split
    · rename_i e'
      cases ht.symm.trans e'
    · rename_i e'
      obtain ⟨rfl, rfl⟩ := List.cons.inj (ht.symm.trans e')
      rw [if_pos rfl]
      split
      · rename_i e''
        rw [hparse _ e'']
        rfl
      · rename_i e''
        rw [hparse _ e'']
        rfl

theorem toOption_moreEntries (h : fs.Fit cols P) (hP : P look)
    (hk : ∀ m ∈ ms, ∀ key, m.1.string? = some key → m.2 ∈ look key) (hms : Members false ms s r)
    (draft : δ) : (moreEntries fs draft s).toOption = (cols.takeAll? draft ms).map (·, r) := by
  induction ms generalizing s draft with
  | nil =>
    cases hms with
    | nil hms =>
      rw [moreEntries_end (hms.trimmed_eq_cons (by decide))]
      rfl
  | cons m ms ih =>
    cases hms with
    | cons hg hc hb hv hms =>
      rename_i k v _ _ _ _
      cases hg with
      | comma hg hg₁ =>
        rw [toOption_moreEntries_comma (hg.trimmed_eq_cons (by decide)) (hg₁.trimmed_eq_cons (by decide)),
          parse_entry h hP (hk _ List.mem_cons_self) hc hb hv hms.ends, Columns.takeAll?]
        cases k.string? with
        | none => rfl
        | some key =>
          show ((cols.take? key v draft).map _).bind _ = ((cols.take? key v draft).bind _).map _
          cases cols.take? key v draft with
          | none => rfl
          | some draft => exact ih (fun m hm => hk m (List.mem_cons_of_mem _ hm)) hms draft

theorem mem_values {m : Quotation × Value} (hm : m ∈ ms) {key : String} (hk : m.1.string? = some key) :
    m.2 ∈ values ms key := List.mem_filterMap.2 ⟨m, hm, by rw [if_pos hk]⟩

theorem parse_entries (h : fs.Fit cols P) (hP : P (values ms)) (hms : Members true ms s r) :
    (entries fs).parse s = (cols.takeAll? cols.blank ms).map (·, r) := by
  have hk : ∀ m ∈ ms, ∀ key, m.1.string? = some key → m.2 ∈ values ms key := fun m hm key => mem_values hm
  cases hms with
  | nil hms => simp [entries, hms.trimmed_eq_cons, isSpace, Columns.takeAll?, h.blank_eq]
  | cons hg hc hb hv hms =>
    rename_i k v ms _ _ _ s₄
    cases hg with
    | opening hg =>
      have hentry := parse_entry h hP (hk _ List.mem_cons_self) hc hb hv hms.ends fs.blank
      have hmore := toOption_moreEntries h hP (fun m hm => hk m (List.mem_cons_of_mem _ hm)) hms
      simp only [entries, parse_bind, parse_spaced, hg.trimmed_eq_cons (show isSpace '"' = false by decide),
        List.head?_cons, Option.bind_some, parse_discard, parse_next, Option.map_some, List.tail_cons, hentry]
      rw [Columns.takeAll?, ← h.blank_eq]
      cases k.string? with
      | none => rfl
      | some key =>
        show ((cols.take? key v fs.blank).map _).bind _ = ((cols.take? key v fs.blank).bind _).map _
        cases cols.take? key v fs.blank with
        | none => rfl
        | some draft => exact hmore draft

theorem parse_record_of_ne {α : Type} {name : String} {make : ρ → α} {c : Char} (h : trimmed s = c :: r)
    (hl : c ≠ '[') (ho : c ≠ '\x7b') : (record name fs make).parse s = none := by
  simp [record, h]

/-- A record is read from an object by the names of its fields. -/
theorem Reads.record {α : Type} (h : fs.Fit cols P) (hn : cols.names.Nodup) (name : String) (make : ρ → α)
    {decode : (String → List Value) → Option α} (hd : ∀ look, (cols.record? look).map make = decode look) :
    (record name fs make).Reads (fun v => v.NotList ∧ P v.under) fun v => v.members?.bind decode := by
  rintro v s s₁ r ⟨hlist, hP⟩ hb hv -
  cases hv with
  | object hms =>
    simp only [Reader.record, parse_bind, parse_spaced, hb.trimmed_eq_cons (show isSpace '\x7b' = false by decide),
      List.head?_cons, Option.bind_some, parse_discard, parse_next, Option.map_some, List.tail_cons,
      parse_entries h hP hms]
    have hdecode : ∀ x : Option (String → List Value), x.bind decode = (x.bind cols.record?).map make
      | none => rfl
      | some look => (hd look).symm
    rw [hdecode, ← Columns.bind_takeAll?_finish? hn]
    cases cols.takeAll? cols.blank _ with
    | none => rfl
    | some draft =>
      rw [Option.map_some, Option.bind_some, Option.bind_some, ← h.toOption_finish]
      cases fs.finish draft <;> rfl
  | list => exact absurd rfl (hlist _)
  | number hn =>
    obtain ⟨c, t, ht, hc⟩ := hn.exists_trimmed hb
    exact parse_record_of_ne ht (ne_of_beginsNumeral hc (by decide)) (ne_of_beginsNumeral hc (by decide))
  | _ => exact parse_record_of_ne (hb.trimmed_eq_cons (by decide)) (by decide) (by decide)

end Reader
end Soql.Json
