import Soql.Proofs.JsonSkip

/-!
# Reading values

What the syntax tree of a value says to those who ask for a string, a number or a list of something,
and that readers make just that of its text (`Reader.Reads`).
-/

namespace Soql.Json

variable {α : Type}

/-! ### What a value says -/

namespace Value

def string? : Value → Option String
  | .string q => q.string?
  | _ => none

def null? : Value → Option Unit
  | .null => some ()
  | _ => none

def boolean? : Value → Option Bool
  | .boolean b => some b
  | _ => none

/-- A number without sign, fraction and exponent, below `2 ^ 32`. -/
def u32? : Value → Option UInt32
  | .number ⟨false, whole, [], none⟩ =>
    if digitsValue whole < UInt32.size then some (UInt32.ofNat (digitsValue whole)) else none
  | _ => none

def optional? (decode : Value → Option α) : Value → Option (Option α)
  | .null => some none
  | v => (decode v).map some

/-- One of several names, as a string or as the only key of an object, with the value `null`. -/
def choice? (variants : List (String × α)) : Value → Option α
  | .string q => q.string?.bind (List.lookup · variants)
  | .object [(k, .null)] => k.string?.bind (List.lookup · variants)
  | _ => none

/-- The entries of a list. -/
def items : Value → List Value
  | .list vs => vs
  | _ => []

def list? (decode : Value → Option α) : Value → Option (List α)
  | .list vs => vs.mapM decode
  | _ => none

end Value

theorem Value.choice?_object_cons (variants : List (String × α)) (k : Quotation) (v : Value)
    (ms : List (Quotation × Value)) : Value.choice? variants (.object ((k, v) :: ms)) =
      (k.string?.bind (List.lookup · variants)).bind fun a =>
        v.null?.bind fun _ => if ms.isEmpty then some a else none := by
  cases v with
  | null => cases ms <;> simp [Value.choice?, Value.null?]
  | _ => simp [Value.choice?, Value.null?]

/-! ### Numbers -/

def Number.u32? : Number → Option UInt32
  | .integer n => if 0 ≤ n ∧ n < UInt32.size then some (UInt32.ofNat n.toNat) else none
  | .float .. => none

theorem Numeral.bind_u32?_float (n : Numeral) : n.float.toOption.bind Number.u32? = none := by
  unfold Numeral.float
  dsimp only
  split <;> rfl

theorem Numeral.bind_u32?_number (n : Numeral) :
    n.number.toOption.bind Number.u32? = Value.u32? (.number n) := by
  by_cases h : n.fraction = [] ∧ n.exponent = none
  · obtain ⟨negative, whole, fraction, exponent⟩ := n
    obtain ⟨rfl, rfl⟩ := h
    unfold Numeral.number
    rw [if_pos ⟨rfl, rfl⟩]
    dsimp only
    cases negative with
    | true =>
      rw [if_pos rfl]
      split
      · exact bind_u32?_float _
      · have hneg : ¬0 ≤ (-(digitsValue whole : Int)) := by omega
        show Number.u32? (.integer _) = none
        rw [Number.u32?, if_neg fun h => hneg h.1]
    | false =>
      rw [if_neg nofun, Value.u32?]
      generalize digitsValue whole = v
      have hsize : UInt32.size < UInt64.size := by decide
      by_cases hv : v < UInt64.size
      · rw [if_pos hv, toOption_ok, Option.bind_some, Number.u32?]
        simp only [Int.natCast_nonneg, Int.ofNat_lt, true_and, Int.toNat_natCast]
      · rw [if_neg hv, bind_u32?_float, if_neg]
        omega
  · unfold Numeral.number
    rw [if_neg h, bind_u32?_float, Value.u32?]
    rintro whole ⟨⟩
    exact h ⟨rfl, rfl⟩

namespace Reader

/-- Of the text of any value of the shape, the reader takes all, and it makes of the text what `decode`
makes of the value. -/
def Reads (x : Reader α) (shape : Value → Prop) (decode : Value → Option α) : Prop :=
  ∀ ⦃v s s₁ r⦄, shape v → Blanks s s₁ → Spells v s₁ r → Ends r → x.parse s = (decode v).map (·, r)

variable {s s₁ r : List Char} {c : Char}

/-! ### Values of another kind -/

@[simp] theorem parse_mismatch (expected : Expected) (s : List Char) :
    (mismatch expected : Reader α).parse s = none := by
  unfold mismatch
  rw [parse_bind, parse_peek, Option.bind_some]
  split
  iterate 6 simp
  · split
    · rw [parse_bind, Option.bind_eq_none_iff]
      intro p _
      split <;> rfl
    · rfl
  · rfl

theorem parse_string_of_ne (h : trimmed s = c :: r) (hc : c ≠ '"') : string.parse s = none := by
  simp [string, h]

theorem parse_boolean_of_ne (h : trimmed s = c :: r) (ht : c ≠ 't') (hf : c ≠ 'f') :
    boolean.parse s = none := by
  simp [boolean, h]

theorem parse_u32_of_ne (h : trimmed s = c :: r) (hc : beginsNumeral c = false) : u32.parse s = none := by
  rw [beginsNumeral] at hc
  simp only [u32, parse_bind, parse_spaced, h, List.head?_cons, Option.bind_some, hc]
  exact parse_mismatch ..

/-! ### Scalars -/

theorem reads_string : string.Reads (fun _ => True) Value.string? := by
  rintro v s s₁ r - hb hv -
  cases hv with
  | string q =>
    simp [string, hb.trimmed_eq_cons, parse_stringBody, Value.string?, isSpace]
  | number h =>
    obtain ⟨c, t, ht, hc⟩ := h.exists_trimmed hb
    exact parse_string_of_ne ht (ne_of_beginsNumeral hc (by decide))
  | _ => exact parse_string_of_ne (hb.trimmed_eq_cons (by decide)) (by decide)

theorem reads_boolean : boolean.Reads (fun _ => True) Value.boolean? := by
  rintro v s s₁ r - hb hv -
  cases hv with
  | trueWord => simp [boolean, hb.trimmed_eq_cons, Value.boolean?, isSpace, keywordTail, keyword]
  | falseWord => simp [boolean, hb.trimmed_eq_cons, Value.boolean?, isSpace, keywordTail, keyword]
  | number h =>
    obtain ⟨c, t, ht, hc⟩ := h.exists_trimmed hb
    exact parse_boolean_of_ne ht (ne_of_beginsNumeral hc (by decide)) (ne_of_beginsNumeral hc (by decide))
  | _ => exact parse_boolean_of_ne (hb.trimmed_eq_cons (by decide)) (by decide) (by decide)

theorem parse_number {n : Numeral} (h : n.Spells s r) (hr : Ends r) :
    number.parse s = n.number.toOption.map (·, r) := by
  rw [number, parse_bind, parse_numeral _ h hr, Option.bind_some]
  cases n.number <;> rfl

theorem parse_u32_of_beginsNumeral (h : trimmed s = c :: r) (hc : beginsNumeral c = true) :
    u32.parse s = (number.parse (c :: r)).bind fun p => p.1.u32?.map (·, p.2) := by
  rw [beginsNumeral] at hc
  simp only [u32, parse_bind, parse_spaced, h, List.head?_cons, Option.bind_some, hc]
  rw [if_pos trivial, parse_bind]
  congr 1
  funext p
  obtain ⟨n, r⟩ := p
  cases n with
  | integer n =>
    simp only [Number.u32?]
    split <;> rfl
  | float negative x => rfl

theorem reads_u32 : u32.Reads (fun _ => True) Value.u32? := by
  rintro v s s₁ r - hb hv hr
  cases hv with
  | number h =>
    rename_i n
    obtain ⟨c, t, rfl, hc⟩ := h.exists_head
    rw [parse_u32_of_beginsNumeral (hb.trimmed_eq_cons (isSpace_of_beginsNumeral hc)) hc, parse_number h hr,
      ← n.bind_u32?_number]
    cases n.number <;> rfl
  | _ => exact parse_u32_of_ne (hb.trimmed_eq_cons (by decide)) (by decide)

/-! ### Null -/

theorem parse_null (r : List Char) : (keyword (keywordTail 'n')).parse ('u' :: 'l' :: 'l' :: r) = some ((), r) :=
  parse_keyword ['u', 'l', 'l'] r

/-- Texts of other values begin with another letter. -/
theorem head?_ne_of_spells {v : Value} (hv : Spells v s r) (h : v ≠ .null) : s.head? ≠ some 'n' := by
  cases hv with
  | null => exact absurd rfl h
  | number hn =>
    obtain ⟨c, t, rfl, hc⟩ := hn.exists_head
    exact fun e => ne_of_beginsNumeral hc (by decide) (Option.some.inj e)
  | _ => nofun

/-- A value is found behind the blanks. -/
theorem trimmed_eq_of_spells {v : Value} (hb : Blanks s s₁) (hv : Spells v s₁ r) : trimmed s = s₁ := by
  obtain ⟨c, t, rfl, hc⟩ := hv.exists_head
  exact hb.trimmed_eq_cons (isSpace_of_beginsValue hc)

theorem reads_unit : unit.Reads (fun _ => True) Value.null? := by
  rintro v s s₁ r - hb hv -
  rw [unit, parse_bind, parse_spaced, trimmed_eq_of_spells hb hv, Option.bind_some]
  by_cases h : v = .null
  · subst h
    cases hv
    simp [parse_null, Value.null?]
  · have hne := head?_ne_of_spells hv h
    have hnone : v.null? = none := by cases v <;> first | rfl | exact absurd rfl h
    rw [hnone]
    split
    · rfl
    · exact absurd ‹_› hne
    · exact parse_mismatch ..

theorem Reads.optional {x : Reader α} {shape : Value → Prop} {decode : Value → Option α}
    (hx : x.Reads shape decode) : (optional x).Reads shape (Value.optional? decode) := by
  intro v s s₁ r hs hb hv hr
  rw [Reader.optional, parse_bind, parse_spaced, trimmed_eq_of_spells hb hv, Option.bind_some]
  by_cases h : v = .null
  · subst h
    cases hv
    simp [parse_null, Value.optional?]
  · have hsome : Value.optional? decode v = (decode v).map some := by
      cases v <;> first | rfl | exact absurd rfl h
    rw [if_neg (head?_ne_of_spells hv h), parse_map, hx hs (.nil _) hv hr, hsome]
    cases decode v <;> rfl

/-! ### Choices -/

theorem parse_variant (variants : List (String × α)) (name : String) (s : List Char) :
    (match variants.lookup name with
      | some a => pure a
      | none => fail (.unknownVariant name (variants.map (·.1))) : Reader α).parse s =
      (variants.lookup name).map (·, s) := by
  cases variants.lookup name <;> rfl

theorem parse_choice_of_ne {variants : List (String × α)} (h : trimmed s = c :: r) (hq : c ≠ '"')
    (hb : c ≠ '\x7b') : (choice variants).parse s = none := by
  simp [choice, h]

/-- What a reader of choices does with an object behind the name. -/
def onlyNull (a : α) : Reader α := do
  colon
  unit
  match ← spaced with
  | none => fail .eofObject
  | some '\x7d' =>
    discard next
    pure a
  | some _ => fail .expectedValue

theorem parse_onlyNull {v : Value} {ms : List (Quotation × Value)} {s₂ s₃ s₄ : List Char}
    (hc : Blanks s (':' :: s₂)) (hb : Blanks s₂ s₃) (hv : Spells v s₃ s₄) (h : Members false ms s₄ r)
    (a : α) : (onlyNull a).parse s =
      (v.null?.bind fun _ => if ms.isEmpty then some a else none).map (·, r) := by
  rw [onlyNull, parse_bind, parse_colon hc, Option.bind_some, parse_bind, reads_unit trivial hb hv h.ends]
  cases v.null? with
  | none => rfl
  | some _ =>
    rw [Option.map_some, Option.bind_some, parse_bind, parse_spaced, Option.bind_some]
    cases h with
    | nil h =>
      rw [h.trimmed_eq_cons (by decide)]
      rfl
    | cons hg _ _ _ _ =>
      cases hg with
      | comma h _ =>
        rw [h.trimmed_eq_cons (by decide)]
        rfl

theorem reads_choice (variants : List (String × α)) :
    (choice variants).Reads (fun _ => True) (Value.choice? variants) := by
  rintro v s s₁ r - hb hv -
  cases hv with
  | string q =>
    simp only [choice, parse_bind, parse_spaced, hb.trimmed_eq_cons (show isSpace '"' = false by decide),
      List.head?_cons, Option.bind_some, parse_discard, parse_next, Option.map_some, List.tail_cons,
      parse_stringBody, Value.choice?]
    cases q.string? with
    | none => rfl
    | some name => exact parse_variant variants name r
  | object h =>
    simp only [choice, parse_bind, parse_spaced, hb.trimmed_eq_cons (show isSpace '\x7b' = false by decide),
      List.head?_cons, Option.bind_some, parse_discard, parse_next, Option.map_some, List.tail_cons]
    cases h with
    | nil h => simp [h.trimmed_eq_cons, isSpace, Value.choice?]
    | cons hg hc hb hv h =>
      rename_i k v ms s₁ s₂ s₃ s₄
      cases hg with
      | opening hg =>
        simp only [parse_bind, parse_spaced, hg.trimmed_eq_cons (show isSpace '"' = false by decide),
          List.head?_cons, Option.bind_some, parse_discard, parse_next, Option.map_some, List.tail_cons,
          parse_stringBody]
        rw [Value.choice?_object_cons]
        cases k.string? with
        | none => rfl
        | some name =>
          show ((match List.lookup name variants with | some a => _ | none => _ : Reader α).parse s₁).bind _ = _
          rw [parse_variant, Option.bind_some]
          cases List.lookup name variants with
          | none => rfl
          | some a =>
            have hnull := parse_onlyNull hc hb hv h a
            simp only [onlyNull, parse_bind, parse_spaced, Option.bind_some] at hnull
            exact hnull
  | number h =>
    obtain ⟨c, t, ht, hc⟩ := h.exists_trimmed hb
    exact parse_choice_of_ne ht (ne_of_beginsNumeral hc (by decide)) (ne_of_beginsNumeral hc (by decide))
  | _ => exact parse_choice_of_ne (hb.trimmed_eq_cons (by decide)) (by decide) (by decide)

/-! ### Lists -/

theorem moreItems_end {x : Reader α} (h : trimmed s = ']' :: r) : moreItems x s = .ok ([], r) := by
  rw [moreItems]
  split
  · rename_i e
    cases h.symm.trans e
  · rename_i e
    obtain ⟨rfl, rfl⟩ := List.cons.inj (h.symm.trans e)
    exact if_pos rfl

theorem toOption_moreItems_comma {x : Reader α} {t : List Char} (h : trimmed s = ',' :: t)
    (ht : trimmed t = c :: r) (hc : c ≠ ']') : (moreItems x s).toOption =
      (x.parse t).bind fun p => (moreItems x p.2).toOption.map fun p' => (p.1 :: p'.1, p'.2) := by
  rw [moreItems]
  split
  · rename_i e
    cases h.symm.trans e
  · rename_i e
    obtain ⟨rfl, rfl⟩ := List.cons.inj (h.symm.trans e)
    rw [if_neg (by decide), if_pos rfl]
    split
    · rename_i e'
      cases ht.symm.trans e'
    · rename_i e'
      exact absurd (List.cons.inj (ht.symm.trans e')).1 hc
    · have hparse : ∀ y, x.run t = y → x.parse t = y.toOption := fun y e => congrArg Except.toOption e
      split
      · rename_i e
        rw [hparse _ e]
        rfl
      · rename_i a r' e
        show (Except.map _ (moreItems x r')).toOption = _
        rw [hparse _ e, toOption_map]
        rfl

theorem toOption_moreItems {x : Reader α} {shape : Value → Prop} {decode : Value → Option α}
    (hx : x.Reads shape decode) {vs : List Value} (hs : ∀ v ∈ vs, shape v) (h : Items false vs s r) :
    (moreItems x s).toOption = (vs.mapM decode).map (·, r) := by
  induction vs generalizing s with
  | nil =>
    cases h with
    | nil h =>
      rw [moreItems_end (h.trimmed_eq_cons (by decide))]
      rfl
  | cons v vs ih =>
    cases h with
    | cons hg hv h =>
      cases hg with
      | comma hb hb₁ =>
        obtain ⟨c, t, rfl, hc⟩ := hv.exists_head
        have hne : c ≠ ']' := by rintro rfl; cases hc
        rw [toOption_moreItems_comma (hb.trimmed_eq_cons (by decide))
          (hb₁.trimmed_eq_cons (isSpace_of_beginsValue hc)) hne, hx (hs v List.mem_cons_self) hb₁ hv h.ends,
          List.mapM_cons]
        cases decode v with
        | none => rfl
        | some a =>
          show (moreItems x _).toOption.map _ = _
          rw [ih (fun v hv => hs v (List.mem_cons_of_mem _ hv)) h]
          cases vs.mapM decode <;> rfl

theorem parse_items {x : Reader α} {shape : Value → Prop} {decode : Value → Option α}
    (hx : x.Reads shape decode) {vs : List Value} (hs : ∀ v ∈ vs, shape v) (h : Items true vs s r) :
    (items x).parse s = (vs.mapM decode).map (·, r) := by
  cases h with
  | nil h =>
    simp [items, h.trimmed_eq_cons, isSpace]
  | cons hg hv h =>
    rename_i v vs s₁ s₂
    cases hg with
    | opening hb =>
      obtain ⟨c, t, rfl, hc⟩ := hv.exists_head
      have hne : c ≠ ']' := by rintro rfl; cases hc
      have hitem := hx (hs v List.mem_cons_self) (.nil _) hv h.ends
      have hmore := toOption_moreItems hx (fun v hv => hs v (List.mem_cons_of_mem _ hv)) h
      simp only [items, parse_bind, parse_spaced, hb.trimmed_eq_cons (isSpace_of_beginsValue hc),
        List.head?_cons, Option.bind_some, hitem, List.mapM_cons]
      cases decode v with
      | none => rfl
      | some a =>
        show (moreItems x s₂).toOption.bind _ = _
        rw [hmore]
        cases vs.mapM decode <;> rfl

theorem parse_list_of_ne {x : Reader α} (h : trimmed s = c :: r) (hc : c ≠ '[') : (list x).parse s = none := by
  simp [list, h]

theorem Reads.list {x : Reader α} {shape : Value → Prop} {decode : Value → Option α}
    (hx : x.Reads shape decode) :
    (list x).Reads (fun v => ∀ e ∈ v.items, shape e) (Value.list? decode) := by
  intro v s s₁ r hs hb hv hr
  cases hv with
  | list h =>
    simp only [Reader.list, parse_bind, parse_spaced, hb.trimmed_eq_cons (show isSpace '[' = false by decide),
      List.head?_cons, Option.bind_some, parse_discard, parse_next, Option.map_some, List.tail_cons]
    exact parse_items hx hs h
  | number h =>
    obtain ⟨c, t, ht, hc⟩ := h.exists_trimmed hb
    exact parse_list_of_ne ht (ne_of_beginsNumeral hc (by decide))
  | _ => exact parse_list_of_ne (hb.trimmed_eq_cons (by decide)) (by decide)

/-! ### Documents -/

theorem toOption_document {x : Reader α} {shape : Value → Prop} {decode : Value → Option α}
    (hx : x.Reads shape decode) {v : Value} (hs : shape v) {text : String} (hw : v.Written text) :
    (document x text.toList).toOption = decode v := by
  obtain ⟨s, r, hb, hv, hr⟩ := hw
  have hparse := hx hs hb hv (hr.ends ends_nil)
  have htrim : trimmed r = [] := hr.trimmed_eq
  unfold document
  cases hd : decode v with
  | none =>
    rw [hd] at hparse
    cases e : x.run text.toList with
    | error f => rfl
    | ok p =>
      rw [parse, e] at hparse
      cases hparse
  | some a =>
    rw [hd] at hparse
    rw [run_of_parse hparse]
    show (if trimmed r = [] then _ else _ : Except Fault α).toOption = _
    rw [if_pos htrim]
    rfl

end Reader

end Soql.Json
