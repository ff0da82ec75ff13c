import Soql.Proofs.JsonValues

/-!
# A JSON text has one tree

The grammar is unambiguous: a text is the text of at most one tree, up to where the value ends
(`Spells.unique`). The first character of a value tells its kind. A string ends at the first quote that
is no part of a piece, and a numeral where no numeral goes on, which is why the rest has to be one where
it ends. So what a whole text says is a question about one tree (`Value.Written.unique`).
-/

namespace Soql.Json

/-! ### Strings -/

theorem HexDigit.eq_of_char {a b : HexDigit} (h : a.char = b.char) : a = b := by
  obtain ⟨c, m, hm⟩ := a
  obtain ⟨d, n, hn⟩ := b
  obtain rfl : c = d := h
  obtain rfl : m = n := Option.some.inj (hm.symm.trans hn)
  rfl

theorem CodeUnit.digits_append_inj {u u' : CodeUnit} {s s' : List Char}
    (h : u.digits ++ s = u'.digits ++ s') : u = u' ∧ s = s' := by
  obtain ⟨a, b, c, d⟩ := u
  obtain ⟨a', b', c', d'⟩ := u'
  simp only [digits, List.cons_append, List.nil_append, List.cons.injEq] at h
  obtain ⟨ha, hb, hc, hd, rfl⟩ := h
  obtain rfl := HexDigit.eq_of_char ha
  obtain rfl := HexDigit.eq_of_char hb
  obtain rfl := HexDigit.eq_of_char hc
  obtain rfl := HexDigit.eq_of_char hd
  exact ⟨rfl, rfl⟩

theorem Piece.text_append_inj {p p' : Piece} {s s' : List Char} (h : p.text ++ s = p'.text ++ s') :
    p = p' ∧ s = s' := by
  cases p with
  | plain c hc =>
    cases p' with
    | plain c' hc' => simp_all [text]
    | short letter' c' h' => exact absurd (List.cons.inj h).1 hc.2.2
    | unit u' => exact absurd (List.cons.inj h).1 hc.2.2
  | short letter c hl =>
    cases p' with
    | plain c' hc' => exact absurd (List.cons.inj h).1.symm hc'.2.2
    | short letter' c' hl' =>
      simp only [text, List.cons_append, List.nil_append, List.cons.injEq, true_and] at h
      obtain ⟨rfl, rfl⟩ := h
      obtain rfl : c = c' := Option.some.inj (hl.symm.trans hl')
      exact ⟨rfl, rfl⟩
    | unit u' => exact absurd (List.cons.inj (List.cons.inj h).2).1 (ne_u_of_simpleEscape hl)
  | unit u =>
    cases p' with
    | plain c' hc' => exact absurd (List.cons.inj h).1.symm hc'.2.2
    | short letter' c' hl' => exact absurd (List.cons.inj (List.cons.inj h).2).1.symm (ne_u_of_simpleEscape hl')
    | unit u' =>
      obtain ⟨rfl, rfl⟩ := CodeUnit.digits_append_inj (List.cons.inj (List.cons.inj h).2).2
      exact ⟨rfl, rfl⟩

/-- No piece begins with the quote that ends a string. -/
theorem Piece.text_append_ne (p : Piece) (s r : List Char) : p.text ++ s ≠ '"' :: r := by
  intro h
  cases p with
  | plain c hc => exact hc.2.1 (List.cons.inj h).1
  | short letter c hl => cases h
  | unit u => cases h

theorem Quotation.text_append_inj {q q' : Quotation} {r r' : List Char}
    (h : q.text ++ '"' :: r = q'.text ++ '"' :: r') : q = q' ∧ r = r' := by
  induction q generalizing q' with
  | nil =>
    cases q' with
    | nil => exact ⟨rfl, (List.cons.inj h).2⟩
    | cons p' q' =>
      rw [text_cons, List.append_assoc] at h
      exact absurd h.symm (p'.text_append_ne _ _)
  | cons p q ih =>
    rw [text_cons, List.append_assoc] at h
    cases q' with
    | nil => exact absurd h (p.text_append_ne _ _)
    | cons p' q' =>
      rw [text_cons, List.append_assoc] at h
      obtain ⟨rfl, hq⟩ := Piece.text_append_inj h
      obtain ⟨rfl, rfl⟩ := ih hq
      exact ⟨rfl, rfl⟩

/-! ### Numerals -/

theorem Numeral.Spells.unique {n n' : Numeral} {s r r' : List Char} (h : n.Spells s r) (h' : n'.Spells s r')
    (hr : Ends r) (hr' : Ends r') : n = n' ∧ r = r' := by
  have e := (Reader.parse_numeral .eofValue h hr).symm.trans (Reader.parse_numeral .eofValue h' hr')
  simpa using e

theorem Numeral.Spells.not_cons {n : Numeral} {c : Char} {s r : List Char} (h : n.Spells (c :: s) r)
    (hc : beginsNumeral c = false) : False := by
  obtain ⟨d, t, e, hd⟩ := h.exists_head
  rw [(List.cons.inj e).1, hd] at hc
  cases hc

/-! ### Entries -/

section
variable {first : Bool} {s s₁ s₂ r r' : List Char} {c c' : Char}

/-- Behind the blanks an entry begins, or the comma in front of it. -/
theorem Gap.exists_trimmed (hg : Gap first s (c :: r)) (hc : isSpace c = false) :
    ∃ d t, trimmed s = d :: t ∧ (d = c ∨ d = ',') := by
  cases hg with
  | opening h => exact ⟨c, r, h.trimmed_eq_cons hc, .inl rfl⟩
  | comma h _ => exact ⟨',', _, h.trimmed_eq_cons (by decide), .inr rfl⟩

theorem Gap.not_end (hg : Gap first s (c :: r)) (hc : isSpace c = false) (h : Blanks s (c' :: r'))
    (hc' : isSpace c' = false) (hne : c' ≠ c) (hcomma : c' ≠ ',') : False := by
  obtain ⟨d, t, e, hd⟩ := hg.exists_trimmed hc
  obtain ⟨rfl, -⟩ := List.cons.inj (e.symm.trans (h.trimmed_eq_cons hc'))
  rcases hd with hd | hd
  · exact hne hd
  · exact hcomma hd

theorem Gap.unique (hg : Gap first s s₁) (hg' : Gap first s s₂) (h₁ : trimmed s₁ = s₁)
    (h₂ : trimmed s₂ = s₂) : s₁ = s₂ := by
  cases hg with
  | opening h =>
    cases hg' with
    | opening h' =>
      calc
        s₁ = trimmed s := by rw [h.trimmed_eq, h₁]
        _ = s₂ := by rw [h'.trimmed_eq, h₂]
  | comma h h₃ =>
    cases hg' with
    | comma h' h₄ =>
      rename_i t t'
      obtain ⟨-, rfl⟩ : ',' = ',' ∧ t = t' := by
        simpa using (h.trimmed_eq_cons (by decide)).symm.trans (h'.trimmed_eq_cons (by decide))
      calc
        s₁ = trimmed t := by rw [h₃.trimmed_eq, h₁]
        _ = s₂ := by rw [h₄.trimmed_eq, h₂]

theorem Blanks.unique (h : Blanks s (c :: r)) (h' : Blanks s (c :: r')) (hc : isSpace c = false) : r = r' := by
  simpa using (h.trimmed_eq_cons hc).symm.trans (h'.trimmed_eq_cons hc)

end

theorem Spells.start_unique {v v' : Value} {s s₁ s₂ r r' : List Char} (h : Spells v s₁ r) (hb : Blanks s s₁)
    (h' : Spells v' s₂ r') (hb' : Blanks s s₂) : s₁ = s₂ :=
  (Reader.trimmed_eq_of_spells hb h).symm.trans (Reader.trimmed_eq_of_spells hb' h')

theorem Spells.trimmed_eq {v : Value} {s r : List Char} (h : Spells v s r) : trimmed s = s :=
  Reader.trimmed_eq_of_spells (.nil s) h

/-! ### Values -/

mutual

theorem Spells.unique {v v' : Value} {s r r' : List Char} (h : Spells v s r) (h' : Spells v' s r')
    (hr : Ends r) (hr' : Ends r') : v = v' ∧ r = r' := by
  match h with
  | .null _ =>
    cases h' with
    | null => exact ⟨rfl, rfl⟩
    | number hn => exact (hn.not_cons (by decide)).elim
  | .trueWord _ =>
    cases h' with
    | trueWord => exact ⟨rfl, rfl⟩
    | number hn => exact (hn.not_cons (by decide)).elim
  | .falseWord _ =>
    cases h' with
    | falseWord => exact ⟨rfl, rfl⟩
    | number hn => exact (hn.not_cons (by decide)).elim
  | .number hn =>
    cases h' with
    | number hn' =>
      obtain ⟨rfl, rfl⟩ := hn.unique hn' hr hr'
      exact ⟨rfl, rfl⟩
    | _ => exact (hn.not_cons (by decide)).elim
  | .string q _ =>
    generalize e : '"' :: (q.text ++ '"' :: r) = s at h'
    cases h' with
    | string q' =>
      obtain ⟨rfl, rfl⟩ := Quotation.text_append_inj (List.cons.inj e).2
      exact ⟨rfl, rfl⟩
    | number hn =>
      subst e
      exact (hn.not_cons (by decide)).elim
    | _ => cases e
  | .list hs =>
    cases h' with
    | list hs' =>
      obtain ⟨rfl, rfl⟩ := hs.unique hs'
      exact ⟨rfl, rfl⟩
    | number hn => exact (hn.not_cons (by decide)).elim
  | .object hs =>
    cases h' with
    | object hs' =>
      obtain ⟨rfl, rfl⟩ := hs.unique hs'
      exact ⟨rfl, rfl⟩
    | number hn => exact (hn.not_cons (by decide)).elim

theorem Items.unique {first : Bool} {vs vs' : List Value} {s r r' : List Char} (h : Items first vs s r)
    (h' : Items first vs' s r') : vs = vs' ∧ r = r' := by
  match h with
  | .nil hb =>
    cases h' with
    | nil hb' => exact ⟨rfl, hb.unique hb' (by decide)⟩
    | cons hg hv _ =>
      obtain ⟨c, t, rfl, hc⟩ := hv.exists_head
      have hne : ']' ≠ c := by rintro rfl; cases hc
      exact (hg.not_end (isSpace_of_beginsValue hc) hb (by decide) hne (by decide)).elim
  | .cons hg hv hs =>
    cases h' with
    | nil hb =>
      obtain ⟨c, t, rfl, hc⟩ := hv.exists_head
      have hne : ']' ≠ c := by rintro rfl; cases hc
      exact (hg.not_end (isSpace_of_beginsValue hc) hb (by decide) hne (by decide)).elim
    | cons hg' hv' hs' =>
      obtain rfl := hg.unique hg' hv.trimmed_eq hv'.trimmed_eq
      obtain ⟨rfl, rfl⟩ := hv.unique hv' hs.ends hs'.ends
      obtain ⟨rfl, rfl⟩ := hs.unique hs'
      exact ⟨rfl, rfl⟩

theorem Members.unique {first : Bool} {ms ms' : List (Quotation × Value)} {s r r' : List Char}
    (h : Members first ms s r) (h' : Members first ms' s r') : ms = ms' ∧ r = r' := by
  have htrim : ∀ t : List Char, trimmed ('"' :: t) = '"' :: t := fun t =>
    trimmed_cons_of_not_isSpace (by decide) t
  match h with
  | .nil hb =>
    cases h' with
    | nil hb' => exact ⟨rfl, hb.unique hb' (by decide)⟩
    | cons hg _ _ _ _ => exact (hg.not_end (by decide) hb (by decide) (by decide) (by decide)).elim
  | .cons hg hc hb hv hs =>
    cases h' with
    | nil hb' => exact (hg.not_end (by decide) hb' (by decide) (by decide) (by decide)).elim
    | cons hg' hc' hb' hv' hs' =>
      obtain ⟨rfl, rfl⟩ := Quotation.text_append_inj (List.cons.inj (hg.unique hg' (htrim _) (htrim _))).2
      obtain rfl := hc.unique hc' (by decide)
      obtain rfl := hv.start_unique hb hv' hb'
      obtain ⟨rfl, rfl⟩ := hv.unique hv' hs.ends hs'.ends
      obtain ⟨rfl, rfl⟩ := hs.unique hs'
      exact ⟨rfl, rfl⟩

end

theorem Value.Written.unique {v v' : Value} {text : String} (h : v.Written text) (h' : v'.Written text) :
    v = v' := by
  obtain ⟨s, r, hb, hv, hr⟩ := h
  obtain ⟨s', r', hb', hv', hr'⟩ := h'
  obtain rfl := hv.start_unique hb hv' hb'
  exact (hv.unique hv' (hr.ends ends_nil) (hr'.ends ends_nil)).1

end Soql.Json
