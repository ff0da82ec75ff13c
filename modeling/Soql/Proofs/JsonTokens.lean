import Soql.Json.Value
import Soql.Proofs.JsonText

/-!
# Reading the tokens of a JSON text

What a reader answers without regard to its faults (`Reader.parse`), so that sequences of readers are
sequences of options. Strings are read as what they mean, or not at all when they mean nothing
(`toOption_readString`), and passed over whether they mean something or not; a numeral is read to its
end (`parse_numeral`).
-/

namespace Soql.Json

theorem toOption_map {α β : Type} (f : α → β) (x : Except Fault α) :
    (x.map f).toOption = x.toOption.map f := by
  cases x <;> rfl

theorem toOption_ok {α : Type} (a : α) : (.ok a : Except Fault α).toOption = some a := rfl

namespace Reader
variable {α β : Type}

def parse (x : Reader α) (s : List Char) : Option (α × List Char) := (x.run s).toOption

theorem run_of_parse {x : Reader α} {s : List Char} {p : α × List Char} (h : x.parse s = some p) :
    x.run s = .ok p := by
  unfold parse at h
  cases e : x.run s <;> simp_all [Except.toOption]

@[simp] theorem parse_pure (a : α) (s : List Char) : (pure a : Reader α).parse s = some (a, s) := rfl

@[simp] theorem parse_fail (f : Fault) (s : List Char) : (fail f : Reader α).parse s = none := rfl

@[simp] theorem parse_bind (x : Reader α) (f : α → Reader β) (s : List Char) :
    (x >>= f).parse s = (x.parse s).bind fun p => (f p.1).parse p.2 := by
  unfold parse
  rw [run_bind]
  cases x.run s <;> rfl

@[simp] theorem parse_map (f : α → β) (x : Reader α) (s : List Char) :
    (f <$> x).parse s = (x.parse s).map fun p => (f p.1, p.2) := by
  unfold parse
  rw [run_map]
  cases x.run s <;> rfl

@[simp] theorem parse_discard (x : Reader α) (s : List Char) :
    (discard x).parse s = (x.parse s).map fun p => ((), p.2) := parse_map ..

@[simp] theorem parse_peek (s : List Char) : peek.parse s = some (s.head?, s) := rfl

@[simp] theorem parse_next (s : List Char) : next.parse s = some (s.head?, s.tail) := rfl

@[simp] theorem parse_spaced (s : List Char) : spaced.parse s = some ((trimmed s).head?, trimmed s) := rfl

@[simp] theorem parse_takeWhile (p : Char → Bool) (s : List Char) :
    (takeWhile p).parse s = some (s.takeWhile p, s.dropWhile p) := rfl

theorem parse_keyword (cs r : List Char) : (keyword cs).parse (cs ++ r) = some ((), r) := by
  induction cs with
  | nil => rfl
  | cons c cs ih => simp [keyword, ih]

theorem parse_colon {s r : List Char} (h : Blanks s (':' :: r)) : colon.parse s = some ((), r) := by
  simp [colon, h.trimmed_eq_cons (by decide)]

end Reader

/-! ### Strings -/

theorem readHex4_digits (u : CodeUnit) (s : List Char) : readHex4 (u.digits ++ s) = .ok (u.value, s) := by
  simp [CodeUnit.digits, CodeUnit.value, readHex4, u.first.hexValue_char, u.second.hexValue_char,
    u.third.hexValue_char, u.fourth.hexValue_char]

theorem ne_u_of_simpleEscape {letter c : Char} (h : simpleEscape letter = some c) : letter ≠ 'u' := by
  rintro rfl
  cases h

theorem readEscape_short {letter c : Char} (h : simpleEscape letter = some c) (s : List Char) :
    readEscape (letter :: s) = .ok (c, s) := by
  rw [readEscape]
  · simp only [h]
  · exact ne_u_of_simpleEscape h

theorem skipEscape_short {letter c : Char} (h : simpleEscape letter = some c) (s : List Char) :
    skipEscape (letter :: s) = .ok s := by
  rw [skipEscape]
  · simp only [h]
  · exact ne_u_of_simpleEscape h

theorem readEscape_unit (u : CodeUnit) (s : List Char) :
    readEscape ('u' :: (u.digits ++ s)) = readUnicode (u.digits ++ s) := by
  rw [readEscape]

theorem skipEscape_unit (u : CodeUnit) (s : List Char) : skipEscape ('u' :: (u.digits ++ s)) = .ok s := by
  rw [skipEscape, readHex4_digits]
  rfl

theorem readString_plain {c : Char} (h : 0x20 ≤ c.toNat ∧ c ≠ '"' ∧ c ≠ '\\') (s : List Char) :
    (readString (c :: s)).toOption = (readString s).toOption.map fun p => (c :: p.1, p.2) := by
  rw [readString, if_neg (by omega), toOption_map]
  · exact h.2.1
  · exact h.2.2

theorem skipString_plain {c : Char} (h : 0x20 ≤ c.toNat ∧ c ≠ '"' ∧ c ≠ '\\') (s : List Char) :
    skipString (c :: s) = skipString s := by
  rw [skipString, if_neg (by omega)]
  · exact h.2.1
  · exact h.2.2

theorem readString_escape (s : List Char) : (readString ('\\' :: s)).toOption =
    (readEscape s).toOption.bind fun p => (readString p.2).toOption.map fun p' => (p.1 :: p'.1, p'.2) := by
  rw [readString]
  split
  · rename_i e
    rw [e]
    rfl
  · rename_i c r e
    show (Except.map _ (readString r)).toOption = _
    rw [e, toOption_map]
    rfl

theorem skipString_escape {s r : List Char} (h : skipEscape s = .ok r) :
    skipString ('\\' :: s) = skipString r := by
  rw [skipString]
  split
  · rename_i e
    rw [h] at e
    cases e
  · rename_i e
    rw [h] at e
    cases e
    rfl

/-- What a `\u` escape comes to after its digits have been read. -/
theorem readUnicode_digits (u : CodeUnit) (s : List Char) : readUnicode (u.digits ++ s) =
    if isTrailingSurrogate u.value then .error .loneSurrogate
    else if !isLeadingSurrogate u.value then .ok (Char.ofNat u.value, s)
    else
      match s with
      | [] | ['\\'] => .error .eofString
      | '\\' :: 'u' :: r => do
        let (n, r) ← readHex4 r
        if isTrailingSurrogate n then return (surrogatePair u.value n, r) else throw .loneSurrogate
      | _ => .error .unexpectedEndOfHexEscape := by
  unfold readUnicode
  rw [readHex4_digits]
  rfl

theorem readUnicode_pair {u u' : CodeUnit} (ht : ¬isTrailingSurrogate u.value = true)
    (hl : ¬(!isLeadingSurrogate u.value) = true) (s : List Char) :
    readUnicode (u.digits ++ '\\' :: 'u' :: (u'.digits ++ s)) =
      if isTrailingSurrogate u'.value then .ok (surrogatePair u.value u'.value, s)
      else .error .loneSurrogate := by
  rw [readUnicode_digits, if_neg ht, if_neg hl]
  show (readHex4 (u'.digits ++ s) >>= _) = _
  rw [readHex4_digits]
  rfl

/-- After a leading surrogate comes the escape of another code unit, or the reading fails. -/
theorem toOption_readUnicode_lone {u : CodeUnit} {s : List Char} (ht : ¬isTrailingSurrogate u.value = true)
    (hl : ¬(!isLeadingSurrogate u.value) = true) (hs : ∀ r, s ≠ '\\' :: 'u' :: r) :
    (readUnicode (u.digits ++ s)).toOption = none := by
  rw [readUnicode_digits, if_neg ht, if_neg hl]
  split
  · rfl
  · rfl
  · exact absurd rfl (hs _)
  · rfl

theorem readString_unit (u : CodeUnit) (s : List Char) :
    (readString ((Piece.unit u).text ++ s)).toOption = (readUnicode (u.digits ++ s)).toOption.bind fun p =>
      (readString p.2).toOption.map fun p' => (p.1 :: p'.1, p'.2) := by
  show (readString ('\\' :: 'u' :: (u.digits ++ s))).toOption = _
  rw [readString_escape, readEscape_unit]

/-- What follows a leading surrogate that has no partner. -/
theorem ne_of_not_unit {q : Quotation} (h : ∀ u' q', q = .unit u' :: q' → False) (s r : List Char) :
    q.text ++ '"' :: s ≠ '\\' :: 'u' :: r := by
  match q with
  | [] => simp
  | .plain c hc :: q => simp [Piece.text, hc.2.2]
  | .short letter c hc :: q => simp [Piece.text, ne_u_of_simpleEscape hc]
  | .unit u' :: q => exact (h u' q rfl).elim

/-- The text of a string up to its closing quote is read as the meaning of the string, and is not read
if it has none. -/
theorem toOption_readString (q : Quotation) (r : List Char) :
    (readString (q.text ++ '"' :: r)).toOption = q.meaning?.map (·, r) := by
  have hmap : ∀ (c : Char) (m : Option (List Char)),
      (m.map (·, r)).map (fun p => (c :: p.1, p.2)) = (m.map (c :: ·)).map (·, r) := fun c m => by
    cases m <;> rfl
  induction q using Quotation.meaning?.induct with
  | case1 =>
    rw [Quotation.text_nil, List.nil_append, readString]
    rfl
  | case2 c h q ih =>
    rw [Quotation.text_cons, List.append_assoc, Quotation.meaning?, ← hmap, ← ih]
    exact readString_plain h _
  | case3 letter c h q ih =>
    rw [Quotation.text_cons, List.append_assoc, Quotation.meaning?]
    show (readString ('\\' :: letter :: (Quotation.text q ++ '"' :: r))).toOption = _
    rw [readString_escape, readEscape_short h, toOption_ok, Option.bind_some, ih, hmap]
  | case4 u q ht =>
    rw [Quotation.text_cons, List.append_assoc, readString_unit, readUnicode_digits, if_pos ht,
      Quotation.meaning?.eq_def]
    simp only [if_pos ht]
    rfl
  | case5 u q ht hl ih =>
    rw [Quotation.text_cons, List.append_assoc, readString_unit, readUnicode_digits, if_neg ht, if_pos hl,
      Quotation.meaning?.eq_def]
    simp only [if_neg ht, if_pos hl]
    rw [toOption_ok, Option.bind_some, ih, hmap]
  | case6 u ht hl u' q ht' ih =>
    rw [Quotation.text_cons, List.append_assoc, readString_unit, Quotation.text_cons, List.append_assoc,
      show (Piece.unit u').text = '\\' :: 'u' :: u'.digits from rfl, List.cons_append, List.cons_append,
      readUnicode_pair ht hl, if_pos ht', Quotation.meaning?.eq_def]
    simp only [if_neg ht, if_neg hl, if_pos ht']
    rw [toOption_ok, Option.bind_some, ih, hmap]
  | case7 u ht hl u' q ht' =>
    rw [Quotation.text_cons, List.append_assoc, readString_unit, Quotation.text_cons, List.append_assoc,
      show (Piece.unit u').text = '\\' :: 'u' :: u'.digits from rfl, List.cons_append, List.cons_append,
      readUnicode_pair ht hl, if_neg ht', Quotation.meaning?.eq_def]
    simp only [if_neg ht, if_neg hl, if_neg ht']
    rfl
  | case8 u q ht hl hq =>
    rw [Quotation.text_cons, List.append_assoc, readString_unit,
      toOption_readUnicode_lone ht hl (ne_of_not_unit hq r), Quotation.meaning?.eq_def]
    simp only [if_neg ht, if_neg hl]
    rfl

/-- Passing over a string asks for no meaning. -/
theorem skipString_text (q : Quotation) (r : List Char) : skipString (q.text ++ '"' :: r) = .ok r := by
  induction q with
  | nil => rw [Quotation.text_nil, List.nil_append, skipString]
  | cons p q ih =>
    rw [Quotation.text_cons, List.append_assoc, ← ih]
    cases p with
    | plain c h => exact skipString_plain h _
    | short letter c h => exact skipString_escape (skipEscape_short h _)
    | unit u => exact skipString_escape (skipEscape_unit u _)

theorem Reader.parse_stringBody (q : Quotation) (r : List Char) :
    stringBody.parse (q.text ++ '"' :: r) = q.string?.map (·, r) := by
  show (Except.map _ (readString _)).toOption = _
  rw [toOption_map, toOption_readString, Quotation.string?, Option.map_map, Option.map_map]
  rfl

/-! ### Numerals -/

theorem Digits.span {ds s r : List Char} (h : Digits ds s r) (hr : ∀ c ∈ r.head?, isDigit c = false) :
    s.takeWhile isDigit = ds ∧ s.dropWhile isDigit = r := by
  obtain ⟨rfl, hds⟩ := h
  rw [List.takeWhile_append_of_pos hds, List.dropWhile_append_of_pos hds]
  cases r with
  | nil => simp
  | cons c r => simp [hr c rfl]

theorem Ends.not_isDigit {r : List Char} (h : Ends r) : ∀ c ∈ r.head?, isDigit c = false := fun c hc => by
  have := h c hc
  simp only [continuesNumeral, Bool.or_eq_false_iff] at this
  exact this.1.1.1

/-- Behind a fraction comes no digit and no point. -/
theorem Exponent.head {e : Option Int} {s r : List Char} (h : Exponent e s r) (hr : Ends r) :
    ∀ c ∈ s.head?, isDigit c = false ∧ c ≠ '.' := by
  cases h with
  | absent =>
    intro c hc
    have := hr c hc
    simp only [continuesNumeral, Bool.or_eq_false_iff, decide_eq_false_iff_not] at this
    exact ⟨this.1.1.1, this.1.1.2⟩
  | present he =>
    rintro _ ⟨⟩
    obtain rfl | rfl := he <;> decide

theorem Fraction.head {ds s r : List Char} (h : Fraction ds s r)
    (hr : ∀ c ∈ r.head?, isDigit c = false ∧ c ≠ '.') : ∀ c ∈ s.head?, isDigit c = false := by
  cases h with
  | absent => exact fun c hc => (hr c hc).1
  | present =>
    rintro _ ⟨⟩
    decide

theorem Whole.head?_ne_minus {ds s r : List Char} (h : Whole ds s r) : s.head? ≠ some '-' := by
  cases h with
  | zero => nofun
  | digits hd =>
    rintro ⟨⟩
    cases hd

theorem any_head?_eq_false {p : Char → Bool} {s : List Char} (h : ∀ c ∈ s.head?, p c = false) :
    s.head?.any p = false := by
  cases s with
  | nil => rfl
  | cons c s => exact h c rfl

namespace Reader

variable {s r : List Char} (f : Fault)

theorem parse_wholePart {ds : List Char} (h : Whole ds s r) (hr : ∀ c ∈ r.head?, isDigit c = false) :
    (wholePart f).parse s = some (ds, r) := by
  cases h with
  | zero => simp [wholePart, any_head?_eq_false hr]
  | digits hd hz h =>
    obtain ⟨ht, hw⟩ := h.span hr
    simp [wholePart, hz, hd, ht, hw]

theorem parse_fractionPart {ds : List Char} (h : Fraction ds s r)
    (hr : ∀ c ∈ r.head?, isDigit c = false ∧ c ≠ '.') : (fractionPart f).parse s = some (ds, r) := by
  cases h with
  | absent =>
    have hp : s.head? ≠ some '.' := fun e => (hr '.' e).2 rfl
    simp [fractionPart, hp]
  | present hds h =>
    obtain ⟨ht, hw⟩ := h.span fun c hc => (hr c hc).1
    rw [fractionPart, parse_bind, parse_peek, Option.bind_some, List.head?_cons, if_pos rfl]
    simp only [parse_bind, parse_discard, parse_next, Option.map_some, Option.bind_some, List.tail_cons,
      parse_takeWhile, ht, hw]
    rw [if_neg (by simpa using hds), parse_pure]

theorem parse_exponentSign {negative : Bool} (h : ExponentSign negative s r)
    (hr : ∀ c ∈ r.head?, isDigit c = true) : exponentSign.parse s = some (negative, r) := by
  cases h with
  | plus => rfl
  | minus => rfl
  | absent =>
    have hp : s.head? ≠ some '+' := fun e => by cases hr _ e
    have hm : s.head? ≠ some '-' := fun e => by cases hr _ e
    rw [exponentSign, parse_bind, parse_peek, Option.bind_some]
    split
    · rename_i e
      exact absurd e hp
    · rename_i e
      exact absurd e hm
    · rfl

theorem parse_exponentPart {e : Option Int} (h : Exponent e s r) (hr : Ends r) :
    (exponentPart f).parse s = some (e, r) := by
  cases h with
  | absent =>
    have he : s.head?.any (fun c => c = 'e' || c = 'E') = false := any_head?_eq_false fun c hc => by
      have := hr c hc
      simp only [continuesNumeral, Bool.or_eq_false_iff] at this ⊢
      exact ⟨this.1.2, this.2⟩
    simp [exponentPart, he]
  | present he hs hds h =>
    rename_i e negative ds s s₁
    match ds, hds with
    | d :: ds, _ =>
      obtain ⟨rfl, hall⟩ := h
      have hd : isDigit d = true := hall d List.mem_cons_self
      have hrest : Digits ds (ds ++ r) r := ⟨rfl, fun c hc => hall c (List.mem_cons_of_mem _ hc)⟩
      obtain ⟨ht, hw⟩ := hrest.span hr.not_isDigit
      have hs := parse_exponentSign hs fun c hc => by cases hc; exact hd
      simp [exponentPart, he, hs, hd, ht, hw]

theorem parse_numeral {n : Numeral} (h : n.Spells s r) (hr : Ends r) :
    (numeral f).parse s = some (n, r) := by
  obtain ⟨hm, hw, hf, he⟩ := h
  have h₃ := he.head hr
  have hw' := parse_wholePart f hw (hf.head h₃)
  have hf' := parse_fractionPart f hf h₃
  have he' := parse_exponentPart f he hr
  cases hm with
  | present => simp [numeral, hw', hf', he']
  | absent => simp [numeral, hw.head?_ne_minus, hw', hf', he']

end Reader

end Soql.Json
