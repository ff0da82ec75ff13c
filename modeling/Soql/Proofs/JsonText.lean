import Soql.Json.Number
import Soql.Json.Quoted

/-!
# The grammar of JSON texts

What a JSON text is, whatever is read from it. A value is a syntax tree: numerals by their parts,
strings by the pieces they are written with, the members of an object in their order and with their
repetitions. `Spells v s r` says that `s` is a text of `v` followed by `r`, so texts that follow one
another share what stands between them and nothing is appended. Blanks are free where the grammar has
them, and a value does not tell where they were.
-/

namespace Soql.Json

/-! ### Strings -/

structure HexDigit where
  char : Char
  value : Nat
  hexValue_char : hexValue char = some value

/-- The digits of a `\u` escape. -/
structure CodeUnit where
  first : HexDigit
  second : HexDigit
  third : HexDigit
  fourth : HexDigit

namespace CodeUnit

def digits (u : CodeUnit) : List Char := [u.first.char, u.second.char, u.third.char, u.fourth.char]

def value (u : CodeUnit) : Nat :=
  ((u.first.value * 16 + u.second.value) * 16 + u.third.value) * 16 + u.fourth.value

end CodeUnit

/-- What a string is written with. -/
inductive Piece where
  /-- A character that stands for itself. -/
  | plain (c : Char) (h : 0x20 ≤ c.toNat ∧ c ≠ '"' ∧ c ≠ '\\')
  /-- A backslash and a letter. -/
  | short (letter c : Char) (h : simpleEscape letter = some c)
  | unit (u : CodeUnit)

def Piece.text : Piece → List Char
  | .plain c _ => [c]
  | .short letter _ _ => ['\\', letter]
  | .unit u => '\\' :: 'u' :: u.digits

/-- A string as it is written between its quotes. -/
abbrev Quotation := List Piece

namespace Quotation

def text (q : Quotation) : List Char := q.flatMap Piece.text

/-- The characters of a string. A `\u` escape is a character of its own unless it is a surrogate;
surrogates stand for a character in pairs, and there is no meaning in a lone one. -/
def meaning? : Quotation → Option (List Char)
  | [] => some []
  | .plain c _ :: q => (meaning? q).map (c :: ·)
  | .short _ c _ :: q => (meaning? q).map (c :: ·)
  | .unit u :: q =>
    if isTrailingSurrogate u.value then none
    else if !isLeadingSurrogate u.value then (meaning? q).map (Char.ofNat u.value :: ·)
    else
      match q with
      | .unit u' :: q =>
        if isTrailingSurrogate u'.value then (meaning? q).map (surrogatePair u.value u'.value :: ·)
        else none
      | _ => none

def string? (q : Quotation) : Option String := q.meaning?.map String.ofList

@[simp] theorem text_nil : text [] = [] := rfl

@[simp] theorem text_cons (p : Piece) (q : Quotation) : text (p :: q) = p.text ++ text q :=
  List.flatMap_cons

end Quotation

inductive Value where
  | null
  | boolean (b : Bool)
  | number (n : Numeral)
  | string (q : Quotation)
  | list (vs : List Value)
  | object (ms : List (Quotation × Value))

/-! ### Numerals -/

/-- The text is these digits and then `r`. -/
def Digits (ds s r : List Char) : Prop := s = ds ++ r ∧ ∀ d ∈ ds, isDigit d = true

inductive Minus : Bool → List Char → List Char → Prop where
  | absent (r : List Char) : Minus false r r
  | present (r : List Char) : Minus true ('-' :: r) r

/-- The digits before the point: a zero stands alone. -/
inductive Whole : List Char → List Char → List Char → Prop where
  | zero (r : List Char) : Whole ['0'] ('0' :: r) r
  | digits {d : Char} {ds s r : List Char} (hd : isDigit d = true) (hz : d ≠ '0') (h : Digits ds s r) :
    Whole (d :: ds) (d :: s) r

inductive Fraction : List Char → List Char → List Char → Prop where
  | absent (r : List Char) : Fraction [] r r
  | present {ds s r : List Char} (hds : ds ≠ []) (h : Digits ds s r) : Fraction ds ('.' :: s) r

inductive ExponentSign : Bool → List Char → List Char → Prop where
  | absent (r : List Char) : ExponentSign false r r
  | plus (r : List Char) : ExponentSign false ('+' :: r) r
  | minus (r : List Char) : ExponentSign true ('-' :: r) r

inductive Exponent : Option Int → List Char → List Char → Prop where
  | absent (r : List Char) : Exponent none r r
  | present {e : Char} {negative : Bool} {ds s s₁ r : List Char} (he : e = 'e' ∨ e = 'E')
    (hs : ExponentSign negative s s₁) (hds : ds ≠ []) (h : Digits ds s₁ r) :
    Exponent (some (if negative then -digitsValue ds else digitsValue ds)) (e :: s) r

inductive Numeral.Spells : Numeral → List Char → List Char → Prop where
  | mk {negative : Bool} {whole fraction : List Char} {exponent : Option Int} {s s₁ s₂ s₃ r : List Char}
    (hm : Minus negative s s₁) (hw : Whole whole s₁ s₂) (hf : Fraction fraction s₂ s₃)
    (he : Exponent exponent s₃ r) : Numeral.Spells ⟨negative, whole, fraction, exponent⟩ s r

/-! ### Values -/

inductive Blanks : List Char → List Char → Prop where
  | nil (r : List Char) : Blanks r r
  | cons {c : Char} {s r : List Char} (hc : isSpace c = true) (h : Blanks s r) : Blanks (c :: s) r

/-- What stands before an entry: blanks for the first one, and a comma with blanks around it for those
that follow. -/
inductive Gap : Bool → List Char → List Char → Prop where
  | opening {s r : List Char} (h : Blanks s r) : Gap true s r
  | comma {s s₁ r : List Char} (h : Blanks s (',' :: s₁)) (h₁ : Blanks s₁ r) : Gap false s r

mutual

inductive Spells : Value → List Char → List Char → Prop where
  | null (r : List Char) : Spells .null ('n' :: 'u' :: 'l' :: 'l' :: r) r
  | trueWord (r : List Char) : Spells (.boolean true) ('t' :: 'r' :: 'u' :: 'e' :: r) r
  | falseWord (r : List Char) : Spells (.boolean false) ('f' :: 'a' :: 'l' :: 's' :: 'e' :: r) r
  | number {n : Numeral} {s r : List Char} (h : n.Spells s r) : Spells (.number n) s r
  | string (q : Quotation) (r : List Char) : Spells (.string q) ('"' :: (q.text ++ '"' :: r)) r
  | list {vs : List Value} {s r : List Char} (h : Items true vs s r) : Spells (.list vs) ('[' :: s) r
  | object {ms : List (Quotation × Value)} {s r : List Char} (h : Members true ms s r) :
    Spells (.object ms) ('\x7b' :: s) r

/-- The entries of a list with the bracket that ends it. -/
inductive Items : Bool → List Value → List Char → List Char → Prop where
  | nil {first : Bool} {s r : List Char} (h : Blanks s (']' :: r)) : Items first [] s r
  | cons {first : Bool} {v : Value} {vs : List Value} {s s₁ s₂ r : List Char} (hg : Gap first s s₁)
    (hv : Spells v s₁ s₂) (h : Items false vs s₂ r) : Items first (v :: vs) s r

/-- The members of an object with the brace that ends it. -/
inductive Members : Bool → List (Quotation × Value) → List Char → List Char → Prop where
  | nil {first : Bool} {s r : List Char} (h : Blanks s ('\x7d' :: r)) : Members first [] s r
  | cons {first : Bool} {k : Quotation} {v : Value} {ms : List (Quotation × Value)}
    {s s₁ s₂ s₃ s₄ r : List Char} (hg : Gap first s ('"' :: (k.text ++ '"' :: s₁)))
    (hc : Blanks s₁ (':' :: s₂)) (hb : Blanks s₂ s₃) (hv : Spells v s₃ s₄) (h : Members false ms s₄ r) :
    Members first ((k, v) :: ms) s r

end

/-- The text is one of the value, with blanks around it. -/
def Value.Written (v : Value) (text : String) : Prop :=
  ∃ s r, Blanks text.toList s ∧ Spells v s r ∧ Blanks r []

/-! ### Where texts begin and end -/

theorem trimmed_cons_of_isSpace {c : Char} (h : isSpace c = true) (s : List Char) :
    trimmed (c :: s) = trimmed s := List.dropWhile_cons_of_pos h

theorem trimmed_cons_of_not_isSpace {c : Char} (h : isSpace c = false) (s : List Char) :
    trimmed (c :: s) = c :: s := List.dropWhile_cons_of_neg (by simp [h])

theorem Blanks.trimmed_eq {s r : List Char} (h : Blanks s r) : trimmed s = trimmed r := by
  induction h with
  | nil => rfl
  | cons hc _ ih => rw [trimmed_cons_of_isSpace hc, ih]

theorem Blanks.trimmed_eq_cons {c : Char} {s r : List Char} (h : Blanks s (c :: r))
    (hc : isSpace c = false) : trimmed s = c :: r := by
  rw [h.trimmed_eq, trimmed_cons_of_not_isSpace hc]

/-- A numeral could go on with the character. -/
def continuesNumeral (c : Char) : Bool := isDigit c || c = '.' || c = 'e' || c = 'E'

/-- No numeral goes on here. -/
def Ends (s : List Char) : Prop := ∀ c ∈ s.head?, continuesNumeral c = false

theorem ends_nil : Ends [] := nofun

theorem ends_cons {c : Char} {s : List Char} (h : continuesNumeral c = false) : Ends (c :: s) := by
  rintro _ ⟨⟩
  exact h

theorem continuesNumeral_of_isSpace {c : Char} (h : isSpace c = true) : continuesNumeral c = false := by
  simp only [isSpace, Bool.or_eq_true, decide_eq_true_eq] at h
  obtain ((rfl | rfl) | rfl) | rfl := h <;> decide

theorem Blanks.ends {s r : List Char} (h : Blanks s r) (hr : Ends r) : Ends s := by
  cases h with
  | nil => exact hr
  | cons hc _ => exact ends_cons (continuesNumeral_of_isSpace hc)

theorem Items.ends {vs : List Value} {s r : List Char} (h : Items false vs s r) : Ends s := by
  cases h with
  | nil h => exact h.ends (ends_cons (by decide))
  | cons hg _ _ =>
    cases hg with
    | comma h _ => exact h.ends (ends_cons (by decide))

theorem Members.ends {ms : List (Quotation × Value)} {s r : List Char} (h : Members false ms s r) :
    Ends s := by
  cases h with
  | nil h => exact h.ends (ends_cons (by decide))
  | cons hg _ _ _ _ =>
    cases hg with
    | comma h _ => exact h.ends (ends_cons (by decide))

def beginsNumeral (c : Char) : Bool := c = '-' || isDigit c

theorem Numeral.Spells.exists_head {n : Numeral} {s r : List Char} (h : n.Spells s r) :
    ∃ c t, s = c :: t ∧ beginsNumeral c = true := by
  obtain ⟨hm, hw, -, -⟩ := h
  cases hm with
  | present => exact ⟨_, _, rfl, by decide⟩
  | absent =>
    cases hw with
    | zero => exact ⟨_, _, rfl, by decide⟩
    | digits hd => exact ⟨_, _, rfl, by simp [beginsNumeral, hd]⟩

def beginsValue (c : Char) : Bool :=
  c = 'n' || c = 't' || c = 'f' || c = '"' || c = '[' || c = '\x7b' || beginsNumeral c

theorem Spells.exists_head {v : Value} {s r : List Char} (h : Spells v s r) :
    ∃ c t, s = c :: t ∧ beginsValue c = true := by
  cases h with
  | number h =>
    obtain ⟨c, t, rfl, hc⟩ := h.exists_head
    exact ⟨c, t, rfl, by simp [beginsValue, hc]⟩
  | _ => exact ⟨_, _, rfl, by decide⟩

theorem isSpace_of_beginsValue {c : Char} (h : beginsValue c = true) : isSpace c = false := by
  rw [Bool.eq_false_iff]
  intro hc
  simp only [isSpace, Bool.or_eq_true, decide_eq_true_eq] at hc
  obtain ((rfl | rfl) | rfl) | rfl := hc <;> cases h

theorem isSpace_of_beginsNumeral {c : Char} (h : beginsNumeral c = true) : isSpace c = false :=
  isSpace_of_beginsValue (by simp [beginsValue, h])

theorem ne_of_beginsNumeral {c d : Char} (h : beginsNumeral c = true) (hd : beginsNumeral d = false) :
    c ≠ d := by
  rintro rfl
  rw [h] at hd
  cases hd

theorem Numeral.Spells.exists_trimmed {n : Numeral} {s s₁ r : List Char} (h : n.Spells s₁ r)
    (hb : Blanks s s₁) : ∃ c t, trimmed s = c :: t ∧ beginsNumeral c = true := by
  obtain ⟨c, t, rfl, hc⟩ := h.exists_head
  exact ⟨c, t, hb.trimmed_eq_cons (isSpace_of_beginsNumeral hc), hc⟩

end Soql.Json
