import Soql.Proofs.JsonTokens

/-!
# Passing over a value

Whatever a value is, passing over it leads behind the last character of its text, with the same frames
open as before (`skip_spells`). The proof follows the grammar, with one lemma for every kind of text.
-/

namespace Soql.Json

variable {frames : List Frame} {frame : Frame} {s r : List Char} {c : Char}

/-! ### What is due -/

theorem skip_value_eq (h : trimmed s = c :: r) : skip .value frames s =
    if c = '[' then skip .opened (.list :: frames) r
    else if c = '\x7b' then skip .opened (.object :: frames) r
    else if c = '"' then (skipString r).bind (skip .follow frames)
    else if c = 'n' || c = 't' || c = 'f' then
      ((Reader.keyword (keywordTail c)).run r).bind fun p => skip .follow frames p.2
    else if c = '-' || isDigit c then
      ((Reader.numeral .invalidNumber).run (c :: r)).bind fun p => skip .follow frames p.2
    else .error .expectedValue := by
  conv => lhs; rw [skip]
  split
  · rename_i e
    rw [h] at e
    cases e
  · rename_i e
    obtain ⟨rfl, rfl⟩ := List.cons.inj (h.symm.trans e)
    repeat' split
    all_goals simp_all [Except.bind]

theorem skip_opened_eq (h : trimmed s = c :: r) : skip .opened (frame :: frames) s =
    if frame.isEnd c then skip .follow frames r else skip frame.entry (frame :: frames) (c :: r) := by
  conv => lhs; rw [skip]
  split
  · simp_all
  · simp_all

theorem skip_follow_eq (h : trimmed s = c :: r) : skip .follow (frame :: frames) s =
    if c = ',' then skip frame.entry (frame :: frames) r
    else if frame.isEnd c then skip .follow frames r
    else .error frame.expectedCommaOrEnd := by
  conv => lhs; rw [skip]
  split
  · simp_all
  · simp_all

theorem skip_key_eq (h : trimmed s = c :: r) : skip .key frames s =
    if c = '"' then
      (skipString r).bind fun r => (Reader.colon.run r).bind fun p => skip .value frames p.2
    else .error .keyMustBeString := by
  conv => lhs; rw [skip]
  split
  · simp_all
  · rename_i e
    obtain ⟨rfl, rfl⟩ := List.cons.inj (h.symm.trans e)
    repeat' split
    all_goals simp_all [Except.bind]

/-! ### Frames -/

/-- What is due in a frame, in front of its first entry or behind another one. -/
def Due.inside (first : Bool) : Due := if first then .opened else .follow

theorem skip_end {first : Bool} (h : Blanks s (c :: r)) (hc : isSpace c = false) (hcomma : c ≠ ',')
    (hend : frame.isEnd c = true) : skip (.inside first) (frame :: frames) s = skip .follow frames r := by
  have ht := h.trimmed_eq_cons hc
  cases first with
  | false =>
    show skip .follow _ _ = _
    rw [skip_follow_eq ht, if_neg hcomma, if_pos hend]
  | true =>
    show skip .opened _ _ = _
    rw [skip_opened_eq ht, if_pos hend]

/-- Up to an entry, which may still have blanks before it. -/
theorem exists_skip_entry {first : Bool} (hg : Gap first s (c :: r)) (hc : isSpace c = false)
    (hend : frame.isEnd c = false) :
    ∃ t, Blanks t (c :: r) ∧
      skip (.inside first) (frame :: frames) s = skip frame.entry (frame :: frames) t := by
  cases hg with
  | opening h =>
    refine ⟨c :: r, .nil _, ?_⟩
    show skip .opened _ _ = _
    rw [skip_opened_eq (h.trimmed_eq_cons hc), if_neg (by simp [hend])]
  | comma h h₁ =>
    refine ⟨_, h₁, ?_⟩
    show skip .follow _ _ = _
    rw [skip_follow_eq (h.trimmed_eq_cons (by decide)), if_pos rfl]

theorem skip_key_text {k : Quotation} {s₁ s₂ : List Char} (h : Blanks s ('"' :: (k.text ++ '"' :: s₁)))
    (hc : Blanks s₁ (':' :: s₂)) : skip .key frames s = skip .value frames s₂ := by
  rw [skip_key_eq (h.trimmed_eq_cons (by decide)), if_pos rfl, skipString_text]
  show (Except.bind (Reader.colon.run s₁) _) = _
  rw [Reader.run_of_parse (Reader.parse_colon hc)]
  rfl

/-! ### Values -/

theorem skip_keyword {c : Char} (h : Blanks s (c :: (keywordTail c ++ r)))
    (hc : c = 'n' ∨ c = 't' ∨ c = 'f') : skip .value frames s = skip .follow frames r := by
  have hrun := Reader.run_of_parse (Reader.parse_keyword (keywordTail c) r)
  obtain rfl | rfl | rfl := hc <;>
    simp [skip_value_eq (h.trimmed_eq_cons (by decide)), hrun, Except.bind]

theorem skip_string {q : Quotation} (h : Blanks s ('"' :: (q.text ++ '"' :: r))) :
    skip .value frames s = skip .follow frames r := by
  simp [skip_value_eq (h.trimmed_eq_cons (by decide)), skipString_text, Except.bind]

theorem skip_numeral {n : Numeral} {s₁ : List Char} (h : Blanks s s₁) (hn : n.Spells s₁ r) (hr : Ends r) :
    skip .value frames s = skip .follow frames r := by
  obtain ⟨c, t, rfl, hc⟩ := hn.exists_head
  have hne : ∀ d, beginsNumeral d = false → c ≠ d := fun d => ne_of_beginsNumeral hc
  have hrun := Reader.run_of_parse (Reader.parse_numeral .invalidNumber hn hr)
  have hspace := isSpace_of_beginsNumeral hc
  rw [beginsNumeral] at hc
  rw [skip_value_eq (h.trimmed_eq_cons hspace), if_neg (hne _ (by decide)), if_neg (hne _ (by decide)),
    if_neg (hne _ (by decide)), if_neg, if_pos hc, hrun]
  · rfl
  · simp [hne 'n' (by decide), hne 't' (by decide), hne 'f' (by decide)]

mutual

theorem skip_spells {v : Value} {s s₁ r : List Char} {frames : List Frame} (hb : Blanks s s₁)
    (hr : Ends r) : Spells v s₁ r → skip .value frames s = skip .follow frames r
  | .null _ => skip_keyword hb (.inl rfl)
  | .trueWord _ => skip_keyword hb (.inr (.inl rfl))
  | .falseWord _ => skip_keyword hb (.inr (.inr rfl))
  | .number hn => skip_numeral hb hn hr
  | .string _ _ => skip_string hb
  | .list h => by
    rw [skip_value_eq (hb.trimmed_eq_cons (by decide)), if_pos rfl]
    exact skip_items h
  | .object h => by
    rw [skip_value_eq (hb.trimmed_eq_cons (by decide)), if_neg (by decide), if_pos rfl]
    exact skip_members h

theorem skip_items {first : Bool} {vs : List Value} {s r : List Char} {frames : List Frame} :
    Items first vs s r → skip (.inside first) (.list :: frames) s = skip .follow frames r
  | .nil h => skip_end h (by decide) (by decide) (by decide)
  | .cons hg hv h => by
    obtain ⟨c, t, rfl, hc⟩ := hv.exists_head
    have hend : Frame.list.isEnd c = false := by
      rw [Bool.eq_false_iff]
      intro he
      obtain rfl : c = ']' := by simpa [Frame.isEnd] using he
      cases hc
    obtain ⟨t', hb, e⟩ := exists_skip_entry hg (isSpace_of_beginsValue hc) hend
    rw [e]
    exact (skip_spells hb h.ends hv).trans (skip_items h)

theorem skip_members {first : Bool} {ms : List (Quotation × Value)} {s r : List Char}
    {frames : List Frame} :
    Members first ms s r → skip (.inside first) (.object :: frames) s = skip .follow frames r
  | .nil h => skip_end h (by decide) (by decide) (by decide)
  | .cons hg hc hb hv h => by
    have hend : Frame.object.isEnd '"' = false := by decide
    obtain ⟨t', hk, e⟩ := exists_skip_entry hg (by decide) hend
    rw [e]
    show skip .key _ _ = _
    rw [skip_key_text hk hc]
    exact (skip_spells hb h.ends hv).trans (skip_members h)

end

theorem Reader.parse_skipValue {v : Value} {s s₁ r : List Char} (hb : Blanks s s₁) (hv : Spells v s₁ r)
    (hr : Ends r) : skipValue.parse s = some ((), r) := by
  show (Except.map _ (skip .value [] s)).toOption = _
  rw [skip_spells hb hr hv, skip]
  rfl

end Soql.Json
