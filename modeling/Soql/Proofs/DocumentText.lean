import Soql.Document.Json
import Soql.Proofs.JsonText

/-!
# The JSON text of a document

A document is a syntax tree of its own (`Document.tree`): texts are written with the pieces that the
escapes make, counts as numerals without sign, fraction and exponent, records as objects with their
members in order. The text of a document is a text of that tree, however deep it stands and whatever
follows it (`spells_jsonAt`), so it is well-formed JSON (`written_json`). What the tree says of a text
or a count is that text and that count again (`string?_quotation`, `digitsValue_toDigits`).
-/

namespace Soql.Document

open Json (CodeUnit HexDigit Piece Quotation Value hexValue simpleEscape)

/-! ### Characters -/

theorem hexValue_digitChar : ∀ n < 16, hexValue n.digitChar = some n := by decide

def hexDigit (n : Nat) (h : n < 16) : HexDigit := ⟨n.digitChar, n, hexValue_digitChar n h⟩

/-- The `\u` escape of a control character. -/
def controlUnit (c : Char) (h : c.toNat < 0x20) : CodeUnit where
  first := hexDigit 0 (by omega)
  second := hexDigit 0 (by omega)
  third := hexDigit (c.toNat / 16) (by omega)
  fourth := hexDigit (c.toNat % 16) (by omega)

/-- The letter behind the backslash of a character that has a short escape. -/
def shortLetter? : Char → Option Char
  | '"' => some '"'
  | '\\' => some '\\'
  | '\x08' => some 'b'
  | '\x0c' => some 'f'
  | '\n' => some 'n'
  | '\r' => some 'r'
  | '\t' => some 't'
  | _ => none

theorem simpleEscape_of_shortLetter? {c letter : Char} (h : shortLetter? c = some letter) :
    simpleEscape letter = some c := by
  unfold shortLetter? at h
  split at h <;> cases h <;> rfl

theorem ne_of_shortLetter? {c d : Char} (h : shortLetter? c = none) (hd : (shortLetter? d).isSome) :
    c ≠ d := by
  rintro rfl
  simp [h] at hd

/-- What a character is written with. -/
def piece (c : Char) : Piece :=
  match hc : shortLetter? c with
  | some letter => .short letter c (simpleEscape_of_shortLetter? hc)
  | none =>
    if h : c.toNat < 0x20 then .unit (controlUnit c h)
    else .plain c ⟨by omega, ne_of_shortLetter? hc rfl, ne_of_shortLetter? hc rfl⟩

theorem text_piece (c : Char) : (piece c).text = escapeChar c := by
  unfold piece
  split
  · rename_i letter h
    unfold shortLetter? at h
    split at h <;> cases h <;> rfl
  · rename_i h
    rw [escapeChar]
    split
    · rfl
    · rfl
    all_goals exact ne_of_shortLetter? h rfl

theorem value_controlUnit {c : Char} (h : c.toNat < 0x20) : (controlUnit c h).value = c.toNat := by
  simp only [CodeUnit.value, controlUnit, hexDigit]
  omega

theorem meaning?_piece (c : Char) (q : Quotation) :
    Quotation.meaning? (piece c :: q) = (Quotation.meaning? q).map (c :: ·) := by
  unfold piece
  split
  · rfl
  · split
    · rename_i h
      have ht : Json.isTrailingSurrogate c.toNat = false := by simp [Json.isTrailingSurrogate]; omega
      have hl : Json.isLeadingSurrogate c.toNat = false := by simp [Json.isLeadingSurrogate]; omega
      rw [Json.Quotation.meaning?.eq_def]
      simp only [value_controlUnit h, ht, hl, Char.ofNat_toNat]
      rfl
    · rfl

/-! ### Texts -/

def quotation (s : String) : Quotation := s.toList.map piece

theorem text_quotation (s : String) : (quotation s).text = s.toList.flatMap escapeChar := by
  rw [quotation, Quotation.text, List.flatMap_map]
  simp only [text_piece]

theorem meaning?_map_piece (cs : List Char) : Quotation.meaning? (cs.map piece) = some cs := by
  induction cs with
  | nil => rfl
  | cons c cs ih => rw [List.map_cons, meaning?_piece, ih, Option.map_some]

@[simp] theorem string?_quotation (s : String) : (quotation s).string? = some s := by
  rw [Quotation.string?, quotation, meaning?_map_piece, Option.map_some, String.ofList_toList]

theorem toList_jsonString (s : String) (r : List Char) :
    (jsonString s).toList ++ r = '"' :: ((quotation s).text ++ '"' :: r) := by
  simp [jsonString, text_quotation]

/-- The line of a field. -/
theorem toList_jsonString_append (name text : String) (r : List Char) :
    (jsonString name ++ ": " ++ text).toList ++ r =
      '"' :: ((quotation name).text ++ '"' :: ':' :: ' ' :: (text.toList ++ r)) := by
  simp [jsonString, text_quotation]

/-! ### Counts -/

theorem isDigit_of_mem_toDigits {n : Nat} {c : Char} (h : c ∈ Nat.toDigits 10 n) : Json.isDigit c = true := by
  have hc := Nat.isDigit_of_mem_toDigits (by omega) (by omega) h
  simpa [Char.isDigit, Json.isDigit, Char.le_def] using hc

theorem digitsValue_toDigits (n : Nat) : Json.digitsValue (Nat.toDigits 10 n) = n := by
  have hvalue : ∀ ds k, ds.foldl (fun n c => n * 10 + Json.digitValue c) k = Nat.ofDigitChars 10 ds k := by
    intro ds
    induction ds with
    | nil => simp
    | cons c ds ih =>
      intro k
      rw [List.foldl_cons, ih, Nat.ofDigitChars_cons, Json.digitValue, Nat.mul_comm]
  rw [Json.digitsValue, hvalue, Nat.ofDigitChars_ten_toDigits]

/-- Only the zero begins with a zero. -/
theorem exists_toDigits_eq_cons {n : Nat} (h : 0 < n) : ∃ d ds, Nat.toDigits 10 n = d :: ds ∧ d ≠ '0' := by
  induction n using Nat.strongRecOn with
  | ind n ih =>
    rw [Nat.toDigits_eq_if (by omega)]
    split
    · rename_i hlt
      refine ⟨n.digitChar, [], rfl, fun hd => ?_⟩
      have := Nat.toNat_digitChar_sub_48_of_lt_ten hlt
      rw [hd] at this
      simp at this
      omega
    · obtain ⟨d, ds, e, hd⟩ := ih (n / 10) (by omega) (by omega)
      exact ⟨d, ds ++ [(n % 10).digitChar], by rw [e, List.cons_append], hd⟩

theorem spells_toDigits (n : Nat) (r : List Char) :
    Json.Numeral.Spells ⟨false, Nat.toDigits 10 n, [], none⟩ (Nat.toDigits 10 n ++ r) r := by
  refine .mk (.absent _) ?_ (.absent _) (.absent _)
  rcases Nat.eq_zero_or_pos n with rfl | hn
  · exact .zero r
  · obtain ⟨d, ds, e, hd⟩ := exists_toDigits_eq_cons hn
    have hdigit : ∀ c ∈ d :: ds, Json.isDigit c = true := fun c hc => isDigit_of_mem_toDigits (e ▸ hc)
    rw [e]
    exact .digits (hdigit d (by simp)) hd ⟨rfl, fun c hc => hdigit c (by simp [hc])⟩

/-! ### Documents -/

mutual

def tree : Document → Value
  | .text s => .string (quotation s)
  | .count n => .number ⟨false, Nat.toDigits 10 n, [], none⟩
  | .flag b => .boolean b
  | .list items => .list (trees items)
  | .record fields => .object (members fields)

def trees : List Document → List Value
  | [] => []
  | d :: ds => d.tree :: trees ds

def members : List (String × Document) → List (Quotation × Value)
  | [] => []
  | (name, d) :: fields => (quotation name, d.tree) :: members fields

end

/-- The start of a line. -/
def lineStart (depth : Nat) : List Char := '\n' :: List.replicate (2 * depth) ' '

theorem blanks_lineStart (depth : Nat) (r : List Char) : Json.Blanks (lineStart depth ++ r) r := by
  have h : ∀ n, Json.Blanks (List.replicate n ' ' ++ r) r := by
    intro n
    induction n with
    | zero => exact .nil r
    | succ n ih => exact .cons rfl ih
  exact .cons rfl (h _)

/-- The entries behind the first one, each in a line of its own. -/
def moreLines (depth : Nat) (entries : List String) : List Char :=
  entries.flatMap fun e => ',' :: lineStart depth ++ e.toList

theorem toList_bracketed (depth : Nat) (first last e : String) (entries : List String) (r : List Char) :
    (bracketed depth first last (e :: entries)).toList ++ r =
      first.toList ++ (lineStart (depth + 1) ++ (e.toList ++
        (moreLines (depth + 1) entries ++ (lineStart depth ++ (last.toList ++ r))))) := by
  have hentries : ∀ e : String, (",\n".intercalate ((e :: entries).map (indentation (depth + 1) ++ ·))).toList =
      (indentation (depth + 1)).toList ++ e.toList ++ moreLines (depth + 1) entries := by
    induction entries with
    | nil => simp [moreLines]
    | cons e' entries ih =>
      intro e
      rw [List.map_cons, List.map_cons, String.intercalate_cons_cons, ← List.map_cons,
        String.toList_append, ih]
      simp [moreLines, lineStart, indentation]
  rw [bracketed, String.toList_append, String.toList_append, String.toList_append, String.toList_append,
    String.toList_append, hentries]
  · simp [lineStart, indentation]
  · simp

mutual

/-- The text of a document is a text of its tree, whatever follows. -/
theorem spells_jsonAt (depth : Nat) (r : List Char) : (d : Document) →
    Json.Spells d.tree ((d.jsonAt depth).toList ++ r) r
  | .text s => by
    rw [jsonAt, toList_jsonString, tree]
    exact .string _ r
  | .count n => by
    rw [jsonAt, tree, Nat.toString_eq_repr, Nat.toList_repr]
    exact .number (spells_toDigits n r)
  | .flag true => by
    rw [jsonAt, tree]
    exact .trueWord r
  | .flag false => by
    rw [jsonAt, tree]
    exact .falseWord r
  | .list [] => by
    rw [jsonAt, jsonItems, tree, trees, bracketed, String.toList_append]
    exact .list (.nil (.nil _))
  | .list (d :: ds) => by
    rw [jsonAt, jsonItems, toList_bracketed, tree, trees]
    exact .list (.cons (.opening (blanks_lineStart _ _)) (spells_jsonAt _ _ d) (items_moreLines _ _ _ ds))
  | .record [] => by
    rw [jsonAt, jsonFields, tree, members, bracketed, String.toList_append]
    exact .object (.nil (.nil _))
  | .record ((name, d) :: fields) => by
    rw [jsonAt, jsonFields, toList_bracketed, tree, members, toList_jsonString_append]
    exact .object (.cons (.opening (blanks_lineStart _ _)) (.nil _) (.cons (c := ' ') rfl (.nil _)) (spells_jsonAt _ _ d)
      (members_moreLines _ _ _ fields))

theorem items_moreLines (depth outer : Nat) (r : List Char) : (ds : List Document) →
    Json.Items false (trees ds)
      (moreLines depth (jsonItems depth ds) ++ (lineStart outer ++ ("]".toList ++ r))) r
  | [] => .nil (blanks_lineStart _ _)
  | d :: ds => by
    rw [jsonItems, trees, moreLines, List.flatMap_cons, List.append_assoc, List.append_assoc, List.cons_append]
    exact .cons (.comma (.nil _) (blanks_lineStart _ _)) (spells_jsonAt _ _ d) (items_moreLines _ _ _ ds)

theorem members_moreLines (depth outer : Nat) (r : List Char) : (fields : List (String × Document)) →
    Json.Members false (members fields)
      (moreLines depth (jsonFields depth fields) ++ (lineStart outer ++ ("\x7d".toList ++ r))) r
  | [] => .nil (blanks_lineStart _ _)
  | (name, d) :: fields => by
    rw [jsonFields, members, moreLines, List.flatMap_cons, List.append_assoc, List.append_assoc, List.cons_append,
      toList_jsonString_append]
    exact .cons (.comma (.nil _) (blanks_lineStart _ _)) (.nil _) (.cons (c := ' ') rfl (.nil _)) (spells_jsonAt _ _ d)
      (members_moreLines _ _ _ fields)

end

theorem written_json (d : Document) : d.tree.Written d.json := by
  refine ⟨_, [], .nil _, ?_, .nil _⟩
  have h := spells_jsonAt 0 [] d
  rwa [List.append_nil] at h

end Soql.Document
