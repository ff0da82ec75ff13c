import Soql.Json.Skip

/-!
# Values of a JSON text

Readers for the values that records are made of. Each asks for one kind of value and reports what it
finds instead: a scalar after reading it, a list or an object without looking into it.
-/

namespace Soql.Json.Reader

variable {α : Type}

/-- The next value is not of the kind that is asked for. -/
def mismatch (expected : Expected) : Reader α := do
  match ← peek with
  | some 'n' =>
    discard next
    keyword (keywordTail 'n')
    fail (.invalidType .null expected)
  | some 't' =>
    discard next
    keyword (keywordTail 't')
    fail (.invalidType (.boolean true) expected)
  | some 'f' =>
    discard next
    keyword (keywordTail 'f')
    fail (.invalidType (.boolean false) expected)
  | some '"' =>
    discard next
    fail (.invalidType (.string (← stringBody)) expected)
  | some '[' => fail (.invalidType .sequence expected)
  | some '\x7b' => fail (.invalidType .map expected)
  | some c =>
    if c = '-' || isDigit c then
      match ← number with
      | .integer n => fail (.invalidType (.integer n) expected)
      | .float negative x => fail (.invalidType (.float negative x) expected)
    else fail .expectedValue
  | none => fail .expectedValue

def string : Reader String := do
  match ← spaced with
  | none => fail .eofValue
  | some '"' =>
    discard next
    stringBody
  | some _ => mismatch .string

def boolean : Reader Bool := do
  match ← spaced with
  | none => fail .eofValue
  | some 't' =>
    discard next
    keyword (keywordTail 't')
    pure true
  | some 'f' =>
    discard next
    keyword (keywordTail 'f')
    pure false
  | some _ => mismatch .boolean

/-- A natural number below `2 ^ 32`. -/
def u32 : Reader UInt32 := do
  match ← spaced with
  | none => fail .eofValue
  | some c =>
    if c = '-' || isDigit c then
      match ← number with
      | .integer n =>
        if 0 ≤ n ∧ n < UInt32.size then pure (UInt32.ofNat n.toNat)
        else fail (.invalidValue n .u32)
      | .float negative x => fail (.invalidType (.float negative x) .u32)
    else mismatch .u32

def unit : Reader Unit := do
  match ← spaced with
  | none => fail .eofValue
  | some 'n' =>
    discard next
    keyword (keywordTail 'n')
  | some _ => mismatch .unit

def optional (x : Reader α) : Reader (Option α) := do
  if (← spaced) = some 'n' then
    discard next
    keyword (keywordTail 'n')
    pure none
  else some <$> x

/-- One of several names: as a string, or as the only key of an object, with the value `null`. -/
def choice (variants : List (String × α)) : Reader α := do
  let variant (name : String) : Reader α :=
    match variants.lookup name with
    | some a => pure a
    | none => fail (.unknownVariant name (variants.map (·.1)))
  match ← spaced with
  | none => fail .eofValue
  | some '"' =>
    discard next
    variant (← stringBody)
  | some '\x7b' =>
    discard next
    match ← spaced with
    | none => fail .eofValue
    | some '"' =>
      discard next
      let a ← variant (← stringBody)
      colon
      unit
      match ← spaced with
      | none => fail .eofObject
      | some '\x7d' =>
        discard next
        pure a
      | some _ => fail .expectedValue
    | some '\x7d' => fail .expectedValue
    | some _ => fail .keyMustBeString
  | some _ => fail .expectedValue

/-! ### Lists -/

def moreItems (item : Reader α) (s : List Char) : Except Fault (List α × List Char) :=
  match h : trimmed s with
  | [] => .error .eofList
  | c :: r =>
    have := h ▸ length_trimmed_le s
    if c = ']' then .ok ([], r)
    else if c = ',' then
      match trimmed r with
      | [] => .error .eofValue
      | ']' :: _ => .error .trailingComma
      | _ =>
        match h' : item.run r with
        | .error e => .error e
        | .ok (a, r') =>
          have := item.shrinks h'
          (moreItems item r').map fun (as, r) => (a :: as, r)
    else .error .expectedListCommaOrEnd
termination_by s.length
decreasing_by simp only [List.length_cons] at *; omega

theorem length_of_moreItems {item : Reader α} {s r : List Char} {as : List α}
    (h : moreItems item s = .ok (as, r)) : r.length ≤ s.length := by
  fun_induction moreItems item s generalizing as with
  | case6 s r _ _ _ a r' _ _ _ _ ih =>
    obtain ⟨_, e⟩ := exists_of_map_eq_ok h
    have := ih e
    simp only [List.length_cons] at *; omega
  | _ => simp_all <;> omega

/-- The entries of a list from behind its opening bracket. -/
def items (item : Reader α) : Reader (List α) := do
  match ← spaced with
  | none => fail .eofList
  | some ']' =>
    discard next
    pure []
  | some _ =>
    let a ← item
    let as ← (⟨moreItems item, length_of_moreItems⟩ : Reader (List α))
    pure (a :: as)

def list (item : Reader α) : Reader (List α) := do
  match ← spaced with
  | none => fail .eofValue
  | some '[' =>
    discard next
    items item
  | some _ => mismatch .sequence

end Soql.Json.Reader
