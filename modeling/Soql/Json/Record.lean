import Soql.Json.Value

/-!
# Records of a JSON text

A record is read from an object, whose keys may come in any order and of which unknown ones are
passed over, or from a list, whose entries are the fields in the order of their declaration. A field
without a default has to be there, and none may be there twice.
-/

namespace Soql.Json

/-- The fields of a record `ρ` in the order of their declaration: name, reader, and default if any.
A `δ` holds those of them that have been read. -/
inductive Fields : (δ ρ : Type) → Type 1 where
  | nil : Fields Unit Unit
  | cons {α δ ρ : Type} (name : String) (value : Reader α) (default : Option α)
    (rest : Fields δ ρ) : Fields (Option α × δ) (α × ρ)

namespace Fields

def required {α δ ρ : Type} (name : String) (value : Reader α) (rest : Fields δ ρ) :
    Fields (Option α × δ) (α × ρ) :=
  .cons name value none rest

def defaulted {α δ ρ : Type} (name : String) (value : Reader α) (default : α)
    (rest : Fields δ ρ) : Fields (Option α × δ) (α × ρ) :=
  .cons name value (some default) rest

def size {δ ρ : Type} : Fields δ ρ → Nat
  | .nil => 0
  | .cons _ _ _ rest => rest.size + 1

def blank {δ ρ : Type} : Fields δ ρ → δ
  | .nil => ()
  | .cons _ _ _ rest => (none, rest.blank)

/-- Reads the colon and the value behind a key, if a field has that name. -/
def entry? {δ ρ : Type} (key : String) : Fields δ ρ → δ → Option (Reader δ)
  | .nil, _ => none
  | .cons name value _ rest, (slot, slots) =>
    if key = name then
      some (match slot with
        | some _ => .fail (.duplicateField name)
        | none => do
          Reader.colon
          let a ← value
          pure (some a, slots))
    else (rest.entry? key slots).map fun x => (slot, ·) <$> x

/-- The record, with defaults for what was not read, or the first field that is missing. -/
def finish {δ ρ : Type} : Fields δ ρ → δ → Except Fault ρ
  | .nil, _ => .ok ()
  | .cons name _ default rest, (slot, slots) =>
    match slot.or default with
    | some a => (rest.finish slots).map (a, ·)
    | none => .error (.missingField name)

end Fields

namespace Reader
variable {α δ ρ : Type}

/-- The entry of an object from behind the opening quote of its key. -/
def entry (fs : Fields δ ρ) (draft : δ) : Reader δ := do
  match fs.entry? (← stringBody) draft with
  | some x => x
  | none =>
    colon
    skipValue
    pure draft

def moreEntries (fs : Fields δ ρ) (draft : δ) (s : List Char) :
    Except Fault (δ × List Char) :=
  match h : trimmed s with
  | [] => .error .eofObject
  | c :: r =>
    have := h ▸ length_trimmed_le s
    if c = '\x7d' then .ok (draft, r)
    else if c = ',' then
      match h' : trimmed r with
      | [] => .error .eofValue
      | c' :: r' =>
        have := h' ▸ length_trimmed_le r
        if c' = '"' then
          match h'' : (entry fs draft).run r' with
          | .error e => .error e
          | .ok (draft, r'') =>
            have := (entry fs _).shrinks h''
            moreEntries fs draft r''
        else .error (if c' = '\x7d' then .trailingComma else .keyMustBeString)
    else .error .expectedObjectCommaOrEnd
termination_by s.length
decreasing_by simp only [List.length_cons] at *; omega

theorem length_of_moreEntries {fs : Fields δ ρ} {draft d : δ} {s r : List Char}
    (h : moreEntries fs draft s = .ok (d, r)) : r.length ≤ s.length := by
  fun_induction moreEntries fs draft s <;> simp_all <;> omega

/-- The entries of an object from behind its opening brace. -/
def entries (fs : Fields δ ρ) : Reader δ := do
  match ← spaced with
  | none => fail .eofObject
  | some '\x7d' =>
    discard next
    pure fs.blank
  | some '"' =>
    discard next
    let draft ← entry fs fs.blank
    (⟨moreEntries fs draft, length_of_moreEntries⟩ : Reader δ)
  | some _ => fail .keyMustBeString

/-- Whether another entry of a list follows, up to which it reads. -/
def another (first : Bool) : Reader Bool := do
  match ← spaced with
  | none => fail .eofList
  | some c =>
    if c = ']' then pure false
    else if first then pure true
    else if c = ',' then
      discard next
      match ← spaced with
      | none => fail .eofValue
      | some ']' => fail .trailingComma
      | some _ => pure true
    else fail .expectedListCommaOrEnd

/-- The fields of a record from the entries of a list; `index` is the place of the first of them. -/
def positional (name : String) (size : Nat) {δ ρ : Type} (first : Bool) (index : Nat) :
    Fields δ ρ → Reader ρ
  | .nil => pure ()
  | .cons _ value default rest => do
    if ← another first then
      let a ← value
      let as ← positional name size false (index + 1) rest
      pure (a, as)
    else
      match default with
      | some a => do
        let as ← positional name size first (index + 1) rest
        pure (a, as)
      | none => fail (.invalidLength index name size)

def endList : Reader Unit := do
  match ← spaced with
  | none => fail .eofList
  | some ']' => discard next
  | some ',' =>
    discard next
    fail (if (← spaced) = some ']' then .trailingComma else .trailingCharacters)
  | some _ => fail .trailingCharacters

/-- A record with the given name and fields. -/
def record (name : String) (fs : Fields δ ρ) (make : ρ → α) : Reader α := do
  match ← spaced with
  | none => fail .eofValue
  | some '[' =>
    discard next
    let fields ← positional name fs.size true 0 fs
    endList
    pure (make fields)
  | some '\x7b' =>
    discard next
    match fs.finish (← entries fs) with
    | .ok fields => pure (make fields)
    | .error f => fail f
  | some _ => mismatch (.record name)

end Reader
end Soql.Json
