import Soql.Json.Reader

/-!
# Strings of a JSON text

A string that is kept is read with its escapes, where surrogates have to come in pairs. A string
that is passed over only has to end.
-/

namespace Soql.Json

def hexValue (c : Char) : Option Nat :=
  if '0' ≤ c ∧ c ≤ '9' then some (c.toNat - '0'.toNat)
  else if 'a' ≤ c ∧ c ≤ 'f' then some (c.toNat - 'a'.toNat + 10)
  else if 'A' ≤ c ∧ c ≤ 'F' then some (c.toNat - 'A'.toNat + 10)
  else none

/-- How many bytes a text takes in UTF-8. -/
def byteLength (s : List Char) : Nat := (String.ofList s).utf8ByteSize

/-- The code of a `\u` escape, four hexadecimal digits. Fewer than four bytes before the end of the
text count as its end. -/
def readHex4 (s : List Char) : Except Fault (Nat × List Char) :=
  match s with
  | a :: b :: c :: d :: r =>
    match hexValue a, hexValue b, hexValue c, hexValue d with
    | some a, some b, some c, some d => .ok (((a * 16 + b) * 16 + c) * 16 + d, r)
    | _, _, _, _ => .error .invalidEscape
  | s => if byteLength s < 4 then .error .eofString else .error .invalidEscape

def isLeadingSurrogate (n : Nat) : Bool := decide (0xD800 ≤ n) && decide (n ≤ 0xDBFF)

def isTrailingSurrogate (n : Nat) : Bool := decide (0xDC00 ≤ n) && decide (n ≤ 0xDFFF)

def surrogatePair (lead trail : Nat) : Char :=
  Char.ofNat ((lead - 0xD800) * 0x400 + (trail - 0xDC00) + 0x10000)

/-- The character of a `\u` escape, or of two of them that make a pair. -/
def readUnicode (s : List Char) : Except Fault (Char × List Char) := do
  let (n, r) ← readHex4 s
  if isTrailingSurrogate n then throw .loneSurrogate
  if !isLeadingSurrogate n then return (Char.ofNat n, r)
  match r with
  | [] | ['\\'] => throw .eofString
  | '\\' :: 'u' :: r =>
    let (n', r) ← readHex4 r
    if isTrailingSurrogate n' then return (surrogatePair n n', r) else throw .loneSurrogate
  | _ => throw .unexpectedEndOfHexEscape

/-- The character that follows a backslash to stand for another, or for itself. -/
def simpleEscape : Char → Option Char
  | '"' => some '"'
  | '\\' => some '\\'
  | '/' => some '/'
  | 'b' => some '\x08'
  | 'f' => some '\x0c'
  | 'n' => some '\n'
  | 'r' => some '\r'
  | 't' => some '\t'
  | _ => none

def readEscape : List Char → Except Fault (Char × List Char)
  | [] => .error .eofString
  | 'u' :: r => readUnicode r
  | c :: r =>
    match simpleEscape c with
    | some d => .ok (d, r)
    | none => .error .invalidEscape

/-- Passes over what a backslash begins; surrogates need not pair up. -/
def skipEscape : List Char → Except Fault (List Char)
  | [] => .error .eofString
  | 'u' :: r => (readHex4 r).map (·.2)
  | c :: r =>
    match simpleEscape c with
    | some _ => .ok r
    | none => .error .invalidEscape

theorem length_of_readHex4 {s r : List Char} {n : Nat} (h : readHex4 s = .ok (n, r)) :
    r.length ≤ s.length := by
  unfold readHex4 at h
  split at h
  · split at h
    · cases h; simp only [List.length_cons]; omega
    · cases h
  · split at h <;> cases h

theorem length_of_readUnicode {s r : List Char} {c : Char} (h : readUnicode s = .ok (c, r)) :
    r.length ≤ s.length := by
  unfold readUnicode at h
  cases e : readHex4 s with
  | error f => rw [e] at h; cases h
  | ok p =>
    obtain ⟨n, t⟩ := p
    have ht := length_of_readHex4 e
    simp only [e, bind, Except.bind, pure, Except.pure, throw, throwThe, MonadExceptOf.throw] at h
    split at h
    · cases h
    · split at h
      · simp only [Except.ok.injEq, Prod.mk.injEq] at h; exact h.2 ▸ ht
      · split at h
        · cases h
        · cases h
        · rename_i u
          cases e' : readHex4 u with
          | error f => rw [e'] at h; cases h
          | ok p =>
            obtain ⟨n', t'⟩ := p
            have ht' := length_of_readHex4 e'
            simp only [e'] at h
            split at h
            · simp only [Except.ok.injEq, Prod.mk.injEq] at h
              rw [← h.2]; simp only [List.length_cons] at ht; omega
            · cases h
        · cases h

theorem length_of_readEscape {s r : List Char} {c : Char} (h : readEscape s = .ok (c, r)) :
    r.length ≤ s.length := by
  unfold readEscape at h
  split at h
  · cases h
  · have := length_of_readUnicode h; simp only [List.length_cons]; omega
  · split at h
    · cases h; simp
    · cases h

theorem length_of_skipEscape {s r : List Char} (h : skipEscape s = .ok r) : r.length ≤ s.length := by
  unfold skipEscape at h
  split at h
  · cases h
  · rename_i t
    cases e : readHex4 t with
    | error f => rw [e] at h; cases h
    | ok p =>
      rw [e] at h; cases h
      have := length_of_readHex4 (n := p.1) (r := p.2) e
      simp only [List.length_cons]; omega
  · split at h
    · cases h; simp
    · cases h

/-- The characters up to the closing quote. -/
def readString (s : List Char) : Except Fault (List Char × List Char) :=
  match s with
  | [] => .error .eofString
  | '"' :: r => .ok ([], r)
  | '\\' :: r =>
    match h : readEscape r with
    | .error e => .error e
    | .ok (c, r') =>
      have := length_of_readEscape h
      (readString r').map fun (cs, r) => (c :: cs, r)
  | c :: r =>
    if c.toNat < 0x20 then .error .controlCharacter
    else (readString r).map fun (cs, r) => (c :: cs, r)
termination_by s.length

def skipString (s : List Char) : Except Fault (List Char) :=
  match s with
  | [] => .error .eofString
  | '"' :: r => .ok r
  | '\\' :: r =>
    match h : skipEscape r with
    | .error e => .error e
    | .ok r' =>
      have := length_of_skipEscape h
      skipString r'
  | c :: r => if c.toNat < 0x20 then .error .controlCharacter else skipString r
termination_by s.length

theorem length_of_readString {s r cs : List Char} (h : readString s = .ok (cs, r)) :
    r.length ≤ s.length := by
  fun_induction readString s generalizing cs with
  | case4 s c r' _ _ ih =>
    obtain ⟨_, e⟩ := Reader.exists_of_map_eq_ok h
    have := ih e
    simp only [List.length_cons]; omega
  | case6 c s _ _ _ ih =>
    obtain ⟨_, e⟩ := Reader.exists_of_map_eq_ok h
    have := ih e
    simp only [List.length_cons]; omega
  | _ => simp_all

theorem length_of_skipString {s r : List Char} (h : skipString s = .ok r) : r.length ≤ s.length := by
  fun_induction skipString s with
  | case1 => cases h
  | case2 => cases h; simp
  | case3 => cases h
  | case4 s r' e _ ih => have := ih h; simp only [List.length_cons]; omega
  | case5 => cases h
  | case6 c s _ _ _ ih => have := ih h; simp only [List.length_cons]; omega

namespace Reader

/-- A string that is kept, from behind its opening quote. -/
def stringBody : Reader String :=
  ⟨fun s => (readString s).map fun (cs, r) => (String.ofList cs, r), by
    intro s a r h
    cases e : readString s with
    | error f => rw [e] at h; cases h
    | ok p => rw [e] at h; cases h; exact length_of_readString e⟩

end Reader
end Soql.Json
