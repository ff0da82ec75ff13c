import Soql.Json.Fault

/-!
# Readers

A reader takes something from the front of a text and leaves the rest, or fails; the rest is never
longer than the text, which is why loops of readers end. A text is read once, from left to right,
and the first fault that is met is the answer.
-/

namespace Soql.Json

structure Reader (α : Type) where
  run : List Char → Except Fault (α × List Char)
  shrinks : ∀ {s a r}, run s = .ok (a, r) → r.length ≤ s.length

namespace Reader
variable {α β : Type}

theorem ext {x y : Reader α} (h : ∀ s, x.run s = y.run s) : x = y := by
  cases x; cases y; congr; exact funext h

def fail (f : Fault) : Reader α := ⟨fun _ => .error f, by simp⟩

instance : Monad Reader where
  pure a := ⟨fun s => .ok (a, s), by rintro s _ _ ⟨⟩; exact Nat.le_refl _⟩
  bind x f := {
    run := fun s =>
      match x.run s with
      | .error e => .error e
      | .ok (a, r) => (f a).run r
    shrinks := by
      intro s b r h
      split at h
      · cases h
      · rename_i a r' e
        exact Nat.le_trans ((f a).shrinks h) (x.shrinks e) }

@[simp] theorem run_pure (a : α) (s : List Char) : (pure a : Reader α).run s = .ok (a, s) := rfl

@[simp] theorem run_fail (f : Fault) (s : List Char) : (fail f : Reader α).run s = .error f := rfl

@[simp] theorem run_bind (x : Reader α) (f : α → Reader β) (s : List Char) :
    (x >>= f).run s =
      match x.run s with
      | .error e => .error e
      | .ok (a, r) => (f a).run r := rfl

@[simp] theorem run_map (f : α → β) (x : Reader α) (s : List Char) :
    (f <$> x).run s =
      match x.run s with
      | .error e => .error e
      | .ok (a, r) => .ok (f a, r) := rfl

/-- The next character, left in place. -/
def peek : Reader (Option Char) := ⟨fun s => .ok (s.head?, s), by rintro s _ _ ⟨⟩; exact Nat.le_refl _⟩

def next : Reader (Option Char) :=
  ⟨fun s => .ok (s.head?, s.tail), by rintro s _ _ ⟨⟩; simp⟩

@[simp] theorem run_peek (s : List Char) : peek.run s = .ok (s.head?, s) := rfl

@[simp] theorem run_next (s : List Char) : next.run s = .ok (s.head?, s.tail) := rfl

/-- Whatever is made of an answer, the rest of the text stays. -/
theorem exists_of_map_eq_ok {x : Except Fault (α × List Char)} {f : α → β} {b : β} {r : List Char}
    (h : x.map (fun (a, s) => (f a, s)) = .ok (b, r)) : ∃ a, x = .ok (a, r) := by
  cases x with
  | error e => cases h
  | ok p =>
    cases h
    exact ⟨p.1, rfl⟩

theorem length_dropWhile_le (p : α → Bool) (s : List α) : (s.dropWhile p).length ≤ s.length :=
  (List.dropWhile_sublist p).length_le

/-- The characters that stand at the front and pass a test. -/
def takeWhile (p : Char → Bool) : Reader (List Char) :=
  ⟨fun s => .ok (s.takeWhile p, s.dropWhile p), by
    rintro s _ _ ⟨⟩; exact length_dropWhile_le p s⟩

@[simp] theorem run_takeWhile (p : Char → Bool) (s : List Char) :
    (takeWhile p).run s = .ok (s.takeWhile p, s.dropWhile p) := rfl

end Reader

/-- Blanks between the tokens of a text. -/
def isSpace (c : Char) : Bool := c = ' ' || c = '\t' || c = '\n' || c = '\r'

/-- A text after the blanks at its front. -/
def trimmed (s : List Char) : List Char := s.dropWhile isSpace

theorem length_trimmed_le (s : List Char) : (trimmed s).length ≤ s.length :=
  Reader.length_dropWhile_le _ s

namespace Reader

/-- The first character after blanks, left in place. -/
def spaced : Reader (Option Char) :=
  ⟨fun s => .ok ((trimmed s).head?, trimmed s), by
    rintro s _ _ ⟨⟩; exact length_trimmed_le s⟩

@[simp] theorem run_spaced (s : List Char) : spaced.run s = .ok ((trimmed s).head?, trimmed s) := rfl

def keyword : List Char → Reader Unit
  | [] => pure ()
  | c :: cs => do
    match ← next with
    | none => fail .eofValue
    | some d => if d = c then keyword cs else fail .expectedIdent

end Reader

/-- What follows the first letter of `null`, `true` or `false`. -/
def keywordTail : Char → List Char
  | 'n' => ['u', 'l', 'l']
  | 't' => ['r', 'u', 'e']
  | 'f' => ['a', 'l', 's', 'e']
  | _ => []

namespace Reader

def colon : Reader Unit := do
  match ← spaced with
  | some ':' => discard next
  | some _ => fail .expectedColon
  | none => fail .eofObject

end Reader

def document {α : Type} (x : Reader α) (s : List Char) : Except Fault α :=
  match x.run s with
  | .error e => .error e
  | .ok (a, r) => if trimmed r = [] then .ok a else .error .trailingCharacters

end Soql.Json
