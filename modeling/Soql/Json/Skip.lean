import Soql.Json.Number
import Soql.Json.Quoted

/-!
# Values that are passed over

A value that nothing asks for is checked for its grammar only. Numbers may have any size, and values
may be nested to any depth: the lists and objects that are still open are kept in a stack.
-/

namespace Soql.Json

inductive Frame where
  | list
  | object
deriving DecidableEq, Repr

/-- What has to come next. -/
inductive Due where
  /-- The end of the innermost frame, or its first entry. -/
  | opened
  /-- A value. -/
  | value
  /-- A key of the innermost frame. -/
  | key
  /-- What may follow a value: a comma or the end of the innermost frame. -/
  | follow
deriving DecidableEq, Repr

def Due.rank : Due → Nat
  | .opened => 2
  | .value => 1
  | .key => 1
  | .follow => 0

namespace Frame

def isEnd : Frame → Char → Bool
  | .list, c => c = ']'
  | .object, c => c = '\x7d'

def eof : Frame → Fault
  | .list => .eofList
  | .object => .eofObject

def expectedCommaOrEnd : Frame → Fault
  | .list => .expectedListCommaOrEnd
  | .object => .expectedObjectCommaOrEnd

/-- What a comma, or the opening of a frame that does not end at once, makes due. -/
def entry : Frame → Due
  | .list => .value
  | .object => .key

theorem rank_entry (f : Frame) : f.entry.rank = 1 := by cases f <;> rfl

end Frame

/-- Passes over what is due, with the open frames innermost first. -/
def skip (due : Due) (frames : List Frame) (s : List Char) : Except Fault (List Char) :=
  match due with
  | .opened =>
    match frames with
    | [] => .ok s
    | frame :: outer =>
      match h : trimmed s with
      | [] => .error frame.eof
      | c :: r =>
        have := h ▸ length_trimmed_le s
        if frame.isEnd c then skip .follow outer r else skip frame.entry frames (c :: r)
  | .value =>
    match h : trimmed s with
    | [] => .error .eofValue
    | c :: r =>
      have := h ▸ length_trimmed_le s
      if c = '[' then skip .opened (.list :: frames) r
      else if c = '\x7b' then skip .opened (.object :: frames) r
      else if c = '"' then
        match h' : skipString r with
        | .error e => .error e
        | .ok r' =>
          have := length_of_skipString h'
          skip .follow frames r'
      else if c = 'n' || c = 't' || c = 'f' then
        match h' : (Reader.keyword (keywordTail c)).run r with
        | .error e => .error e
        | .ok (_, r') =>
          have := (Reader.keyword (keywordTail c)).shrinks h'
          skip .follow frames r'
      else if c = '-' || isDigit c then
        match h' : (Reader.numeral .invalidNumber).run (c :: r) with
        | .error e => .error e
        | .ok (_, r') =>
          have := (Reader.numeral .invalidNumber).shrinks h'
          skip .follow frames r'
      else .error .expectedValue
  | .key =>
    match h : trimmed s with
    | [] => .error .eofObject
    | c :: r =>
      have := h ▸ length_trimmed_le s
      if c = '"' then
        match h' : skipString r with
        | .error e => .error e
        | .ok r' =>
          have := length_of_skipString h'
          match h'' : Reader.colon.run r' with
          | .error e => .error e
          | .ok (_, r'') =>
            have := Reader.colon.shrinks h''
            skip .value frames r''
      else .error .keyMustBeString
  | .follow =>
    match frames with
    | [] => .ok s
    | frame :: outer =>
      match h : trimmed s with
      | [] => .error frame.eof
      | c :: r =>
        have := h ▸ length_trimmed_le s
        if c = ',' then skip frame.entry frames r
        else if frame.isEnd c then skip .follow outer r
        else .error frame.expectedCommaOrEnd
termination_by (s.length, due.rank)
decreasing_by
  all_goals
    simp only [Prod.lex_def, List.length_cons, Frame.rank_entry] at *
    try simp only [Due.rank]
    omega

theorem length_of_skip {due : Due} {frames : List Frame} {s r : List Char}
    (h : skip due frames s = .ok r) : r.length ≤ s.length := by
  fun_induction skip due frames s <;> simp_all <;> omega

def Reader.skipValue : Reader Unit :=
  ⟨fun s => (skip .value [] s).map ((), ·), by
    intro s _ r h
    cases e : skip .value [] s with
    | error f => rw [e] at h; cases h
    | ok r' => rw [e] at h; cases h; exact length_of_skip e⟩

end Soql.Json
