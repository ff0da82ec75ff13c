import Soql.Document

/-!
# Documents as JSON

Every entry of a list or record has a line of its own, two blanks deeper than the line that opens
it. Quotes, backslashes and control characters are escaped and nothing else is.
-/

namespace Soql.Document

def escapeChar (c : Char) : List Char :=
  match c with
  | '"' => ['\\', '"']
  | '\\' => ['\\', '\\']
  | '\x08' => ['\\', 'b']
  | '\x0c' => ['\\', 'f']
  | '\n' => ['\\', 'n']
  | '\r' => ['\\', 'r']
  | '\t' => ['\\', 't']
  | c =>
    if c.toNat < 0x20 then
      ['\\', 'u', '0', '0', Nat.digitChar (c.toNat / 16), Nat.digitChar (c.toNat % 16)]
    else [c]

def jsonString (s : String) : String :=
  "\"" ++ String.ofList (s.toList.flatMap escapeChar) ++ "\""

def indentation (depth : Nat) : String := String.ofList (List.replicate (2 * depth) ' ')

/-- The entries of a list or a record between its brackets. -/
def bracketed (depth : Nat) (first last : String) : List String → String
  | [] => first ++ last
  | entries =>
    first ++ "\n" ++ ",\n".intercalate (entries.map (indentation (depth + 1) ++ ·)) ++ "\n" ++
      indentation depth ++ last

mutual

/-- The JSON text of a document that stands `depth` levels deep. -/
def jsonAt (depth : Nat) : Document → String
  | .text s => jsonString s
  | .count n => toString n
  | .flag b => if b then "true" else "false"
  | .list items => bracketed depth "[" "]" (jsonItems (depth + 1) items)
  | .record fields => bracketed depth "\x7b" "\x7d" (jsonFields (depth + 1) fields)

def jsonItems (depth : Nat) : List Document → List String
  | [] => []
  | d :: ds => d.jsonAt depth :: jsonItems depth ds

def jsonFields (depth : Nat) : List (String × Document) → List String
  | [] => []
  | (name, d) :: fields => (jsonString name ++ ": " ++ d.jsonAt depth) :: jsonFields depth fields

end

def json (d : Document) : String := d.jsonAt 0

end Soql.Document
