import Soql.Decimal.Shortest
import Soql.Document
import Soql.Text

/-!
# Documents as toon

A line-oriented form with few marks: fields in ascending order of name, deeper levels two blanks
further in, and a list of records of scalars as a table with its column names in the first line.
Texts are quoted only where they could be read as something else.
-/

namespace Soql.Document

/-- Digits, at least one, from the front of a text; absent if there is none. -/
def afterDigits? (s : List Char) : Option (List Char) :=
  if s.head?.any Text.isDigit then some (s.dropWhile Text.isDigit) else none

/-- Whether a text reads as a number: digits, perhaps with a sign, a fraction and an exponent. -/
def looksNumeric (s : List Char) : Bool :=
  let unsigned := if s.head? = some '-' then s.tail else s
  let fraction (r : List Char) := if r.head? = some '.' then afterDigits? r.tail else some r
  let exponent (r : List Char) :=
    if r.head? = some 'e' then
      afterDigits? (if r.tail.head?.any fun c => c = '+' || c = '-' then r.tail.tail else r.tail)
    else some r
  (((afterDigits? unsigned).bind fraction).bind exponent).any (·.isEmpty)

/-- Characters that have a meaning in a line. -/
def isMark (c : Char) : Bool := [':', '"', '\\', '[', ']', '\x7b', '\x7d', ',', '\n', '\r', '\t'].contains c

def needsQuotes (s : String) : Bool :=
  let cs := s.toList
  cs.isEmpty || cs.head?.any Text.isBlank || cs.getLast?.any Text.isBlank ||
    ["true", "false", "null"].contains s || looksNumeric cs || cs.any isMark ||
    ['-', ' '].isPrefixOf cs

def toonChar : Char → List Char
  | '\\' => ['\\', '\\']
  | '"' => ['\\', '"']
  | '\n' => ['\\', 'n']
  | '\r' => ['\\', 'r']
  | '\t' => ['\\', 't']
  | c => [c]

def toonString (s : String) : String :=
  if needsQuotes s then "\"" ++ String.ofList (s.toList.flatMap toonChar) ++ "\"" else s

/-- A count as the binary floating-point number that is nearest to it, with all its digits. -/
def toonCount (n : Nat) : String :=
  match Decimal.Binary64.ofNat n with
  | some x =>
    let (ds, e) := x.shortest.scientific
    String.ofList (Decimal.inPlace false ds e)
  | none => toString n

/-- The text of a document that fits one value. -/
def scalar? : Document → Option String
  | .text s => some (toonString s)
  | .count n => some (toonCount n)
  | .flag b => some (if b then "true" else "false")
  | .list _ => none
  | .record _ => none

/-- The values of a row, if they are scalars under the given names. -/
def row? (names : List String) : Document → Option String
  | .record fields =>
    if fields.map (·.1) = names then ((fields.map (·.2)).mapM scalar?).map (",".intercalate ·) else none
  | _ => none

/-- The column names and the rows of a list of records, if it is a table. -/
def table? : List Document → Option (List String × List String)
  | [] => none
  | items@(.record fields :: _) =>
    let names := fields.map (·.1)
    (items.mapM (row? names)).map (names, ·)
  | _ => none

def deeper (lines : List String) : List String := lines.map ("  " ++ ·)

/-- The lines of an item, marked by a dash. -/
def dashed : List String → List String
  | [] => ["-"]
  | line :: lines => ("- " ++ line) :: deeper lines

mutual

/-- The lines of a field; the fields of its value are taken in the order that they have. -/
def toonField (name : String) : Document → List String
  | .text s => [name ++ ": " ++ toonString s]
  | .count n => [name ++ ": " ++ toonCount n]
  | .flag b => [name ++ ": " ++ if b then "true" else "false"]
  | .record fields => (name ++ ":") :: deeper (toonFields fields)
  | .list items =>
    let opening := name ++ "[" ++ toString items.length ++ "]"
    match items.mapM scalar?, table? items with
    | some [], _ => [opening ++ ":"]
    | some values, _ => [opening ++ ": " ++ ",".intercalate values]
    | none, some (names, rows) =>
      (opening ++ "\x7b" ++ ",".intercalate names ++ "\x7d:") :: deeper rows
    | none, none => (opening ++ ":") :: deeper (toonItems items)

def toonFields : List (String × Document) → List String
  | [] => []
  | (name, d) :: fields => toonField name d ++ toonFields fields

def toonItems : List Document → List String
  | [] => []
  | .record fields :: ds => dashed (toonFields fields) ++ toonItems ds
  | .text s :: ds => ("- " ++ toonString s) :: toonItems ds
  | .count n :: ds => ("- " ++ toonCount n) :: toonItems ds
  | .flag b :: ds => ("- " ++ if b then "true" else "false") :: toonItems ds
  | .list items :: ds => ("- [" ++ toString items.length ++ "]:") :: deeper (toonItems items) ++ toonItems ds

end

/-- The lines of a document, joined without a line end at the end. -/
def toon (d : Document) : String :=
  match d.sorted with
  | .record fields => "\n".intercalate (toonFields fields)
  | d => d.scalar?.getD ("\n".intercalate (toonField "" d))

end Soql.Document
