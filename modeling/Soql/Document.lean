/-!
# Documents

What a report is made of: texts, counts and flags, in lists and in records whose fields have names
and an order.
-/

namespace Soql

inductive Document where
  | text (s : String)
  | count (n : Nat)
  | flag (b : Bool)
  | list (items : List Document)
  | record (fields : List (String × Document))
deriving Repr, Inhabited

namespace Document

/-- A field that is left out of its record when it has no value. -/
def optional {α : Type} (name : String) (f : α → Document) : Option α → List (String × Document)
  | some a => [(name, f a)]
  | none => []

mutual

/-- The document with the fields of all records in ascending order of name. -/
def sorted : Document → Document
  | .text s => .text s
  | .count n => .count n
  | .flag b => .flag b
  | .list items => .list (sortedItems items)
  | .record fields => .record ((sortedFields fields).mergeSort fun a b => decide (a.1 ≤ b.1))

def sortedItems : List Document → List Document
  | [] => []
  | d :: ds => d.sorted :: sortedItems ds

def sortedFields : List (String × Document) → List (String × Document)
  | [] => []
  | (name, d) :: fields => (name, d.sorted) :: sortedFields fields

end

end Document
end Soql
