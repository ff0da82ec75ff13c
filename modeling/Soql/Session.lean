import Soql.Compile

/-!
# Sessions

A schema together with what is known about the projections of its objects. An object that comes in
brings its own projection or none, and leaves those of the others as they are.
-/

namespace Soql

structure Session where
  schema : Schema
  memo : Memo

namespace Session

def ofSchema (s : Schema) : Session := ⟨s, ∅⟩

instance : Inhabited Session := ⟨ofSchema ∅⟩

/-- Adds an object with its projection, if that is known. -/
def insert (s : Session) (o : Object) (paths : Option (List String)) : Session where
  schema := s.schema.insert o
  memo := match paths with
    | some paths => s.memo.remember (ident o) paths
    | none => s.memo.erase (ident o)

/-- What is known about each object, in the order of their identities. -/
def projections (s : Session) : List (Ident × Option (List String)) :=
  s.schema.toList.map fun o => (ident o, s.memo.paths? (ident o))

theorem paths?_insert (s : Session) (o : Object) (paths : Option (List String)) (i : Ident) :
    (s.insert o paths).memo.paths? i = if ident o = i then paths else s.memo.paths? i := by
  cases paths
  · exact Memo.paths?_erase s.memo (ident o) i
  · exact Memo.paths?_remember s.memo (ident o) i _

end Session
end Soql
