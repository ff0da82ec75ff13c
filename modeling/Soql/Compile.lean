import Soql.Plan
import Soql.Projection

/-!
# Compiling a schema

Every object is a root of its own and starts with no active names, so a cycle fails only the roots
that reach it. What is known about projections is passed on from root to root.
-/

namespace Soql

/-- What became of a root: a query with its plan, or the cycle that it met. -/
inductive Verdict where
  | query (text : String) (plan : Plan)
  | failed (diagnostic : Diagnostic)
deriving DecidableEq, Repr

structure Compiled where
  className : String
  key : String
  objectName : String
  verdict : Verdict
deriving DecidableEq, Repr

namespace Compiled

def query? (c : Compiled) : Option String :=
  match c.verdict with
  | .query text _ => some text
  | .failed _ => none

def diagnostic? (c : Compiled) : Option Diagnostic :=
  match c.verdict with
  | .query .. => none
  | .failed d => some d

end Compiled

namespace Schema
variable (s : Schema)

/-- What becomes of an object as a root, absent when it has no fields. -/
def compileObject (o : Object) (m : Memo) : Option Compiled × Memo :=
  match s.query o none ⟨[], m⟩ with
  | (.ok (some text), t) => (some ⟨o.className, o.key, o.name, .query text (s.plan o)⟩, t.memo)
  | (.ok none, t) => (none, t.memo)
  | (.error c, t) => (some ⟨o.className, o.key, o.name, .failed c.diagnostic⟩, t.memo)

def compileEach : List Object → Memo → List Compiled × Memo
  | [], m => ([], m)
  | o :: os, m =>
    let (c, m) := s.compileObject o m
    let (cs, m) := compileEach os m
    (c.toList ++ cs, m)

def compileRoot (i : Ident) (m : Memo) : Option Compiled × Memo :=
  match s.get? i with
  | some o => s.compileObject o m
  | none => (none, m)

def compileAll (m : Memo) : List Compiled × Memo := s.compileEach s.toList m

end Schema
end Soql
