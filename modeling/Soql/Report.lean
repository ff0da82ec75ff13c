import Soql.Compile
import Soql.Schema.Build

/-!
# Reports

What is said about a manifest: after a check, how much of it was accepted and what was not; after a
compilation, what became of each root as well. A pass that reports errors has failed.
-/

namespace Soql

structure CheckReport where
  manifest : String
  objects : Nat
  fields : Nat
  summary : Summary
  diagnostics : List Diagnostic
deriving DecidableEq, Repr

structure CompileReport where
  manifest : String
  /-- Counts over the diagnostics of the manifest and the roots that failed. -/
  summary : Summary
  diagnostics : List Diagnostic
  compiled : List Compiled
deriving DecidableEq, Repr

/-- Which roots are asked for: those of a class, of a key, of both, or all. -/
structure Selection where
  className : Option String
  key : Option String
deriving DecidableEq, Repr

def Selection.includes (s : Selection) (i : Ident) : Bool :=
  s.className.all (· = i.className) && s.key.all (· = i.key)

/-- The roots that are asked for, in the order of their identities. -/
def Selection.roots (selection : Selection) (s : Schema) : List Object :=
  s.toList.filter fun o => selection.includes (ident o)

theorem Selection.mem_roots {selection : Selection} {s : Schema} {o : Object} :
    o ∈ selection.roots s ↔ o ∈ s.toList ∧ selection.includes (ident o) = true := List.mem_filter

/-- Without a class or a key all roots are asked for. -/
theorem Selection.roots_all (s : Schema) : roots ⟨none, none⟩ s = s.toList :=
  List.filter_eq_self.2 fun _ _ => rfl

namespace Built

def check (b : Built) (manifest : String) : CheckReport :=
  ⟨manifest, b.schema.size, b.schema.fieldCount, .ofList b.diagnostics, b.diagnostics⟩

/-- Compiles the selected roots, one after another. -/
def compile (b : Built) (manifest : String) (selection : Selection) : CompileReport :=
  let compiled := (b.schema.compileEach (selection.roots b.schema) ∅).1
  ⟨manifest, .ofList (b.diagnostics ++ compiled.filterMap (·.diagnostic?)), b.diagnostics, compiled⟩

section
variable (b : Built) (manifest : String) (selection : Selection)

theorem compiled_compile : (b.compile manifest selection).compiled =
    (b.schema.compileEach (selection.roots b.schema) ∅).1 := rfl

theorem compiled_compile_all :
    (b.compile manifest ⟨none, none⟩).compiled = (b.schema.compileAll ∅).1 := by
  rw [compiled_compile, Selection.roots_all, Schema.compileAll]

theorem summary_compile : (b.compile manifest selection).summary =
    .ofList (b.diagnostics ++ (b.compile manifest selection).compiled.filterMap (·.diagnostic?)) := rfl

end

end Built
end Soql
