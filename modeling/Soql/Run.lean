import Soql.CommandLine
import Soql.Manifest.Resolver
import Soql.Settings

/-!
# Running a command

A command line is read, then the settings, then the manifest; the first of them that fails is the
answer.
-/

namespace Soql

inductive RunFault where
  | usage (fault : UsageFault)
  | load (fault : LoadFault)
deriving DecidableEq, Repr

/-- The text to print, and whether the pass has failed. -/
structure Output where
  text : String
  failed : Bool
deriving DecidableEq, Repr

def Manifest.build (m : Manifest) (handling : TypeHandling) : Built :=
  Id.run (Soql.build m.resolver (m.objectDeclarations handling) m.fieldDeclarations)

def CheckReport.output (r : CheckReport) (format : Format) (warningsAsErrors : Bool) : Output :=
  ⟨r.write format, r.summary.isFailure warningsAsErrors⟩

def CompileReport.output (r : CompileReport) (format : Format) (warningsAsErrors : Bool) : Output :=
  ⟨r.write format, r.summary.isFailure warningsAsErrors⟩

variable {m : Type → Type} [Monad m] (files : FileAccess m)

def Command.run (settings : Settings) (format : Format) : Command → m (Except LoadFault Output)
  | .check path => do
    return (← Manifest.load files path).map fun manifest =>
      ((manifest.build settings.typeHandling).check path).output format settings.warningsAsErrors
  | .compile path selection => do
    return (← Manifest.load files path).map fun manifest =>
      ((manifest.build settings.typeHandling).compile path selection).output format
        settings.warningsAsErrors

def run (args : List String) : m (Except RunFault Output) := do
  match ← (CommandLine.parse files args).run with
  | .error f => return .error (.usage f)
  | .ok invocation =>
    match ← Settings.load files invocation.settings with
    | .error f => return .error (.load f)
    | .ok settings =>
      return (← invocation.command.run files settings invocation.format).mapError .load

end Soql
