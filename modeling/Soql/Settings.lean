import Soql.Files
import Soql.Manifest.Reader

/-!
# Settings

What a settings file decides: the type handling of objects that do not give one, whether warnings
fail a pass, and what is logged. Every entry may be left out, and so may the file in its usual place.
-/

namespace Soql

structure Settings where
  typeHandling : TypeHandling
  warningsAsErrors : Bool
  logFilter : String
deriving DecidableEq, Repr

inductive LoadFault where
  | settingsNotFound (path : String)
  | settingsNotRead (path : String) (fault : FileFault)
  | settingsInvalid (path : String) (fault : Json.Fault)
  | manifestNotRead (path : String) (fault : FileFault)
  | manifestInvalid (fault : Json.Fault)
deriving DecidableEq, Repr

def LoadFault.message : LoadFault → String
  | .settingsNotFound path => "Configuration file not found: " ++ path
  | .settingsNotRead path fault => "Failed to read " ++ path ++ ": " ++ fault.message
  | .settingsInvalid path fault => "Invalid JSON in " ++ path ++ ": " ++ fault.message
  | .manifestNotRead path fault =>
    "Failed to read manifest file '" ++ path ++ "': " ++ fault.message
  | .manifestInvalid fault => "Failed to parse manifest JSON: " ++ fault.message

namespace Settings

open Json (Reader)

def usual : Settings := ⟨.strict, false, "warn"⟩

instance : Inhabited Settings := ⟨usual⟩

def usualPath : String := ".soql_gen.json"

def compilerReader : Reader (TypeHandling × Bool) :=
  .record "CompilerConfig"
    (.defaulted "default_type_handling" TypeHandling.reader usual.typeHandling <|
      .defaulted "warnings_as_errors" .boolean usual.warningsAsErrors .nil)
    fun (typeHandling, warningsAsErrors, ()) => (typeHandling, warningsAsErrors)

def loggingReader : Reader String :=
  .record "LoggingConfig" (.defaulted "filter" .string usual.logFilter .nil)
    fun (filter, ()) => filter

def reader : Reader Settings :=
  .record "ConfigFile"
    (.defaulted "compiler" compilerReader (usual.typeHandling, usual.warningsAsErrors) <|
      .defaulted "logging" loggingReader usual.logFilter .nil)
    fun ((typeHandling, warningsAsErrors), logFilter, ()) =>
      ⟨typeHandling, warningsAsErrors, logFilter⟩

def ofText (text : String) : Except Json.Fault Settings := Json.document reader text.toList

variable {m : Type → Type} [Monad m] (files : FileAccess m)

def ofFile (path : String) : m (Except LoadFault Settings) := do
  match ← files.read path with
  | .error f => return .error (.settingsNotRead path f)
  | .ok text => return (ofText text).mapError (.settingsInvalid path)

/-- The settings of a file that has to be there, or of the one in the usual place if that is. -/
def load : Option String → m (Except LoadFault Settings)
  | some path => do
    if ← files.isPresent path then ofFile files path
    else return .error (.settingsNotFound path)
  | none => do
    if ← files.isPresent usualPath then ofFile files usualPath
    else return .ok usual

end Settings

def Manifest.load {m : Type → Type} [Monad m] (files : FileAccess m) (path : String) :
    m (Except LoadFault Manifest) := do
  match ← files.read path with
  | .error f => return .error (.manifestNotRead path f)
  | .ok text => return (Manifest.ofText text).mapError .manifestInvalid

end Soql
