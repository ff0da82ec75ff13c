import Soql.Run

/-!
# The program

Reads files, runs the command line and prints.
-/

namespace Soql

/-- The fault behind an error of the file system. -/
def FileFault.ofError : IO.Error → FileFault
  | .noFileOrDirectory .. => .notFound
  | .inappropriateType _ code _ => if code = 21 then .isDirectory else .notDirectory
  | e => .other (toString e)

def readFile (path : String) : IO (Except FileFault String) := do
  try
    match String.fromUTF8? (← IO.FS.readBinFile path) with
    | some text => return .ok text
    | none => return .error .notUtf8
  catch e => return .error (.ofError e)

/-- Whether something is found at a path; what may not be opened is there all the same. -/
def isPresent (path : String) : IO Bool := do
  try
    discard <| IO.FS.Handle.mk path .read
    return true
  catch e =>
    match FileFault.ofError e with
    | .notFound => return false
    | .notDirectory => return false
    | _ => return true

def fileSystem : FileAccess IO := ⟨isPresent, readFile⟩

def usage : String :=
  "usage: soql_gen [--config PATH] [-f FORMAT] check -m MANIFEST\n" ++
    "       soql_gen [--config PATH] [-f FORMAT] compile -m MANIFEST [-c CLASS] [-k KEY]\n" ++
    "formats: table, json, toon"

end Soql

open Soql in
def main (args : List String) : IO UInt32 := do
  match ← run fileSystem args with
  | .ok output =>
    IO.println output.text
    return if output.failed then 1 else 0
  | .error (.usage .version) =>
    IO.println "soql_gen 0.1.0"
    return 0
  | .error (.usage f) =>
    if f.exitCode = 0 then IO.println usage else IO.eprintln usage
    return UInt32.ofNat f.exitCode
  | .error (.load f) =>
    IO.eprintln ("Error: " ++ f.message)
    return 1
