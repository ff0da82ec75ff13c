/-!
# Files

What a program may ask of the file system: whether there is something at a path, and the text of a
file. The answers live in a monad. A folder is a file system that does not change: files and empty
directories by name, seen from inside the folder.
-/

namespace Soql

inductive FileFault where
  | notFound
  | isDirectory
  | notDirectory
  | notUtf8
  | other (message : String)
deriving DecidableEq, Repr

def FileFault.message : FileFault → String
  | .notFound => "No such file or directory (os error 2)"
  | .isDirectory => "Is a directory (os error 21)"
  | .notDirectory => "Not a directory (os error 20)"
  | .notUtf8 => "stream did not contain valid UTF-8"
  | .other message => message

structure FileAccess (m : Type → Type) where
  isPresent : String → m Bool
  read : String → m (Except FileFault String)

inductive Node where
  | file (content : ByteArray)
  | directory

structure Folder where
  entries : List (String × Node)

namespace Folder
variable (folder : Folder)

/-- Where a path has led so far. -/
inductive Place where
  | here
  /-- A directory of the folder. -/
  | below
  /-- A directory that holds the folder, about which nothing else is known. -/
  | above
  | file (content : ByteArray)

/-- Takes one step of a path. Only a directory can be left, and an empty step or a point stays. -/
def step (place : Place) (name : String) : Except FileFault Place :=
  match place with
  | .file _ => .error .notDirectory
  | .here =>
    if name = "" ∨ name = "." then .ok .here
    else if name = ".." then .ok .above
    else
      match folder.entries.lookup name with
      | some (.file content) => .ok (.file content)
      | some .directory => .ok .below
      | none => .error .notFound
  | .below =>
    if name = "" ∨ name = "." then .ok .below
    else if name = ".." then .ok .here
    else .error .notFound
  | .above => if name = "" ∨ name = "." ∨ name = ".." then .ok .above else .error .notFound

/-- Follows a path. The empty path leads nowhere, and an absolute one out of the folder. -/
def find (path : String) : Except FileFault Place :=
  match path.toList with
  | [] => .error .notFound
  | c :: _ => (path.splitOn "/").foldlM folder.step (if c = '/' then .above else .here)

def read (path : String) : Except FileFault String :=
  match folder.find path with
  | .ok (.file content) =>
    match String.fromUTF8? content with
    | some text => .ok text
    | none => .error .notUtf8
  | .ok _ => .error .isDirectory
  | .error f => .error f

def access : FileAccess Id where
  isPresent path := (folder.find path).isOk
  read path := folder.read path

end Folder
end Soql
