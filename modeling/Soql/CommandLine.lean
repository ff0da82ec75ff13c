import Soql.Files
import Soql.Report.Document

/-!
# Command lines

A command line names a command, `check` or `compile`, and gives options before and after it. Where
an option is known on both sides, the value after the command wins. An option that is still waiting
for its value, or whose value has only been collected, is settled when the next option begins or its
side of the line ends; before that, nothing is said about the value.
-/

namespace Soql

/-- Why a command line is not carried out. Help and version are asked for, the others are mistakes. -/
inductive UsageFault where
  | help
  | version
  | nothingGiven
  | missingCommand
  | missingArgument
  | unknownCommand
  | unknownArgument
  | invalidValue
  | rejectedValue
  | repeatedArgument
  | surplusValue
deriving DecidableEq, Repr

def UsageFault.exitCode : UsageFault → Nat
  | .help => 0
  | .version => 0
  | _ => 2

inductive Command where
  | check (manifest : String)
  | compile (manifest : String) (selection : Selection)
deriving DecidableEq, Repr

structure Invocation where
  settings : Option String
  format : Format
  command : Command
deriving DecidableEq, Repr

namespace CommandLine

inductive Param where
  | config
  | format
  | manifest
  | className
  | key
deriving DecidableEq, Repr

/-- The two sides of a command line: before the command, and after one of the commands. -/
inductive Side where
  | before
  | check
  | compile
deriving DecidableEq, Repr

def Side.ofCommand? : String → Option Side
  | "check" => some .check
  | "compile" => some .compile
  | _ => none

def Param.ofLong? : String → Option Param
  | "config" => some .config
  | "format" => some .format
  | "manifest" => some .manifest
  | "class" => some .className
  | "key" => some .key
  | _ => none

def Param.ofShort? : Char → Option Param
  | 'f' => some .format
  | 'm' => some .manifest
  | 'c' => some .className
  | 'k' => some .key
  | _ => none

def Side.takes : Side → Param → Bool
  | _, .config => true
  | _, .format => true
  | .before, _ => false
  | _, .manifest => true
  | .check, _ => false
  | .compile, _ => true

structure Given where
  config : Option String
  format : Option Format
  manifest : Option String
  className : Option String
  key : Option String

/-- The values given so far, and the last option with its value if that has come. -/
structure Progress where
  given : Given
  pending : Option (Param × Option String)

def Progress.start : Progress := ⟨⟨none, none, none, none, none⟩, none⟩

def Progress.waiting? (p : Progress) : Option Param :=
  match p.pending with
  | some (param, none) => some param
  | _ => none

def Given.has (g : Given) : Param → Bool
  | .config => g.config.isSome
  | .format => g.format.isSome
  | .manifest => g.manifest.isSome
  | .className => g.className.isSome
  | .key => g.key.isSome

def Given.isEmpty (g : Given) : Bool :=
  [Param.config, .format, .manifest, .className, .key].all (!g.has ·)

inductive Shape where
  /-- `--`, after which nothing is an option. -/
  | dashes
  /-- `--name` or `--name=value`. -/
  | long (name : String) (value : Option String)
  /-- `-x`, with what is attached to it. -/
  | short (name : Char) (attached : List Char)
  | plain
deriving DecidableEq, Repr

def Shape.of (arg : String) : Shape :=
  match arg.toList with
  | ['-', '-'] => .dashes
  | '-' :: '-' :: cs =>
    let value := cs.dropWhile (· ≠ '=')
    .long (String.ofList (cs.takeWhile (· ≠ '=')))
      (if value.isEmpty then none else some (String.ofList value.tail))
  | '-' :: c :: cs => .short c cs
  | _ => .plain

/-- The value that is attached to a short option, with or without an equals sign. -/
def attachedValue? : List Char → Option String
  | [] => none
  | '=' :: cs => some (String.ofList cs)
  | cs => some (String.ofList cs)

variable {m : Type → Type} [Monad m] (files : FileAccess m)

/-- Takes the value of an option, which may be given once. -/
def store (given : Given) (param : Param) (value : String) : ExceptT UsageFault m Given := do
  if given.has param then throw .repeatedArgument
  match param with
  | .config =>
    if value.isEmpty then throw .invalidValue
    return { given with config := some value }
  | .format =>
    match Format.ofName? value with
    | some format => return { given with format := some format }
    | none => throw .invalidValue
  | .manifest =>
    if ← files.isPresent value then return { given with manifest := some value }
    else throw .rejectedValue
  | .className => return { given with className := some value }
  | .key => return { given with key := some value }

/-- Takes the value of the last option. -/
def settle (p : Progress) : ExceptT UsageFault m Given :=
  match p.pending with
  | none => pure p.given
  | some (_, none) => throw .invalidValue
  | some (param, some value) => store files p.given param value

/-- Begins an option, whose value may be attached to it. -/
def begin (p : Progress) (param : Param) (value : Option String) :
    ExceptT UsageFault m Progress := do
  let given ← settle files p
  match value with
  | some value => return ⟨← store files given param value, none⟩
  | none => return ⟨given, some (param, none)⟩

/-- What is wrong with an argument that is neither option nor value. -/
def unexpected : Side → UsageFault
  | .before => .unknownCommand
  | _ => .unknownArgument

/-- What is wrong with the argument after the dashes; a command has no business there. -/
def afterDashes (side : Side) (arg : String) : UsageFault :=
  if arg = "help" ∨ (Side.ofCommand? arg).isSome then .unknownArgument else unexpected side

/-- What `help` and the names after it ask for. -/
def helpOn : List String → UsageFault
  | [] => .help
  | [name] => if name = "help" ∨ (Side.ofCommand? name).isSome then .help else .unknownCommand
  | _ => .unknownCommand

/-- Reads one side of the line, up to the command if one comes. -/
def scan (side : Side) (p : Progress) :
    List String → ExceptT UsageFault m (Progress × Option (Side × List String))
  | [] => pure (p, none)
  | arg :: args => do
    if side = .before ∧ p.waiting?.isNone then
      if let some command := Side.ofCommand? arg then return (p, some (command, args))
      if arg = "help" then throw (helpOn args)
    match Shape.of arg with
    | .dashes =>
      match args with
      | [] => pure (p, none)
      | next :: _ => throw (afterDashes side next)
    | .long name value =>
      match (Param.ofLong? name).filter side.takes with
      | some param => scan side (← begin files p param value) args
      | none =>
        if name = "help" ∨ name = "version" ∧ side = .before then
          if value.isSome then throw .surplusValue
          discard <| settle files p
          throw (if name = "help" then .help else .version)
        else throw .unknownArgument
    | .short name attached =>
      match (Param.ofShort? name).filter side.takes with
      | some param => scan side (← begin files p param (attachedValue? attached)) args
      | none =>
        if name = 'h' ∨ name = 'V' ∧ side = .before then
          discard <| settle files p
          throw (if name = 'h' then .help else .version)
        else throw .unknownArgument
    | .plain =>
      match p.waiting? with
      | some param => scan side { p with pending := some (param, some arg) } args
      | none => throw (unexpected side)

def command (side : Side) (manifest : String) (given : Given) : Command :=
  match side with
  | .compile => .compile manifest ⟨given.className, given.key⟩
  | _ => .check manifest

def parse (args : List String) : ExceptT UsageFault m Invocation := do
  match ← scan files .before .start args with
  | (p, none) =>
    let given ← settle files p
    throw (if given.isEmpty then .nothingGiven else .missingCommand)
  | (p, some (side, args)) =>
    let (q, _) ← scan files side .start args
    let after ← settle files q
    match after.manifest with
    | none => throw .missingArgument
    | some manifest =>
      let before ← settle files p
      return ⟨after.config <|> before.config, (after.format <|> before.format).getD .table,
        command side manifest after⟩

end CommandLine
end Soql
