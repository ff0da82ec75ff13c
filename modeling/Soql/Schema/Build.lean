import Soql.Diagnostic
import Soql.Schema

/-!
# Building a schema

Each declaration is accepted or reported on its own, and no report stops the pass. Objects come
first, in the order of their declarations; then fields, in theirs; then the accepted objects, in the
order of their identities, which take their accepted fields or are dropped for having none. The
resolver is asked in exactly that order.
-/

namespace Soql

/-- A schema, and what was reported while it was built. -/
structure Built where
  schema : Schema
  diagnostics : List Diagnostic
deriving Inhabited

namespace Build
variable {m : Type → Type} [Monad m] (r : Resolver m)

/-- Whether the class of an object is found and can be constructed without arguments. -/
def isConstructible (className : String) : m Bool := do
  match ← r.resolveType className with
  | some t => r.hasDefaultConstructor t
  | none => pure false

/-- What speaks against an object, next to those accepted before it. -/
def objectFault (accepted : Index ObjectDeclaration) (o : ObjectDeclaration) :
    m (Option ObjectFault) := do
  if ← isConstructible r o.className then
    pure (if accepted.contains (ident o) then some .duplicate else none)
  else
    pure (some .noConstructor)

/-- The accepted objects, and a report for each of the others. -/
def acceptObjects (accepted : Index ObjectDeclaration) :
    List ObjectDeclaration → m (Index ObjectDeclaration × List Diagnostic)
  | [] => pure (accepted, [])
  | o :: os => do
    match ← objectFault r accepted o with
    | none => acceptObjects (accepted.insert o) os
    | some fault =>
      let location ← r.locate (.object o)
      let (all, reports) ← acceptObjects accepted os
      pure (all, .ofObject fault o.objectName (ident o) location :: reports)

/-- Whether the member behind a field is found and can be written. -/
def isWritable (f : FieldDeclaration) : m Bool := do
  match ← r.resolveMember f.className f.propertyName with
  | some h => return (← r.setter h).elim false (·.isWritable)
  | none => pure false

/-- Two fields of one object say the same thing. -/
def clash (f g : FieldDeclaration) : Bool :=
  ident f = ident g && f.propertyName = g.propertyName && f.fieldName = g.fieldName

/-- What speaks against a field, next to the accepted objects and the fields accepted before it. -/
def fieldFault (accepted : Index ObjectDeclaration) (before : List FieldDeclaration)
    (f : FieldDeclaration) : m (Option FieldFault) := do
  if ← isWritable r f then
    pure (
      if !accepted.toList.any (·.className = f.className) then some .noObject
      else if !accepted.contains (ident f) then some .unknownKey
      else if before.any (clash f) then some .duplicate
      else none)
  else
    pure (some .notWritable)

/-- The accepted fields, and a report for each of the others. -/
def acceptFields (accepted : Index ObjectDeclaration) (before : List FieldDeclaration) :
    List FieldDeclaration → m (List FieldDeclaration × List Diagnostic)
  | [] => pure ([], [])
  | f :: fs => do
    match ← fieldFault r accepted before f with
    | none =>
      let (kept, reports) ← acceptFields accepted (f :: before) fs
      pure (f :: kept, reports)
    | some fault =>
      let location ← r.locate (.field f)
      let (kept, reports) ← acceptFields accepted before fs
      pure (kept, .ofField fault f location :: reports)

/-- An accepted field with its type, asked for once more, and its own or its owner's handling. -/
def resolveField (owner : ObjectDeclaration) (f : FieldDeclaration) : m Field := do
  let type ← match ← r.resolveMember f.className f.propertyName with
    | some h => some <$> r.memberType h
    | none => pure none
  pure ⟨f.fieldName, f.propertyName, type, f.typeHandling.getD owner.typeHandling⟩

/-- The objects that have fields, and a report for each of the others. -/
def assemble (fields : List FieldDeclaration) :
    List ObjectDeclaration → m (List Object × List Diagnostic)
  | [] => pure ([], [])
  | o :: os => do
    match fields.filter (ident · = ident o) with
    | [] =>
      let location ← r.locate (.object o)
      let (objects, reports) ← assemble fields os
      pure (objects, .ofObject .noFields o.objectName (ident o) location :: reports)
    | own =>
      let resolved ← own.mapM (resolveField r o)
      let (objects, reports) ← assemble fields os
      pure (.ofDeclaration o resolved :: objects, reports)

end Build

/-- Checks declarations against a program and puts the accepted ones together. -/
def build {m : Type → Type} [Monad m] (r : Resolver m) (objects : List ObjectDeclaration)
    (fields : List FieldDeclaration) : m Built := do
  let (accepted, objectReports) ← Build.acceptObjects r ∅ objects
  let (kept, fieldReports) ← Build.acceptFields r accepted [] fields
  let (assembled, dropped) ← Build.assemble r kept accepted.toList
  pure ⟨.ofList assembled, objectReports ++ fieldReports ++ dropped⟩

end Soql
