import Soql.Manifest

/-!
# The resolver of a manifest

Questions are answered from the types of the manifest. Of types with one name the last counts, of
members with one name the first.
-/

namespace Soql

/-- The place of the last entry that passes a test. -/
def lastIdx? {α : Type} (p : α → Bool) (l : List α) : Option Nat :=
  (l.reverse.findIdx? p).map fun i => l.length - 1 - i

namespace Manifest
variable (m : Manifest)

def typeIndex? (className : String) : Option Nat := lastIdx? (·.className = className) m.types

/-- The type that counts for a name. -/
def type? (className : String) : Option TypeEntry := (m.typeIndex? className).bind (m.types[·]?)

def typeAt? (t : TypeHandle) : Option TypeEntry := m.types[t.index]?

def memberAt? (h : MemberHandle) : Option MemberEntry :=
  (m.typeAt? h.owner).bind (·.members[h.index]?)

/-- Only a public type is found. -/
def resolveType (className : String) : Option TypeHandle := do
  let i ← m.typeIndex? className
  let t ← m.types[i]?
  if t.isPublic then some ⟨i⟩ else none

def resolveMember (className propertyName : String) : Option MemberHandle := do
  let i ← m.typeIndex? className
  let t ← m.types[i]?
  let j ← t.members.findIdx? (·.name = propertyName)
  some ⟨⟨i⟩, j⟩

def hasDefaultConstructor (t : TypeHandle) : Bool :=
  (m.typeAt? t).elim false (·.hasDefaultConstructor)

def setter (h : MemberHandle) : Option Setter := (m.memberAt? h).bind (·.setter.setter?)

/-- The type of a member. A collection whose elements are unknown holds objects, and so does a
member that is not there. -/
def memberType (h : MemberHandle) : MemberType :=
  match m.memberAt? h with
  | some e =>
    ⟨e.typeName, e.isCollection,
      if e.isCollection then some (e.elementType.getD "object") else none, e.isValueType,
      e.isNullable⟩
  | none => ⟨"object", false, none, false, true⟩

/-- An object stands where its type does, a field where its member does. -/
def locate : Declaration → Option Location
  | .object o => (m.type? o.className).bind (·.location)
  | .field f => do
    let e ← m.memberAt? (← m.resolveMember f.className f.propertyName)
    e.location

def resolver : Resolver Id where
  resolveType := m.resolveType
  hasDefaultConstructor := m.hasDefaultConstructor
  resolveMember := m.resolveMember
  setter := m.setter
  memberType := m.memberType
  locate := m.locate

end Manifest
end Soql
