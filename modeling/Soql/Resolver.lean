import Soql.Declaration

/-!
# Resolvers

Everything about the program behind the declarations (does a class exist, may a member be written,
what is its type) is asked of a resolver. Its answers live in a monad: a resolver over `Id` always
gives the same answer to the same question, one over a state may change its mind between questions.
-/

namespace Soql

/-- A type that a resolver has found. -/
structure TypeHandle where
  index : Nat
deriving DecidableEq, Repr

/-- A member that a resolver has found in a type. -/
structure MemberHandle where
  owner : TypeHandle
  index : Nat
deriving DecidableEq, Repr

inductive Accessibility where
  | «public»
  | internal
  | protectedInternal
  | «protected»
  | «private»
deriving DecidableEq, Repr

structure Setter where
  accessibility : Accessibility
  /-- It may be called during construction only. -/
  initOnly : Bool
deriving DecidableEq, Repr

/-- A reader of records can assign through the setter. -/
def Setter.isWritable (s : Setter) : Bool :=
  s.initOnly || !(s.accessibility = .private || s.accessibility = .protected)

structure MemberType where
  typeName : String
  isCollection : Bool
  elementType : Option String
  isValueType : Bool
  isNullable : Bool
deriving DecidableEq, Repr

structure Resolver (m : Type → Type) where
  /-- A public type, by its full name. -/
  resolveType : String → m (Option TypeHandle)
  hasDefaultConstructor : TypeHandle → m Bool
  /-- A member, by the full name of its type and its own name. -/
  resolveMember : String → String → m (Option MemberHandle)
  /-- The write accessor of a member, if it has one. -/
  setter : MemberHandle → m (Option Setter)
  memberType : MemberHandle → m MemberType
  /-- Where a declaration stands, for reports about it. -/
  locate : Declaration → m (Option Location)

namespace Resolver

/-- The same answers, in a monad that could change them. -/
def lift {m : Type → Type} [Monad m] (r : Resolver Id) : Resolver m where
  resolveType c := pure (r.resolveType c)
  hasDefaultConstructor t := pure (r.hasDefaultConstructor t)
  resolveMember c p := pure (r.resolveMember c p)
  setter h := pure (r.setter h)
  memberType h := pure (r.memberType h)
  locate d := pure (r.locate d)

/-- Answers like `r` and counts the questions about setters. -/
def counting (r : Resolver Id) : Resolver (StateM Nat) :=
  { r.lift with
    setter := fun h => do
      modify (· + 1)
      pure (r.setter h) }

/-- Counts the questions about setters; once `after` of them have been asked, the members whose names
are in `lost` are no longer found. -/
def losingAll (r : Resolver Id) (lost : String → Bool) (after : Nat) : Resolver (StateM Nat) :=
  { r.counting with
    resolveMember := fun c p => do
      if after ≤ (← get) && lost p then pure none else pure (r.resolveMember c p) }

/-- Loses the members of a list of names. -/
def losing (r : Resolver Id) (lost : List String) (after : Nat) : Resolver (StateM Nat) :=
  r.losingAll lost.contains after

end Resolver
end Soql
