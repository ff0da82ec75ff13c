import Soql.Proofs.Recompile

/-!
# The entries of a pass

An object without fields would get no entry, and a collection of one no place in a query. A built
schema has no such object, whatever its resolver has answered, so a pass over it gives one entry per
object, in their order, and in a query each field has its own part of the list, which is not empty.
The argument about queries goes along references: a single reference adds what its target selects, so
its part is not empty because the whole list of the target is not (`plainPaths_ne_nil`). Main
statement: `entries_of_build`.
-/

namespace Soql

/-- An item that selects a field, or something behind it. -/
inductive Field.Selects (f : Field) : String → Prop
  | name : f.Selects f.name
  | behind (path : String) : f.Selects (f.name ++ "." ++ path)
  | nested {paths : List String} (h : paths ≠ []) : f.Selects ("(" ++ queryText paths f.name ++ ")")

namespace Schema

variable {s : Schema} {o : Object} {k n : Memo} {key : String} {f : Field}

section
variable (hf : ∀ p ∈ s.toList, p.fields ≠ [])
include hf

theorem selects_of_mem_plainField (ha : ∀ t, s.target? key f = some t → s.Acyclic t) :
    ∀ item ∈ s.plainField s.plainPaths key f, f.Selects item := by
  intro item hi
  cases ht : s.target? key f with
  | none =>
    rw [plainField_of_none ht] at hi
    obtain rfl := List.mem_singleton.1 hi
    exact .name
  | some t =>
    have htm := mem_of_target? ht
    cases hc : f.isCollection with
    | true =>
      rw [plainField_of_collection ht hc (hf t htm)] at hi
      obtain rfl := List.mem_singleton.1 hi
      exact .nested (plainPaths_ne_nil hf (ha t ht) htm)
    | false =>
      rw [plainField_of_reference ht hc (hf t htm)] at hi
      obtain ⟨path, -, rfl⟩ := List.mem_map.1 hi
      exact .behind path

/-- A query of a pass lists what is known about its object at the end of the pass. -/
theorem Emits.paths_of_query {c : Compiled} (h : s.Emits n k o c) (hk : s.Sound k) (ho : o ∈ s.toList)
    {text : String} (ht : c.query? = some text) :
    s.Acyclic o ∧ k.paths? (ident o) = some (s.plainPaths o) ∧ text = queryText (s.plainPaths o) o.name := by
  obtain ⟨paths, hp⟩ := Option.ne_none_iff_exists'.1 (h.known hf ho (ht ▸ Option.some_ne_none _))
  obtain ⟨ha, he⟩ := hk.known ho hp
  obtain ⟨-, rfl⟩ := plain?_eq_some_iff.1 he
  obtain ⟨m, hm, -, -, hc⟩ := h
  rw [Compiled.query?] at ht
  split at ht
  · rename_i hv
    obtain rfl := Option.some.inj ht
    exact ⟨ha, hp, (hm.sound.entry_query ho hc hv).2⟩
  · cases ht

end

theorem idents_eq_of_emits {os : List Object} {cs : List Compiled}
    (h : List.Forall₂ (s.Emits n k) os cs) :
    cs.map (fun c => (⟨c.className, c.key⟩ : Ident)) = os.map ident := by
  rw [← List.forall₂_eq_eq_eq, List.forall₂_map_left_iff, List.forall₂_map_right_iff]
  exact h.flip.imp fun _ _ he => Emits.ident_eq he

open MonadAttach in
/-- A pass over a built schema gives one entry per object, in ascending order, also when members were
lost after they had been accepted. The list of a query is made of parts, one for each field of its
object and in their order; none of them is empty, and each selects from its own field. -/
theorem entries_of_build {m : Type → Type} [Monad m] [LawfulMonad m] [MonadAttach m]
    [LawfulMonadAttach m] {r : Resolver m} {objects : List ObjectDeclaration}
    {fields : List FieldDeclaration} {b : Built} (hb : CanReturn (build r objects fields) b)
    {memo : Memo} (h : b.schema.Reached memo) :
    (b.schema.compileAll memo).1.map (fun c => (⟨c.className, c.key⟩ : Ident)) =
        b.schema.toList.map ident ∧
    (b.schema.toList.map ident).Pairwise (· < ·) ∧
    ∀ c ∈ (b.schema.compileAll memo).1, ∀ text, c.query? = some text →
      ∃ o ∈ b.schema.toList, ident o = ⟨c.className, c.key⟩ ∧
        ∃ items, (b.schema.compileAll memo).2.paths? (ident o) = some items ∧
          text = queryText items o.name ∧
          items = o.fields.flatMap (b.schema.plainField b.schema.plainPaths o.key) ∧
          ∀ f ∈ o.fields, b.schema.plainField b.schema.plainPaths o.key f ≠ [] ∧
            ∀ item ∈ b.schema.plainField b.schema.plainPaths o.key f, f.Selects item := by
  have hf : ∀ p ∈ b.schema.toList, p.fields ≠ [] := fun p hp => fields_ne_nil_of_build hb hp
  obtain ⟨hk, -, hall⟩ := h.settled.emits_all hf
  refine ⟨idents_eq_of_emits hall, List.pairwise_map.2 b.schema.sorted, fun c hc text ht => ?_⟩
  obtain ⟨o, ho, hoc⟩ := exists_left_of_forall₂ hall hc
  obtain ⟨ha, hp, rfl⟩ := hoc.paths_of_query hf hk.sound ho ht
  refine ⟨o, ho, hoc.ident_eq.symm, _, hp, rfl, plainPaths_eq ha, fun f hm => ?_⟩
  have hat : ∀ t, b.schema.target? o.key f = some t → b.schema.Acyclic t :=
    fun t ht => ha.of_refers ⟨f, hm, ht⟩
  have hne : b.schema.plainField b.schema.plainPaths o.key f ≠ [] :=
    plainField_ne_nil hf fun t ht => plainPaths_ne_nil hf (hat t ht) (mem_of_target? ht)
  exact ⟨hne, selects_of_mem_plainField hf hat⟩

/-- The owner of accounts is lost once it has been accepted. -/
def lostOwnerBuilt : Built :=
  ((build (ownedContacts.resolver.losing ["Owner"] 3) (ownedContacts.objectDeclarations .strict)
    ownedContacts.fieldDeclarations).run 0).1

theorem entries_of_build_lostOwner :
    (lostOwnerBuilt.schema.compileAll ∅).1.map (fun c => (⟨c.className, c.key⟩ : Ident)) =
        [⟨"App.Account", "K"⟩, ⟨"App.Contact", "K"⟩, ⟨"App.User", "K"⟩] ∧
      ∃ c ∈ (lostOwnerBuilt.schema.compileAll ∅).1, c.query? = some "SELECT Owner FROM Account" := by
  have hi : lostOwnerBuilt.schema.toList.map ident =
      [⟨"App.Account", "K"⟩, ⟨"App.Contact", "K"⟩, ⟨"App.User", "K"⟩] := by decide +kernel
  have hc : ∃ c ∈ (lostOwnerBuilt.schema.compileAll ∅).1, c.query? = some "SELECT Owner FROM Account" := by
    decide +kernel
  have hb : MonadAttach.CanReturn (build (ownedContacts.resolver.losing ["Owner"] 3)
      (ownedContacts.objectDeclarations .strict) ownedContacts.fieldDeclarations) lostOwnerBuilt :=
    ⟨0, _, rfl⟩
  obtain ⟨he, -⟩ := entries_of_build hb .start
  exact ⟨he.trans hi, hc⟩

end Schema
end Soql
