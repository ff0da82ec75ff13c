import Soql.Manifest.Resolver
import Soql.Proofs.Answers
import Soql.Proofs.MemoSound
import Soql.Proofs.QueryGrammar

/-!
# When a query is a text of the grammar

A collection adds a whole sub-query to its owner's items, and a single reference puts its name and a
point before every item of its target. Both together put a point before a parenthesis. So a query is
a text of the grammar just when, from its root on, no single reference leads to an object with a
sub-query of its own (`Schema.FlatReferences`, `derives_plainPaths_iff`).
-/

namespace Soql

theorem infix_append_left {p s : String} (h : p.toList <:+: s.toList) (t : String) :
    p.toList <:+: (s ++ t).toList := by
  rw [String.toList_append]
  exact h.trans (List.prefix_append ..).isInfix

theorem infix_append_right {p t : String} (s : String) (h : p.toList <:+: t.toList) :
    p.toList <:+: (s ++ t).toList := by
  rw [String.toList_append]
  exact h.trans (List.suffix_append ..).isInfix

theorem infix_intercalate {sep p : String} {items : List String} (h : p ∈ items) :
    p.toList <:+: (sep.intercalate items).toList := by
  induction items with
  | nil => cases h
  | cons i items ih =>
    by_cases he : items = []
    · subst he
      have e : sep.intercalate [i] = p := by rw [String.intercalate_singleton, List.mem_singleton.1 h]
      exact e.symm ▸ List.infix_rfl
    · rw [String.intercalate_cons_of_ne_nil he]
      rcases List.mem_cons.1 h with rfl | h
      · exact infix_append_left (infix_append_left List.infix_rfl _) _
      · exact infix_append_right _ (ih h)

theorem infix_queryText {p : String} {items : List String} (h : p ∈ items) (n : String) :
    p.toList <:+: (queryText items n).toList :=
  infix_append_left (infix_append_left (infix_append_right _ (infix_intercalate h)) _) _

namespace Schema

variable {s : Schema} {o t x : Object} {f : Field} {key : String} {letter : Char → Prop}

/-- No field of `o` adds a sub-query. -/
def NoSubqueries (s : Schema) (o : Object) : Prop :=
  ∀ f ∈ o.fields, f.isCollection = true → s.target? o.key f = none

/-- From `o` on, single references lead to objects without sub-queries. -/
def FlatReferences (s : Schema) (o : Object) : Prop :=
  ∀ x, s.Reaches o x → ∀ f ∈ x.fields, f.isCollection = false →
    ∀ t, s.target? x.key f = some t → s.NoSubqueries t

/-- The names in a schema are words over the characters of `letter`. -/
def NamedBy (s : Schema) (letter : Char → Prop) : Prop :=
  ∀ o ∈ s.toList, IsName letter o.name ∧ ∀ f ∈ o.fields, IsName letter f.name

instance (letter : Char → Prop) [DecidablePred letter] (s : Schema) : Decidable (s.NamedBy letter) :=
  inferInstanceAs (Decidable (∀ o ∈ s.toList, _ ∧ ∀ f ∈ o.fields, _))

theorem FlatReferences.of_refers (h : s.FlatReferences o) (ht : s.Refers o t) : s.FlatReferences t :=
  fun x hx => h x (.head ht hx)

theorem mem_plainPaths (ha : s.Acyclic o) {p : String} :
    p ∈ s.plainPaths o ↔ ∃ f ∈ o.fields, p ∈ s.plainField s.plainPaths o.key f := by
  rw [plainPaths_eq ha, List.mem_flatMap]

theorem plainField_of_reference (ht : s.target? key f = some t) (hc : f.isCollection = false)
    (hf : t.fields ≠ []) :
    s.plainField s.plainPaths key f = (s.plainPaths t).map (f.name ++ "." ++ ·) := by
  simp [plainField_eq_expand ht, plain?, hf, Field.expand, hc]

theorem plainField_of_collection (ht : s.target? key f = some t) (hc : f.isCollection = true)
    (hf : t.fields ≠ []) :
    s.plainField s.plainPaths key f = ["(" ++ queryText (s.plainPaths t) f.name ++ ")"] := by
  simp [plainField_eq_expand ht, plain?, hf, Field.expand, hc]

section
variable (hf : ∀ p ∈ s.toList, p.fields ≠ [])
include hf

theorem plainField_ne_nil (h : ∀ t, s.target? key f = some t → s.plainPaths t ≠ []) :
    s.plainField s.plainPaths key f ≠ [] := by
  cases ht : s.target? key f with
  | none => simp [plainField_of_none ht]
  | some t =>
    have htm := mem_of_target? ht
    cases hc : f.isCollection with
    | true => simp [plainField_of_collection ht hc (hf t htm)]
    | false => simpa [plainField_of_reference ht hc (hf t htm)] using h t ht

theorem plainPaths_ne_nil (ha : s.Acyclic o) (ho : o ∈ s.toList) : s.plainPaths o ≠ [] := by
  induction ha using Acyclic.induction with
  | step o ha ih =>
    obtain ⟨f, fs, e⟩ := List.exists_cons_of_ne_nil (hf o ho)
    have hm : f ∈ o.fields := e ▸ List.mem_cons_self ..
    have hp : s.plainField s.plainPaths o.key f ≠ [] :=
      plainField_ne_nil hf fun t ht => ih t ⟨f, hm, ht⟩ (mem_of_target? ht)
    rw [plainPaths_eq ha, e, List.flatMap_cons]
    exact List.append_ne_nil_of_left_ne_nil hp _

/-! ### Flat references suffice -/

theorem derives_path_of_mem (hn : s.NamedBy letter) (ha : s.Acyclic o) (ho : o ∈ s.toList)
    (hr : s.FlatReferences o) (hs : s.NoSubqueries o) :
    ∀ p ∈ s.plainPaths o, Derives letter .path p := by
  induction ha using Acyclic.induction with
  | step o ha ih =>
    intro p hp
    obtain ⟨f, hm, hp⟩ := (mem_plainPaths ha).1 hp
    have hfn := (hn o ho).2 f hm
    cases ht : s.target? o.key f with
    | none =>
      rw [plainField_of_none ht] at hp
      obtain rfl := List.mem_singleton.1 hp
      exact .name hfn
    | some t =>
      have htm := mem_of_target? ht
      cases hc : f.isCollection with
      | true => exact absurd (hs f hm hc) (by simp [ht])
      | false =>
        rw [plainField_of_reference ht hc (hf t htm)] at hp
        obtain ⟨q, hq, rfl⟩ := List.mem_map.1 hp
        have href : s.Refers o t := ⟨f, hm, ht⟩
        exact .dot hfn (ih t href htm (hr.of_refers href) (hr o .refl f hm hc t ht) q hq)

theorem derives_item_of_mem (hn : s.NamedBy letter) (ha : s.Acyclic o) (ho : o ∈ s.toList)
    (hr : s.FlatReferences o) : ∀ p ∈ s.plainPaths o, Derives letter .item p := by
  induction ha using Acyclic.induction with
  | step o ha ih =>
    intro p hp
    obtain ⟨f, hm, hp⟩ := (mem_plainPaths ha).1 hp
    have hfn := (hn o ho).2 f hm
    cases ht : s.target? o.key f with
    | none =>
      rw [plainField_of_none ht] at hp
      obtain rfl := List.mem_singleton.1 hp
      exact .path (.name hfn)
    | some t =>
      have htm := mem_of_target? ht
      have href : s.Refers o t := ⟨f, hm, ht⟩
      have hat := ha.of_refers href
      cases hc : f.isCollection with
      | true =>
        rw [plainField_of_collection ht hc (hf t htm)] at hp
        obtain rfl := List.mem_singleton.1 hp
        have hi := ih t href htm (hr.of_refers href)
        exact .nested (derives_queryText (plainPaths_ne_nil hf hat htm) hi hfn)
      | false =>
        rw [plainField_of_reference ht hc (hf t htm)] at hp
        obtain ⟨q, hq, rfl⟩ := List.mem_map.1 hp
        have hs := hr o .refl f hm hc t ht
        exact .path (.dot hfn (derives_path_of_mem hf hn hat htm (hr.of_refers href) hs q hq))

/-! ### Flat references are needed -/

/-- What is selected from an object is part of what is selected from those that reach it. -/
theorem exists_infix_of_reaches (ha : s.Acyclic o) (h : s.Reaches o x) {p : String}
    (hp : p ∈ s.plainPaths x) : ∃ q ∈ s.plainPaths o, p.toList <:+: q.toList := by
  induction h using Relation.ReflTransGen.head_induction_on with
  | refl => exact ⟨p, hp, List.infix_rfl⟩
  | @head o t href _ ih =>
    obtain ⟨q, hq, hpq⟩ := ih (ha.of_refers href)
    obtain ⟨f, hm, ht⟩ := href
    have htf := hf t (mem_of_target? ht)
    cases hc : f.isCollection with
    | true =>
      refine ⟨"(" ++ queryText (s.plainPaths t) f.name ++ ")", ?_, ?_⟩
      · rw [mem_plainPaths ha]
        exact ⟨f, hm, by simp [plainField_of_collection ht hc htf]⟩
      · exact infix_append_left (infix_append_right _ (hpq.trans (infix_queryText hq _))) _
    | false =>
      refine ⟨f.name ++ "." ++ q, ?_, ?_⟩
      · rw [mem_plainPaths ha]
        refine ⟨f, hm, ?_⟩
        rw [plainField_of_reference ht hc htf]
        exact List.mem_map.2 ⟨q, hq, rfl⟩
      · exact infix_append_right _ hpq

theorem exists_joined_of_not_flat (ha : s.Acyclic o) (h : ¬ s.FlatReferences o) :
    ∃ q ∈ s.plainPaths o, ['.', '('] <:+: q.toList := by
  simp only [FlatReferences, NoSubqueries, not_forall] at h
  -- `f` of `x` leads to `t`, whose collection `g` leads to `v`
  obtain ⟨x, hx, f, hm, hc, t, ht, g, hg, hgc, hgt⟩ := h
  obtain ⟨v, hv⟩ := Option.ne_none_iff_exists'.1 hgt
  have hax := ha.of_reaches hx
  have hat := hax.of_refers ⟨f, hm, ht⟩
  have hq : "(" ++ queryText (s.plainPaths v) g.name ++ ")" ∈ s.plainPaths t := by
    rw [mem_plainPaths hat]
    exact ⟨g, hg, by simp [plainField_of_collection hv hgc (hf v (mem_of_target? hv))]⟩
  have hp : f.name ++ "." ++ ("(" ++ queryText (s.plainPaths v) g.name ++ ")") ∈ s.plainPaths x := by
    rw [mem_plainPaths hax]
    refine ⟨f, hm, ?_⟩
    rw [plainField_of_reference ht hc (hf t (mem_of_target? ht))]
    exact List.mem_map.2 ⟨_, hq, rfl⟩
  obtain ⟨q, hq, hpq⟩ := exists_infix_of_reaches hf ha hx hp
  have hj : ['.', '('] <:+: (f.name ++ "." ++ ("(" ++ queryText (s.plainPaths v) g.name ++ ")")).toList :=
    ⟨f.name.toList, (queryText (s.plainPaths v) g.name ++ ")").toList, by simp⟩
  exact ⟨q, hq, hj.trans hpq⟩

theorem derives_plainPaths_iff (hn : s.NamedBy letter) (hpoint : ¬ letter '.') (hparen : ¬ letter '(')
    (ha : s.Acyclic o) (ho : o ∈ s.toList) :
    Derives letter .query (queryText (s.plainPaths o) o.name) ↔ s.FlatReferences o := by
  constructor
  · intro h
    by_contra hr
    obtain ⟨q, hq, hj⟩ := exists_joined_of_not_flat hf ha hr
    exact Unjoined.not_of_infix (hj.trans (infix_queryText hq _)) (h.unjoined hpoint hparen)
  · intro hr
    exact derives_queryText (plainPaths_ne_nil hf ha ho) (derives_item_of_mem hf hn ha ho hr) (hn o ho).1

end

theorem exists_of_mem_compileAll {c : Compiled} (hc : c ∈ (s.compileAll ∅).1) {text : String}
    (ht : c.query? = some text) :
    ∃ o ∈ s.toList, s.get? ⟨c.className, c.key⟩ = some o ∧ s.Acyclic o ∧
      text = queryText (s.plainPaths o) o.name := by
  obtain ⟨o, ho, m, hm, hc⟩ := sound_empty.of_mem_compileEach (fun _ ho => ho) hc
  rw [Compiled.query?] at ht
  split at ht
  · rename_i hv
    cases ht
    obtain ⟨ha, e⟩ := hm.entry_query ho hc hv
    exact ⟨o, ho, ident_of_entry hc ▸ Index.get?_of_mem ho, ha, e⟩
  · cases ht

open MonadAttach in
/-- Over names without points and parentheses, a query of a built schema is a text of the grammar
just when, from its root on, no single reference leads to an object with a sub-query of its own. -/
theorem derives_query_of_build {m : Type → Type} [Monad m] [LawfulMonad m] [MonadAttach m]
    [LawfulMonadAttach m] {r : Resolver m} {objects : List ObjectDeclaration}
    {fields : List FieldDeclaration} {b : Built} (hb : CanReturn (build r objects fields) b)
    (hn : b.schema.NamedBy letter) (hpoint : ¬ letter '.') (hparen : ¬ letter '(') {c : Compiled}
    (hc : c ∈ (b.schema.compileAll ∅).1) {text : String} (ht : c.query? = some text) :
    ∃ o, b.schema.get? ⟨c.className, c.key⟩ = some o ∧
      (Derives letter .query text ↔ b.schema.FlatReferences o) := by
  obtain ⟨o, ho, hg, ha, rfl⟩ := exists_of_mem_compileAll hc ht
  have hf : ∀ p ∈ b.schema.toList, p.fields ≠ [] := fun p hp => fields_ne_nil_of_build hb hp
  exact ⟨o, hg, derives_plainPaths_iff hf hn hpoint hparen ha ho⟩

/-- Accounts have an owner, and owners have contacts. -/
def ownedContacts : Manifest where
  types := [
    ⟨"App.Account", true, true, none, [⟨"Owner", "App.User", false, none, false, false, .public, none⟩]⟩,
    ⟨"App.User", true, true, none,
      [⟨"Contacts", "List", true, some "App.Contact", false, false, .public, none⟩]⟩,
    ⟨"App.Contact", true, true, none, [⟨"LastName", "string", false, none, false, false, .public, none⟩]⟩]
  objects := [⟨"Account", "K", "App.Account", none⟩, ⟨"User", "K", "App.User", none⟩,
    ⟨"Contact", "K", "App.Contact", none⟩]
  fields := [⟨"Owner", "K", "Owner", "App.Account", none⟩, ⟨"Contacts", "K", "Contacts", "App.User", none⟩,
    ⟨"LastName", "K", "LastName", "App.Contact", none⟩]

def ownedContactsBuilt : Built :=
  (build ownedContacts.resolver (ownedContacts.objectDeclarations .strict)
    ownedContacts.fieldDeclarations).run

def ownedObject (name : String) : Object :=
  ⟨name, "App.Account", "K", false, .strict, [referenceField "Owner" "App.User"]⟩

theorem derives_query_of_build_ownedContacts :
    ownedContactsBuilt.schema.NamedBy IsWordChar ∧
      Derives IsWordChar .query "SELECT (SELECT LastName FROM Contacts) FROM User" ∧
      ∃ o, ownedContactsBuilt.schema.get? ⟨"App.User", "K"⟩ = some o ∧
        ownedContactsBuilt.schema.FlatReferences o := by
  have hn : ownedContactsBuilt.schema.NamedBy IsWordChar := by decide +kernel
  have hc : ∃ c ∈ (ownedContactsBuilt.schema.compileAll ∅).1, c.className = "App.User" ∧ c.key = "K" ∧
      c.query? = some "SELECT (SELECT LastName FROM Contacts) FROM User" := by decide +kernel
  have hd : Derives IsWordChar .query "SELECT (SELECT LastName FROM Contacts) FROM User" := by
    have hi : Derives IsWordChar .item "LastName" := .path (.name (by decide))
    have hq : Derives IsWordChar .query "SELECT LastName FROM Contacts" :=
      .query (.last hi) (n := "Contacts") (by decide)
    exact .query (.last (.nested hq)) (n := "User") (by decide)
  obtain ⟨c, hc, hclass, hkey, ht⟩ := hc
  obtain ⟨o, ho, h⟩ := derives_query_of_build (r := ownedContacts.resolver) rfl hn (by decide) (by decide) hc ht
  rw [hclass, hkey] at ho
  exact ⟨hn, hd, o, ho, h.1 hd⟩

/-- All names are words, and still the query on accounts is no text of the grammar. -/
theorem not_derives_ownedContacts :
    ownedContactsBuilt.schema.NamedBy IsWordChar ∧
      ∃ c ∈ (ownedContactsBuilt.schema.compileAll ∅).1,
        c.query? = some "SELECT Owner.(SELECT LastName FROM Contacts) FROM Account" ∧
          ¬ Derives IsWordChar .query "SELECT Owner.(SELECT LastName FROM Contacts) FROM Account" := by
  have hn : ownedContactsBuilt.schema.NamedBy IsWordChar := by decide +kernel
  have hc : ∃ c ∈ (ownedContactsBuilt.schema.compileAll ∅).1,
      c.query? = some "SELECT Owner.(SELECT LastName FROM Contacts) FROM Account" := by decide +kernel
  obtain ⟨c, hc, ht⟩ := hc
  refine ⟨hn, c, hc, ht, fun h => ?_⟩
  exact absurd (h.unjoined (by decide) (by decide)) (by decide +kernel)

end Schema
end Soql
