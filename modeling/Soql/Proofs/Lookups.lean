import Soql.Manifest.Resolver
import Soql.Proofs.Verdicts

/-!
# Lookups of a manifest agree

Handles are places in lists: the place of a type goes by the last of its name, that of a member by
the first. Whatever is asked about one class is answered from one type (`Manifest.Speaks`), and
whatever is asked about a member that was found is answered from one member of that type
(`Manifest.Describes`), however often their names come up in the manifest. A build asks for a member
twice, to check its setter and then to take its type, so both answers are about the same member.
Main statement: `lookups_agree`.
-/

namespace Soql

section
variable {α : Type} {p : α → Bool} {l : List α} {i : Nat}

/-- `a` is the first entry of the list that passes the test, and stands at place `i`. -/
def FirstAt (p : α → Prop) (l : List α) (i : Nat) (a : α) : Prop :=
  ∃ before after, l = before ++ a :: after ∧ before.length = i ∧ p a ∧ ∀ b ∈ before, ¬ p b

/-- `a` is the last entry of the list that passes the test, and stands at place `i`. -/
def LastAt (p : α → Prop) (l : List α) (i : Nat) (a : α) : Prop :=
  ∃ before after, l = before ++ a :: after ∧ before.length = i ∧ p a ∧ ∀ b ∈ after, ¬ p b

theorem FirstAt.getElem? {p : α → Prop} {a : α} (h : FirstAt p l i a) : l[i]? = some a := by
  obtain ⟨before, after, rfl, rfl, -⟩ := h
  simp

theorem LastAt.getElem? {p : α → Prop} {a : α} (h : LastAt p l i a) : l[i]? = some a := by
  obtain ⟨before, after, rfl, rfl, -⟩ := h
  simp

theorem exists_firstAt_of_findIdx? (h : l.findIdx? p = some i) : ∃ a, FirstAt (p · = true) l i a := by
  obtain ⟨hi, ha, hb⟩ := List.findIdx?_eq_some_iff_getElem.1 h
  refine ⟨l[i], l.take i, l.drop (i + 1), by simp, by simp; omega, ha, fun b hb' => ?_⟩
  obtain ⟨j, hj, rfl⟩ := List.getElem_of_mem hb'
  rw [List.length_take] at hj
  rw [List.getElem_take]
  exact hb j (by omega)

theorem exists_lastAt_of_lastIdx? (h : lastIdx? p l = some i) : ∃ a, LastAt (p · = true) l i a := by
  obtain ⟨k, hk, rfl⟩ := Option.map_eq_some_iff.1 h
  obtain ⟨a, before, after, hl, rfl, ha, hb⟩ := exists_firstAt_of_findIdx? hk
  have hl : l = after.reverse ++ a :: before.reverse := by simpa using congrArg List.reverse hl
  refine ⟨a, after.reverse, before.reverse, hl, ?_, ha, fun b hb' => hb b (List.mem_reverse.1 hb')⟩
  rw [hl]
  simp only [List.length_append, List.length_cons, List.length_reverse]
  omega

theorem lastIdx?_eq_none_iff : lastIdx? p l = none ↔ ∀ a ∈ l, p a = false := by
  rw [lastIdx?, Option.map_eq_none_iff, List.findIdx?_eq_none_iff]
  simp only [List.mem_reverse]

end

/-! ### The fields of a built schema -/

namespace RuleTable
variable {r : Resolver Id} {objects : List ObjectDeclaration} {fields : List FieldDeclaration} {b : Built}

theorem writable_of_mem_acceptedFields {f : FieldDeclaration} (hf : f ∈ acceptedFields r objects fields) :
    Writable r f := by
  obtain ⟨j, hj, rfl⟩ := List.mem_map.1 hf
  obtain ⟨hj, hnone⟩ := List.mem_filter.1 hj
  obtain ⟨before, hv⟩ := mem_judge hj
  exact (fieldFault?_eq_none_iff.1 (hv ▸ Option.isNone_iff_eq_none.1 hnone)).1

/-- A field of a built schema has the type of a member that is found in its class and can be written. -/
theorem Obeys.exists_member (h : Obeys r objects fields b) {o : Object} (ho : o ∈ b.schema.toList)
    {f : Field} (hf : f ∈ o.fields) :
    ∃ handle, (r.resolveMember o.className f.property).run = some handle ∧
      f.type = some (r.memberType handle).run ∧ ∃ a ∈ (r.setter handle).run, a.isWritable = true := by
  obtain ⟨d, -, -, rfl⟩ := (h.mem_schema_iff o).1 ho
  obtain ⟨g, hg, rfl⟩ := List.mem_map.1 hf
  obtain ⟨hg, hd⟩ := List.mem_filter.1 hg
  have hclass : g.className = d.className := (of_decide_eq_true hd).1
  obtain ⟨handle, hh, a, ha, hw⟩ := writable_of_mem_acceptedFields hg
  have hh : (r.resolveMember g.className g.propertyName).run = some handle := hh
  refine ⟨handle, ?_, ?_, a, ha, hw⟩
  · exact (congrArg (fun c => (r.resolveMember c g.propertyName).run) hclass).symm.trans hh
  · rw [typedField, hh]
    rfl

end RuleTable

namespace Manifest
variable {m : Manifest} {className name : String} {i : Nat} {t : TypeEntry} {h : MemberHandle}
  {e : MemberEntry}

/-- What a manifest says of the type of a member. -/
def memberTypeOf (e : MemberEntry) : MemberType where
  typeName := e.typeName
  isCollection := e.isCollection
  elementType := if e.isCollection then some (e.elementType.getD "object") else none
  isValueType := e.isValueType
  isNullable := e.isNullable

theorem isSome_elementType_memberTypeOf (e : MemberEntry) :
    (memberTypeOf e).elementType.isSome = true ↔ (memberTypeOf e).isCollection = true := by
  rw [memberTypeOf]
  cases e.isCollection <;> simp

/-- A member that was found under this name is the first of that name in `t`, and everything that is
asked about it is answered from it. -/
structure Describes (m : Manifest) (t : TypeEntry) (className name : String) (h : MemberHandle)
    (e : MemberEntry) : Prop where
  first : FirstAt (·.name = name) t.members h.index e
  memberAt?_eq : m.memberAt? h = some e
  setter_eq : m.setter h = e.setter.setter?
  memberType_eq : m.memberType h = memberTypeOf e
  locate_eq : ∀ f : FieldDeclaration, f.className = className → f.propertyName = name →
    m.locate (.field f) = e.location

/-- The type at `i` is the last of this name, and everything that is asked about the class is answered
from it. -/
structure Speaks (m : Manifest) (className : String) (i : Nat) (t : TypeEntry) : Prop where
  last : LastAt (·.className = className) m.types i t
  typeIndex?_eq : m.typeIndex? className = some i
  resolveType_eq : m.resolveType className = if t.isPublic then some ⟨i⟩ else none
  hasDefaultConstructor_eq : m.hasDefaultConstructor ⟨i⟩ = t.hasDefaultConstructor
  locate_eq : ∀ o : ObjectDeclaration, o.className = className → m.locate (.object o) = t.location
  resolveMember_eq_none_iff : ∀ name,
    m.resolveMember className name = none ↔ ∀ e ∈ t.members, e.name ≠ name
  describes : ∀ name h, m.resolveMember className name = some h →
    h.owner = ⟨i⟩ ∧ ∃ e, m.Describes t className name h e

/-- No type has the name, and nothing is found under it. -/
structure Silent (m : Manifest) (className : String) : Prop where
  no_type : ∀ t ∈ m.types, t.className ≠ className
  typeIndex?_eq : m.typeIndex? className = none
  resolveType_eq : m.resolveType className = none
  locate_eq : ∀ o : ObjectDeclaration, o.className = className → m.locate (.object o) = none
  resolveMember_eq : ∀ name, m.resolveMember className name = none

/-! ### One class, one type -/

theorem silent_of_typeIndex? (h : m.typeIndex? className = none) : m.Silent className where
  no_type t ht := by simpa using lastIdx?_eq_none_iff.1 h t ht
  typeIndex?_eq := h
  resolveType_eq := by rw [resolveType, h]; rfl
  locate_eq o ho := by rw [locate, type?, ho, h]; rfl
  resolveMember_eq name := by rw [resolveMember, h]; rfl

theorem exists_lastAt_of_typeIndex? (h : m.typeIndex? className = some i) :
    ∃ t, LastAt (·.className = className) m.types i t := by
  obtain ⟨t, ht⟩ := exists_lastAt_of_lastIdx? h
  simp only [decide_eq_true_eq] at ht
  exact ⟨t, ht⟩

theorem resolveMember_eq (h : m.typeIndex? className = some i) (ht : m.types[i]? = some t) (name : String) :
    m.resolveMember className name =
      (t.members.findIdx? (·.name = name)).map fun j => ⟨⟨i⟩, j⟩ := by
  simp only [resolveMember, h, ht, Option.bind_eq_bind, Option.bind_some]
  cases t.members.findIdx? (·.name = name) <;> rfl

/-- Everything about a member comes from the place that its handle names. -/
theorem describes_of_memberAt? (hr : m.resolveMember className name = some h)
    (he : m.memberAt? h = some e) (hfirst : FirstAt (·.name = name) t.members h.index e) :
    m.Describes t className name h e where
  first := hfirst
  memberAt?_eq := he
  setter_eq := by rw [setter, he]; rfl
  memberType_eq := by rw [memberType, he]; rfl
  locate_eq f hc hn := by simp [locate, hc, hn, hr, he]

theorem speaks_of_typeIndex? (h : m.typeIndex? className = some i)
    (hlast : LastAt (·.className = className) m.types i t) : m.Speaks className i t where
  last := hlast
  typeIndex?_eq := h
  resolveType_eq := by simp [resolveType, h, hlast.getElem?]
  hasDefaultConstructor_eq := by simp [hasDefaultConstructor, typeAt?, hlast.getElem?]
  locate_eq o ho := by simp [locate, type?, ho, h, hlast.getElem?]
  resolveMember_eq_none_iff name := by
    rw [resolveMember_eq h hlast.getElem?, Option.map_eq_none_iff, List.findIdx?_eq_none_iff]
    simp only [decide_eq_false_iff_not, ne_eq]
  describes name handle hr := by
    have hr' := hr
    rw [resolveMember_eq h hlast.getElem?] at hr'
    obtain ⟨j, hj, rfl⟩ := Option.map_eq_some_iff.1 hr'
    obtain ⟨e, he⟩ := exists_firstAt_of_findIdx? hj
    simp only [decide_eq_true_eq] at he
    have hat : m.memberAt? ⟨⟨i⟩, j⟩ = some e := by simp [memberAt?, typeAt?, hlast.getElem?, he.getElem?]
    exact ⟨rfl, e, describes_of_memberAt? hr hat he⟩

theorem silent_or_speaks (m : Manifest) (className : String) :
    m.Silent className ∨ ∃ i t, m.Speaks className i t := by
  cases h : m.typeIndex? className with
  | none => exact .inl (silent_of_typeIndex? h)
  | some i =>
    obtain ⟨t, ht⟩ := exists_lastAt_of_typeIndex? h
    exact .inr ⟨i, t, speaks_of_typeIndex? h ht⟩

theorem exists_describes (hr : m.resolveMember className name = some h) :
    ∃ t e, m.Describes t className name h e := by
  rcases m.silent_or_speaks className with hs | ⟨i, t, hs⟩
  · rw [hs.resolveMember_eq] at hr
    cases hr
  · obtain ⟨-, e, he⟩ := hs.describes name h hr
    exact ⟨t, e, he⟩

/-- Whatever names come up twice in a manifest: all questions about a class are answered from the last
type of that name, all about a member that was found from the first of its name in that type. So the
fields of a schema that was built with the manifest have the type of a member that can be written, and
an element type just if that is a collection. -/
theorem lookups_agree (m : Manifest) :
    (∀ className, m.Silent className ∨ ∃ i t, m.Speaks className i t) ∧
    ∀ objects fields, ∀ o ∈ (build m.resolver objects fields).run.schema.toList, ∀ f ∈ o.fields,
      ∃ h t e type, m.resolveMember o.className f.property = some h ∧
        m.Describes t o.className f.property h e ∧
        f.type = some type ∧ type = memberTypeOf e ∧
        (type.elementType.isSome = true ↔ type.isCollection = true) ∧
        ∃ a, e.setter.setter? = some a ∧ a.isWritable = true := by
  refine ⟨m.silent_or_speaks, fun objects fields o ho f hf => ?_⟩
  obtain ⟨h, hr, htype, a, ha, hw⟩ := (RuleTable.obeys_build m.resolver objects fields).exists_member ho hf
  obtain ⟨t, e, he⟩ := exists_describes hr
  have htype : f.type = some (memberTypeOf e) := htype.trans (congrArg some he.memberType_eq)
  refine ⟨h, t, e, _, hr, he, htype, rfl, isSome_elementType_memberTypeOf e, a, ?_, hw⟩
  rw [← he.setter_eq]
  exact ha

/-- Users are described twice, and their names twice in the later description. -/
def doubledUsers : Manifest where
  types := [
    ⟨"App.User", true, false, none, [⟨"Name", "int", false, none, true, false, .private, none⟩]⟩,
    ⟨"App.User", true, true, none,
      [⟨"Tags", "List", true, none, false, false, .init, none⟩,
        ⟨"Name", "string", false, some "char", false, true, .public, none⟩,
        ⟨"Name", "int", false, none, true, false, .none, none⟩]⟩]
  objects := [⟨"User", "K", "App.User", none⟩]
  fields := [⟨"Name", "K", "Name", "App.User", none⟩, ⟨"Tags", "K", "Tags", "App.User", none⟩]

def doubledUser : Object :=
  ⟨"User", "App.User", "K", false, .strict,
    [⟨"Name", "Name", some ⟨"string", false, none, false, true⟩, .strict⟩,
      ⟨"Tags", "Tags", some ⟨"List", true, some "object", false, false⟩, .strict⟩]⟩

theorem lookups_agree_doubledUsers :
    let s := (build doubledUsers.resolver (doubledUsers.objectDeclarations .strict)
      doubledUsers.fieldDeclarations).run.schema
    s.toList = [doubledUser] ∧ doubledUsers.resolveType "App.User" = some ⟨1⟩ ∧
      (∃ i t, doubledUsers.Speaks "App.User" i t) ∧
      ∀ f ∈ doubledUser.fields, ∃ h t e, doubledUsers.resolveMember "App.User" f.property = some h ∧
        doubledUsers.Describes t "App.User" f.property h e := by
  intro s
  have hs : s.toList = [doubledUser] := by decide +kernel
  have ho : doubledUser ∈ s.toList := by rw [hs]; exact List.mem_singleton.2 rfl
  have ht : doubledUsers.resolveType "App.User" = some ⟨1⟩ := by decide +kernel
  obtain ⟨hclass, hfield⟩ := lookups_agree doubledUsers
  refine ⟨hs, ht, (hclass "App.User").resolve_left fun hn => ?_, fun f hf => ?_⟩
  · rw [hn.resolveType_eq] at ht
    cases ht
  · obtain ⟨h, t, e, -, hr, he, -⟩ := hfield _ _ doubledUser ho f hf
    exact ⟨h, t, e, hr, he⟩

end Manifest
end Soql
