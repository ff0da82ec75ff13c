import Mathlib.Data.List.TakeWhile
import Mathlib.Data.Option.Basic
import Soql.Projection.Equations
import Soql.Proofs.DeclarationOrder
import Soql.Proofs.QueryShape
import Soql.Proofs.Roots
import Soql.Run

/-!
# Metadata decides nothing

How values are converted, whether they may be absent, where things stand and how a writable setter is
declared: all this goes along with what a build and a compilation work on, and they never look at it.
What they do look at is left when it is taken away (`Resolver.bare`, `Object.bare`). A build comes to
the same when everything is bare from the start as when its result is made bare in the end
(`run_build_bare`), and the queries of a schema are those of the bare schema (`compileEach_bare`). The
one place where a varied text decides something is the class a field refers to, and there the question
marks are cut off (`bareTypeName_of_marked`). Main statement: `compile_of_alike`.
-/

namespace Soql

/-! ### Question marks -/

/-- The text is `core` with question marks at its ends, or without. -/
def Marked (core : List Char) (s : String) : Prop :=
  ∃ m n, s.toList = List.replicate m '?' ++ core ++ List.replicate n '?'

theorem bareTypeName_of_marked {core : List Char} {s : String} (h : Marked core s) :
    bareTypeName s = bareTypeName (String.ofList core) := by
  obtain ⟨m, n, hs⟩ := h
  have hall : ∀ k, ∀ c ∈ List.replicate k '?', decide (c = '?') = true := fun k c hc => by
    simp [List.eq_of_mem_replicate hc]
  have hend : (List.replicate n '?').dropWhile (· = '?') = [] := List.dropWhile_eq_nil_iff.2 (hall n)
  unfold bareTypeName
  rw [hs, List.append_assoc, List.dropWhile_append_of_pos (hall m), String.toList_ofList,
    List.dropWhile_append]
  split
  · rename_i hcore
    rw [hend, List.isEmpty_iff.1 hcore]
  · rw [List.reverse_append, List.reverse_replicate, List.dropWhile_append_of_pos (hall n)]

theorem takeWhile_eq_replicate (l : List Char) : ∃ n, l.takeWhile (· = '?') = List.replicate n '?' :=
  ⟨_, List.eq_replicate_of_mem fun c hc => by simpa using List.mem_takeWhile_imp hc⟩

theorem marked_bareTypeName (s : String) : Marked (bareTypeName s).toList s := by
  let rest := s.toList.dropWhile (· = '?')
  obtain ⟨m, hm⟩ := takeWhile_eq_replicate s.toList
  obtain ⟨n, hn⟩ := takeWhile_eq_replicate rest.reverse
  refine ⟨m, n, ?_⟩
  have hrest : rest = (bareTypeName s).toList ++ List.replicate n '?' :=
    calc rest
        = (rest.reverse.takeWhile (· = '?') ++ rest.reverse.dropWhile (· = '?')).reverse := by
          rw [List.takeWhile_append_dropWhile, List.reverse_reverse]
      _ = (rest.reverse.dropWhile (· = '?')).reverse ++ List.replicate n '?' := by
          rw [List.reverse_append, hn, List.reverse_replicate]
      _ = (bareTypeName s).toList ++ List.replicate n '?' := by
          rw [bareTypeName, String.toList_ofList]
  calc s.toList
      = s.toList.takeWhile (· = '?') ++ rest := List.takeWhile_append_dropWhile.symm
    _ = List.replicate m '?' ++ (bareTypeName s).toList ++ List.replicate n '?' := by
        rw [hm, hrest, List.append_assoc]

theorem bareTypeName_bareTypeName (s : String) : bareTypeName (bareTypeName s) = bareTypeName s := by
  have h := bareTypeName_of_marked (marked_bareTypeName s)
  rw [String.ofList_toList] at h
  exact h.symm

/-! ### What is left without metadata -/

/-- The class that a member of this type refers to. -/
def MemberType.target (t : MemberType) : String :=
  bareTypeName ((if t.isCollection then t.elementType else none).getD t.typeName)

def MemberType.bare (t : MemberType) : MemberType := ⟨t.target, t.isCollection, none, false, false⟩

def Field.bare (f : Field) : Field := { f with type := f.type.map (·.bare), typeHandling := .strict }

def Object.bare (o : Object) : Object :=
  { o with typeHandling := .strict, fields := o.fields.map (·.bare) }

def ObjectDeclaration.bare (o : ObjectDeclaration) : ObjectDeclaration := { o with typeHandling := .strict }

def Diagnostic.bare (d : Diagnostic) : Diagnostic := { d with location := none }

def Setter.bare? (a : Option Setter) : Option Setter :=
  if a.elim false (·.isWritable) then some ⟨.public, false⟩ else none

/-- Answers like `r`, but of a setter says only whether it is writable, of a type only whether it is a
collection and what it refers to, and of places nothing. -/
def Resolver.bare (r : Resolver Id) : Resolver Id :=
  { r with
    setter := fun h => Setter.bare? (r.setter h)
    memberType := fun h => MemberType.bare (r.memberType h)
    locate := fun _ => none }

def FieldPlan.bare (f : FieldPlan) : FieldPlan :=
  { f with
    typeName := "", elementType := none, isValueType := false, isNullable := false,
    typeHandling := .strict }

def Plan.bare (p : Plan) : Plan :=
  { p with typeHandling := .strict, fields := p.fields.map (·.bare) }

def Verdict.bare : Verdict → Verdict
  | .query text plan => .query text plan.bare
  | .failed d => .failed d

def Compiled.bare (c : Compiled) : Compiled := { c with verdict := c.verdict.bare }

theorem Field.isCollection_bare (f : Field) : f.bare.isCollection = f.isCollection := by
  cases h : f.type <;> simp [Field.bare, Field.isCollection, MemberType.bare, h]

theorem Field.targetClass_bare (f : Field) : f.bare.targetClass = f.targetClass := by
  have h : ∀ t, f.type = some t → f.targetClass = t.target := by
    intro t ht
    simp [Field.targetClass, Field.elementType, Field.typeName, MemberType.target, ht]
  cases ht : f.type with
  | none => simp [Field.bare, Field.targetClass, Field.elementType, Field.typeName, ht]
  | some t =>
    have hb : f.bare.targetClass = bareTypeName t.target := by
      simp [Field.bare, Field.targetClass, Field.elementType, Field.typeName, MemberType.bare, ht]
    rw [hb, h t ht, MemberType.target, bareTypeName_bareTypeName]

theorem Field.expand_bare (f : Field) (paths : Option (List String)) :
    f.bare.expand paths = f.expand paths := by
  cases paths <;> simp only [Field.expand, Field.isCollection_bare] <;> rfl

theorem Setter.elim_bare? (a : Option Setter) :
    (Setter.bare? a).elim false (·.isWritable) = a.elim false (·.isWritable) := by
  unfold Setter.bare?
  cases h : a.elim false (·.isWritable) <;> rfl

theorem ObjectDeclaration.ident_bare (o : ObjectDeclaration) : ident o.bare = ident o := rfl

theorem Object.ident_bare (o : Object) : ident o.bare = ident o := rfl

/-! ### Building -/

namespace Build
variable {r : Resolver Id} {accepted : Index ObjectDeclaration}

theorem run_objectFault_bare (o : ObjectDeclaration) :
    (objectFault r.bare (accepted.map (·.bare) ObjectDeclaration.ident_bare) o.bare).run =
      (objectFault r accepted o).run := by
  unfold objectFault
  rw [Id.run_bind, Id.run_bind, o.ident_bare, Index.contains_map]
  rfl

theorem run_acceptObjects_bare (os : List ObjectDeclaration) :
    (acceptObjects r.bare (accepted.map (·.bare) ObjectDeclaration.ident_bare) (os.map (·.bare))).run =
      ((acceptObjects r accepted os).run.1.map (·.bare) ObjectDeclaration.ident_bare,
        (acceptObjects r accepted os).run.2.map (·.bare)) := by
  induction os generalizing accepted with
  | nil => rfl
  | cons o os ih =>
    rw [List.map_cons]
    unfold acceptObjects
    rw [Id.run_bind, Id.run_bind, run_objectFault_bare]
    cases (objectFault r accepted o).run with
    | none =>
      show (acceptObjects r.bare ((accepted.map _ _).insert o.bare) _).run = _
      rw [Index.insert_map, ih]
    | some fault =>
      show ((acceptObjects r.bare _ _).run.1, _ :: (acceptObjects r.bare _ _).run.2) = _
      rw [ih]
      rfl

theorem run_isWritable_bare (f : FieldDeclaration) :
    (isWritable r.bare f.plain).run = (isWritable r f).run := by
  have hm : r.bare.resolveMember f.plain.className f.plain.propertyName =
      r.resolveMember f.className f.propertyName := rfl
  unfold isWritable
  rw [Id.run_bind, Id.run_bind, hm]
  cases (r.resolveMember f.className f.propertyName).run with
  | none => rfl
  | some h => exact Setter.elim_bare? (r.setter h).run

theorem run_fieldFault_bare (before : List FieldDeclaration) (f : FieldDeclaration) :
    (fieldFault r.bare (accepted.map (·.bare) ObjectDeclaration.ident_bare) (before.map (·.plain)) f.plain).run =
      (fieldFault r accepted before f).run := by
  have hclash : (before.map (·.plain)).any (clash f.plain) = before.any (clash f) := by
    rw [List.any_map]
    rfl
  have hclass : (accepted.map (·.bare) ObjectDeclaration.ident_bare).toList.any
      (·.className = f.plain.className) = accepted.toList.any (·.className = f.className) := by
    rw [Index.toList_map, List.any_map]
    rfl
  have hident : ident f.plain = ident f := rfl
  unfold fieldFault
  rw [Id.run_bind, Id.run_bind, run_isWritable_bare, hclash, hclass, hident, Index.contains_map]

theorem run_acceptFields_bare (before fs : List FieldDeclaration) :
    (acceptFields r.bare (accepted.map (·.bare) ObjectDeclaration.ident_bare) (before.map (·.plain))
        (fs.map (·.plain))).run =
      ((acceptFields r accepted before fs).run.1.map (·.plain),
        (acceptFields r accepted before fs).run.2.map (·.bare)) := by
  induction fs generalizing before with
  | nil => rfl
  | cons f fs ih =>
    rw [List.map_cons]
    unfold acceptFields
    rw [Id.run_bind, Id.run_bind, run_fieldFault_bare]
    cases (fieldFault r accepted before f).run with
    | none =>
      show (f.plain :: (acceptFields r.bare _ ((f :: before).map (·.plain)) _).run.1,
        (acceptFields r.bare _ ((f :: before).map (·.plain)) _).run.2) = _
      rw [ih]
      rfl
    | some fault =>
      show ((acceptFields r.bare _ _ _).run.1, _ :: (acceptFields r.bare _ _ _).run.2) = _
      rw [ih]
      rfl

theorem run_resolveField_bare (o : ObjectDeclaration) (f : FieldDeclaration) :
    (resolveField r.bare o.bare f.plain).run = (resolveField r o f).run.bare := by
  rw [RuleTable.run_resolveField, RuleTable.run_resolveField]
  unfold RuleTable.typedField Field.bare
  rw [Option.map_map]
  rfl

theorem run_mapM_resolveField_bare (o : ObjectDeclaration) (fs : List FieldDeclaration) :
    ((fs.map (·.plain)).mapM (resolveField r.bare o.bare)).run =
      (fs.mapM (resolveField r o)).run.map (·.bare) := by
  induction fs with
  | nil => rfl
  | cons f fs ih =>
    rw [List.map_cons, List.mapM_cons, List.mapM_cons, Id.run_bind, Id.run_bind, run_resolveField_bare,
      Id.run_bind, ih]
    rfl

theorem run_assemble_bare (kept : List FieldDeclaration) (os : List ObjectDeclaration) :
    (assemble r.bare (kept.map (·.plain)) (os.map (·.bare))).run =
      ((assemble r kept os).run.1.map (·.bare), (assemble r kept os).run.2.map (·.bare)) := by
  induction os with
  | nil => rfl
  | cons o os ih =>
    have hown : (kept.map (·.plain)).filter (ident · = ident o.bare) =
        (kept.filter (ident · = ident o)).map (·.plain) := by
      rw [List.filter_map]
      rfl
    rw [List.map_cons]
    unfold assemble
    rw [hown]
    cases kept.filter (ident · = ident o) with
    | nil =>
      show ((assemble r.bare _ _).run.1, _ :: (assemble r.bare _ _).run.2) = _
      rw [ih]
      rfl
    | cons f fs =>
      show (.ofDeclaration o.bare (((f :: fs).map (·.plain)).mapM (resolveField r.bare o.bare)).run ::
        (assemble r.bare _ _).run.1, (assemble r.bare _ _).run.2) = _
      rw [run_mapM_resolveField_bare, ih]
      rfl

end Build

def Schema.bare (s : Schema) : Schema := s.map (·.bare) Object.ident_bare

def Built.bare (b : Built) : Built := ⟨b.schema.bare, b.diagnostics.map (·.bare)⟩

/-- The passes of a build one after the other. -/
theorem run_build (r : Resolver Id) (objects : List ObjectDeclaration) (fields : List FieldDeclaration) :
    (build r objects fields).run =
      let accepted := (Build.acceptObjects r ∅ objects).run
      let kept := (Build.acceptFields r accepted.1 [] fields).run
      let assembled := (Build.assemble r kept.1 accepted.1.toList).run
      ⟨.ofList assembled.1, accepted.2 ++ kept.2 ++ assembled.2⟩ := rfl

theorem run_build_bare (r : Resolver Id) (objects : List ObjectDeclaration) (fields : List FieldDeclaration) :
    (build r.bare (objects.map (·.bare)) (fields.map (·.plain))).run = (build r objects fields).run.bare := by
  have ho : (Build.acceptObjects r.bare ∅ (objects.map (·.bare))).run =
      ((Build.acceptObjects r ∅ objects).run.1.map (·.bare) ObjectDeclaration.ident_bare,
        (Build.acceptObjects r ∅ objects).run.2.map (·.bare)) := by
    rw [← Build.run_acceptObjects_bare]
    rfl
  have hf : ∀ accepted : Index ObjectDeclaration,
      (Build.acceptFields r.bare (accepted.map (·.bare) ObjectDeclaration.ident_bare) []
        (fields.map (·.plain))).run = ((Build.acceptFields r accepted [] fields).run.1.map (·.plain),
          (Build.acceptFields r accepted [] fields).run.2.map (·.bare)) :=
    fun accepted => Build.run_acceptFields_bare [] fields
  simp only [run_build, ho, hf, Index.toList_map, Build.run_assemble_bare,
    Index.ofList_map Object.ident_bare, ← List.map_append]
  rfl

/-! ### Compiling -/

namespace Schema

variable {s s' : Schema}

theorem target?_bare (s : Schema) (key : String) (f : Field) :
    s.bare.target? key f.bare = (s.target? key f).map (·.bare) := by
  rw [target?, f.targetClass_bare, bare, Index.get?_map, target?]

theorem projectFields_bare {resolve resolve' : Object → Traversal → Option (Outcome (Option (List String)))}
    (h : ∀ o t, resolve' o.bare t = resolve o t) (key : String) (fs : List Field) (t : Traversal) :
    s.bare.projectFields resolve' key (fs.map (·.bare)) t = s.projectFields resolve key fs t := by
  induction fs generalizing t with
  | nil => rfl
  | cons f fs ih =>
    rw [List.map_cons, projectFields, projectFields, target?_bare]
    cases s.target? key f with
    | none =>
      show (s.bare.projectFields resolve' key _ t).map _ = _
      rw [ih]
      rfl
    | some o =>
      simp only [Option.map_some, h, ih, f.expand_bare]

theorem projectWithin_bare (n : Nat) (o : Object) (t : Traversal) :
    s.bare.projectWithin n o.bare t = s.projectWithin n o t := by
  induction n generalizing o t with
  | zero => rfl
  | succ n ih =>
    have hf : o.bare.fields.isEmpty = o.fields.isEmpty := List.isEmpty_map
    have hp : ∀ t, s.bare.projectFields (s.bare.projectWithin n) o.bare.key o.bare.fields t =
        s.projectFields (s.projectWithin n) o.key o.fields t := projectFields_bare ih o.key o.fields
    rw [projectWithin, projectWithin, hf, hp]
    rfl

theorem project_bare (o : Object) (t : Traversal) : s.bare.project o.bare t = s.project o t := by
  have h := projectWithin_size_add_two (s := s) o t
  rw [← projectWithin_bare] at h
  exact project_eq_of_projectWithin h

theorem bare_plan_bare (o : Object) : (s.bare.plan o.bare).bare = (s.plan o).bare := by
  have hf : ∀ f, (s.bare.fieldPlan o.key f.bare).bare = (s.fieldPlan o.key f).bare := by
    intro f
    have hn : (s.bare.target? o.key f.bare).map ident = (s.target? o.key f).map ident := by
      rw [target?_bare, Option.map_map]
      rfl
    have hr : f.bare.isResolved = f.isResolved := Option.isSome_map
    simp only [fieldPlan, FieldPlan.bare, hn, hr, f.isCollection_bare]
    rfl
  have hfs : (o.bare.fields.map (s.bare.fieldPlan o.key)).map (·.bare) =
      (o.fields.map (s.fieldPlan o.key)).map (·.bare) := by
    rw [Object.bare, List.map_map, List.map_map, List.map_map]
    exact List.map_congr_left fun f _ => hf f
  unfold plan Plan.bare
  congr 1

theorem map_bare_entry_bare (o : Object) (r : Except Cycle (Option (List String))) :
    (s.bare.entry o.bare r).map (·.bare) = (s.entry o r).map (·.bare) := by
  match r with
  | .ok (some paths) =>
    show some (⟨_, _, _, .query _ (s.bare.plan o.bare).bare⟩ : Compiled) = some ⟨_, _, _, .query _ (s.plan o).bare⟩
    rw [bare_plan_bare]
    rfl
  | .ok none => rfl
  | .error c => rfl

theorem compileEach_bare (os : List Object) (m : Memo) :
    (s.bare.compileEach (os.map (·.bare)) m).1.map (·.bare) = (s.compileEach os m).1.map (·.bare) := by
  induction os generalizing m with
  | nil => rfl
  | cons o os ih =>
    rw [List.map_cons, compileEach_cons, compileEach_cons, List.map_append, List.map_append,
      compileObject_eq, compileObject_eq, project_bare, ih, ← Option.toList_map, ← Option.toList_map,
      map_bare_entry_bare]

theorem compileAll_of_bare_eq (h : s.bare = s'.bare) (m : Memo) :
    (s.compileAll m).1.map (·.bare) = (s'.compileAll m).1.map (·.bare) := by
  have hall : ∀ s : Schema, (s.compileAll m).1.map (·.bare) = (s.bare.compileAll m).1.map (·.bare) :=
    fun s => (compileEach_bare s.toList m).symm
  rw [hall s, hall s', h]

end Schema

/-! ### Manifests -/

namespace MemberEntry

def target (e : MemberEntry) : String :=
  bareTypeName (if e.isCollection then e.elementType.getD "object" else e.typeName)

def isWritable (e : MemberEntry) : Bool := e.setter.setter?.elim false (·.isWritable)

def bare (e : MemberEntry) : MemberEntry :=
  ⟨e.name, e.target, e.isCollection, some e.target, false, false,
    if e.isWritable then .public else .none, none⟩

/-- Members that differ in metadata only. -/
structure Alike (e e' : MemberEntry) : Prop where
  name_eq : e.name = e'.name
  isCollection_eq : e.isCollection = e'.isCollection
  typeName_marked : ∃ core, Marked core e.typeName ∧ Marked core e'.typeName
  /-- What a member that is no collection gives as its elements plays no part. -/
  elementType_marked : e.isCollection = true → Option.Rel
    (fun a b => ∃ core, Marked core a ∧ Marked core b) e.elementType e'.elementType
  isWritable_eq : e.isWritable = e'.isWritable

theorem Alike.bare_eq {e e' : MemberEntry} (h : e.Alike e') : e.bare = e'.bare := by
  have hbare : ∀ {a b : String}, (∃ core, Marked core a ∧ Marked core b) →
      bareTypeName a = bareTypeName b := fun ⟨_, ha, hb⟩ =>
    (bareTypeName_of_marked ha).trans (bareTypeName_of_marked hb).symm
  have ht : e.target = e'.target := by
    unfold target
    rw [← h.isCollection_eq]
    cases hc : e.isCollection with
    | false => exact hbare h.typeName_marked
    | true =>
      have he := h.elementType_marked hc
      generalize e.elementType = a at he
      generalize e'.elementType = b at he
      cases he with
      | some hab => exact hbare hab
      | none => rfl
  unfold bare
  rw [h.name_eq, ht, h.isCollection_eq, h.isWritable_eq]

theorem setter_bare (e : MemberEntry) : Setter.bare? e.bare.setter.setter? = Setter.bare? e.setter.setter? := by
  show Setter.bare? (SetterKind.setter? (if e.isWritable then _ else _)) = if e.isWritable then _ else _
  cases e.isWritable <;> rfl

end MemberEntry

namespace TypeEntry

def bare (t : TypeEntry) : TypeEntry := { t with location := none, members := t.members.map (·.bare) }

structure Alike (t t' : TypeEntry) : Prop where
  className_eq : t.className = t'.className
  isPublic_eq : t.isPublic = t'.isPublic
  hasDefaultConstructor_eq : t.hasDefaultConstructor = t'.hasDefaultConstructor
  members_alike : List.Forall₂ MemberEntry.Alike t.members t'.members

end TypeEntry

theorem map_eq_map_of_forall₂ {α β : Type} {R : α → α → Prop} (f : α → β) (h : ∀ a b, R a b → f a = f b)
    {l l' : List α} (hl : List.Forall₂ R l l') : l.map f = l'.map f := by
  induction hl with
  | nil => rfl
  | cons hab _ ih => rw [List.map_cons, List.map_cons, h _ _ hab, ih]

theorem TypeEntry.Alike.bare_eq {t t' : TypeEntry} (h : t.Alike t') : t.bare = t'.bare := by
  unfold TypeEntry.bare
  rw [h.className_eq, h.isPublic_eq, h.hasDefaultConstructor_eq,
    map_eq_map_of_forall₂ MemberEntry.bare (fun _ _ e => e.bare_eq) h.members_alike]

def ObjectEntry.bare (o : ObjectEntry) : ObjectEntry := { o with typeHandling := none }

def FieldEntry.bare (f : FieldEntry) : FieldEntry := { f with typeHandling := none }

structure ObjectEntry.Alike (o o' : ObjectEntry) : Prop where
  objectName_eq : o.objectName = o'.objectName
  key_eq : o.key = o'.key
  className_eq : o.className = o'.className

structure FieldEntry.Alike (f f' : FieldEntry) : Prop where
  fieldName_eq : f.fieldName = f'.fieldName
  key_eq : f.key = f'.key
  propertyName_eq : f.propertyName = f'.propertyName
  className_eq : f.className = f'.className

theorem ObjectEntry.Alike.bare_eq {o o' : ObjectEntry} (h : o.Alike o') : o.bare = o'.bare := by
  unfold ObjectEntry.bare
  rw [h.objectName_eq, h.key_eq, h.className_eq]

theorem FieldEntry.Alike.bare_eq {f f' : FieldEntry} (h : f.Alike f') : f.bare = f'.bare := by
  unfold FieldEntry.bare
  rw [h.fieldName_eq, h.key_eq, h.propertyName_eq, h.className_eq]

theorem lastIdx?_map {α β : Type} (p : β → Bool) (f : α → β) (l : List α) :
    lastIdx? p (l.map f) = lastIdx? (p ∘ f) l := by
  rw [lastIdx?, ← List.map_reverse, List.findIdx?_map, List.length_map, lastIdx?]

namespace Manifest
variable {m m' : Manifest}

def bare (m : Manifest) : Manifest :=
  ⟨m.types.map (·.bare), m.objects.map (·.bare), m.fields.map (·.bare)⟩

/-- Manifests whose entries stand in the same order and differ in metadata only. -/
structure Alike (m m' : Manifest) : Prop where
  types_alike : List.Forall₂ TypeEntry.Alike m.types m'.types
  objects_alike : List.Forall₂ ObjectEntry.Alike m.objects m'.objects
  fields_alike : List.Forall₂ FieldEntry.Alike m.fields m'.fields

theorem Alike.bare_eq (h : m.Alike m') : m.bare = m'.bare := by
  unfold Manifest.bare
  rw [map_eq_map_of_forall₂ TypeEntry.bare (fun _ _ e => e.bare_eq) h.types_alike,
    map_eq_map_of_forall₂ ObjectEntry.bare (fun _ _ e => e.bare_eq) h.objects_alike,
    map_eq_map_of_forall₂ FieldEntry.bare (fun _ _ e => e.bare_eq) h.fields_alike]

theorem typeIndex?_bare (className : String) : m.bare.typeIndex? className = m.typeIndex? className :=
  lastIdx?_map _ _ m.types

theorem typeAt?_bare (t : TypeHandle) : m.bare.typeAt? t = (m.typeAt? t).map (·.bare) :=
  List.getElem?_map ..

theorem memberAt?_bare (h : MemberHandle) : m.bare.memberAt? h = (m.memberAt? h).map (·.bare) := by
  rw [memberAt?, typeAt?_bare, memberAt?]
  cases m.typeAt? h.owner with
  | none => rfl
  | some t => exact List.getElem?_map ..

theorem resolver_bare (m : Manifest) : m.bare.resolver.bare = m.resolver.bare := by
  have htype : m.bare.resolveType = m.resolveType := funext fun c => by
    rw [resolveType, typeIndex?_bare, resolveType]
    cases m.typeIndex? c with
    | none => rfl
    | some i =>
      show (m.bare.typeAt? ⟨i⟩).bind _ = (m.typeAt? ⟨i⟩).bind _
      rw [typeAt?_bare]
      cases m.typeAt? ⟨i⟩ <;> rfl
  have hmember : m.bare.resolveMember = m.resolveMember := funext fun c => funext fun p => by
    rw [resolveMember, typeIndex?_bare, resolveMember]
    cases m.typeIndex? c with
    | none => rfl
    | some i =>
      show (m.bare.typeAt? ⟨i⟩).bind _ = (m.typeAt? ⟨i⟩).bind _
      rw [typeAt?_bare]
      cases m.typeAt? ⟨i⟩ with
      | none => rfl
      | some t =>
        show ((t.members.map _).findIdx? _).bind _ = _
        rw [List.findIdx?_map]
        rfl
  have hconstructor : m.bare.hasDefaultConstructor = m.hasDefaultConstructor := funext fun t => by
    rw [hasDefaultConstructor, typeAt?_bare, hasDefaultConstructor]
    cases m.typeAt? t <;> rfl
  have hsetter : (fun h => Setter.bare? (m.bare.setter h)) = fun h => Setter.bare? (m.setter h) :=
    funext fun h => by
      rw [setter, memberAt?_bare, setter]
      cases m.memberAt? h with
      | none => rfl
      | some e => exact e.setter_bare
  have hmemberType : (fun h => (m.bare.memberType h).bare) = fun h => (m.memberType h).bare :=
    funext fun h => by
      rw [memberType, memberAt?_bare, memberType]
      cases m.memberAt? h with
      | none => rfl
      | some e =>
        cases hc : e.isCollection <;>
          simp [MemberEntry.bare, MemberEntry.target, MemberType.bare, MemberType.target, hc,
            bareTypeName_bareTypeName]
  show (⟨m.bare.resolveType, m.bare.hasDefaultConstructor, m.bare.resolveMember, _, _, _⟩ : Resolver Id) = _
  rw [htype, hconstructor, hmember]
  exact congrArg₂ (Resolver.mk _ _ _ · · _) hsetter hmemberType

theorem isKeyed_bare (className : String) : m.bare.isKeyed className = m.isKeyed className := by
  unfold isKeyed bare
  rw [List.countP_map]
  rfl

theorem map_bare_objectDeclarations (m : Manifest) (handling handling' : TypeHandling) :
    (m.bare.objectDeclarations handling).map (·.bare) = (m.objectDeclarations handling').map (·.bare) := by
  unfold objectDeclarations
  simp only [isKeyed_bare]
  unfold bare
  rw [List.map_map, List.map_map, List.map_map]
  rfl

theorem map_plain_fieldDeclarations (m : Manifest) :
    m.bare.fieldDeclarations.map (·.plain) = m.fieldDeclarations.map (·.plain) := by
  unfold fieldDeclarations bare
  rw [List.map_map, List.map_map, List.map_map]
  rfl

/-- What is built from a manifest is, made bare, what is built from the bare one. -/
theorem bare_build (m : Manifest) (handling : TypeHandling) :
    (m.build handling).bare = (m.bare.build .strict).bare := by
  show (Soql.build m.resolver _ _).run.bare = (Soql.build m.bare.resolver _ _).run.bare
  rw [← run_build_bare, ← run_build_bare, resolver_bare, map_bare_objectDeclarations _ _ handling,
    map_plain_fieldDeclarations]

/-- Metadata decides nothing. Two manifests that differ in it only, each under a default type handling
of its own, lead to the same objects, to the same reports but for places, and to the same entries of
roots but for what a plan says about conversion and types. -/
theorem compile_of_alike (h : m.Alike m') (handling handling' : TypeHandling) :
    (m.build handling).schema.idents = (m'.build handling').schema.idents ∧
    (m.build handling).diagnostics.map (·.bare) = (m'.build handling').diagnostics.map (·.bare) ∧
    ((m.build handling).schema.compileAll ∅).1.map (·.bare) =
      ((m'.build handling').schema.compileAll ∅).1.map (·.bare) := by
  have hb : (m.build handling).bare = (m'.build handling').bare := by
    rw [bare_build m, bare_build m', h.bare_eq]
  have hs : (m.build handling).schema.bare = (m'.build handling').schema.bare := congrArg Built.schema hb
  have hidents : ∀ s : Schema, s.bare.idents = s.idents := fun s => by
    show (s.toList.map (·.bare)).map ident = _
    rw [List.map_map]
    rfl
  refine ⟨?_, congrArg Built.diagnostics hb, Schema.compileAll_of_bare_eq hs ∅⟩
  rw [← hidents, hs, hidents]

open Schema in
/-- The manifest of accounts, owners and contacts with other metadata throughout. -/
def markedContacts : Manifest where
  types := [
    ⟨"App.Account", true, true, none,
      [⟨"Owner", "?App.User??", false, some "int", true, true, .internal, some ⟨"a.cs", 4, 2⟩⟩]⟩,
    ⟨"App.User", true, true, some ⟨"a.cs", 9, 1⟩,
      [⟨"Contacts", "List?", true, some "App.Contact?", false, true, .init, none⟩]⟩,
    ⟨"App.Contact", true, true, none,
      [⟨"LastName", "string?", false, none, false, true, .protectedInternal, none⟩]⟩]
  objects := [⟨"Account", "K", "App.Account", some .strict⟩, ⟨"User", "K", "App.User", none⟩,
    ⟨"Contact", "K", "App.Contact", none⟩]
  fields := [⟨"Owner", "K", "Owner", "App.Account", none⟩,
    ⟨"Contacts", "K", "Contacts", "App.User", some .coerce⟩, ⟨"LastName", "K", "LastName", "App.Contact", none⟩]

open Schema in
theorem compile_of_alike_markedContacts :
    ownedContacts.Alike markedContacts ∧
      (∃ c ∈ ((markedContacts.build .coerce).schema.compileAll ∅).1,
        c.query? = some "SELECT Owner.(SELECT LastName FROM Contacts) FROM Account") ∧
      ((ownedContacts.build .strict).schema.compileAll ∅).1.map (·.bare) =
        ((markedContacts.build .coerce).schema.compileAll ∅).1.map (·.bare) := by
  have howner : ∃ core, Marked core "App.User" ∧ Marked core "?App.User??" :=
    ⟨"App.User".toList, ⟨0, 0, rfl⟩, 1, 2, rfl⟩
  have hlist : ∃ core, Marked core "List" ∧ Marked core "List?" :=
    ⟨"List".toList, ⟨0, 0, rfl⟩, 0, 1, rfl⟩
  have helement : ∃ core, Marked core "App.Contact" ∧ Marked core "App.Contact?" :=
    ⟨"App.Contact".toList, ⟨0, 0, rfl⟩, 0, 1, rfl⟩
  have hname : ∃ core, Marked core "string" ∧ Marked core "string?" :=
    ⟨"string".toList, ⟨0, 0, rfl⟩, 0, 1, rfl⟩
  have h : ownedContacts.Alike markedContacts :=
    { types_alike :=
        .cons ⟨rfl, rfl, rfl, .cons ⟨rfl, rfl, howner, nofun, rfl⟩ .nil⟩
          (.cons ⟨rfl, rfl, rfl, .cons ⟨rfl, rfl, hlist, fun _ => .some helement, rfl⟩ .nil⟩
            (.cons ⟨rfl, rfl, rfl, .cons ⟨rfl, rfl, hname, nofun, rfl⟩ .nil⟩ .nil))
      objects_alike := .cons ⟨rfl, rfl, rfl⟩ (.cons ⟨rfl, rfl, rfl⟩ (.cons ⟨rfl, rfl, rfl⟩ .nil))
      fields_alike :=
        .cons ⟨rfl, rfl, rfl, rfl⟩ (.cons ⟨rfl, rfl, rfl, rfl⟩ (.cons ⟨rfl, rfl, rfl, rfl⟩ .nil)) }
  exact ⟨h, by decide +kernel, (compile_of_alike h .strict .coerce).2.2⟩

end Manifest
end Soql
