import Soql.Proofs.Answers

/-!
# The rules of a build

What becomes of a declaration, said of its place in the declarations alone: a verdict may look at
the declarations before it, a field's also at the accepted objects, and at nothing that a pass has
gathered (`objectFault?`, `fieldFault?`). `RuleTable.Obeys` is what the verdicts make of a schema and
its diagnostics. A pass compares with what it has accepted instead; this comes to the same, since a
twin of an acceptable declaration is acceptable, and so the first of the twins was accepted. Main
statement: with a resolver that keeps its answers, a build is what the rules say and nothing else
(`run_build_eq_iff`).
-/

open MonadAttach LawfulMonadAttach

namespace Soql.RuleTable

/-! ### Verdicts -/

section
variable {α φ : Type} (verdict : List α → α → Option φ)

/-- Each entry of a list with what is said against it, given the entries before it. -/
def judge (l : List α) : List (α × Option φ) :=
  l.zipIdx.map fun (a, i) => (a, verdict (l.take i) a)

/-- The entries that nothing is said against. -/
def passed (judged : List (α × Option φ)) : List α := (judged.filter (·.2.isNone)).map (·.1)

/-- The verdicts on the rest of a list, as a pass comes to them. -/
def judgeAfter (before : List α) : List α → List (α × Option φ)
  | [] => []
  | a :: l => (a, verdict before a) :: judgeAfter (before ++ [a]) l

theorem map_zipIdx_eq_judgeAfter (before l : List α) :
    (l.zipIdx before.length).map (fun (a, i) => (a, verdict ((before ++ l).take i) a)) =
      judgeAfter verdict before l := by
  induction l generalizing before with
  | nil => rfl
  | cons a l ih =>
    have ih := ih (before ++ [a])
    rw [List.length_append, List.length_singleton, ← List.append_cons] at ih
    rw [List.zipIdx_cons, List.map_cons, ih, judgeAfter]
    exact congrArg (fun p => (a, verdict p a) :: _) List.take_left

theorem judge_eq_judgeAfter (l : List α) : judge verdict l = judgeAfter verdict [] l :=
  map_zipIdx_eq_judgeAfter verdict [] l

end

section
variable (r : Resolver Id)

/-- The class resolves to a type with a default constructor. -/
def Constructible (className : String) : Prop :=
  ∃ t ∈ (r.resolveType className).run, (r.hasDefaultConstructor t).run = true

/-- The member resolves and has a setter that may be used. -/
def Writable (f : FieldDeclaration) : Prop :=
  ∃ h ∈ (r.resolveMember f.className f.propertyName).run, ∃ a ∈ (r.setter h).run, a.isWritable = true

instance (className : String) : Decidable (Constructible r className) :=
  inferInstanceAs (Decidable (∃ t ∈ (r.resolveType className).run, _))

instance (f : FieldDeclaration) : Decidable (Writable r f) :=
  inferInstanceAs (Decidable (∃ h ∈ (r.resolveMember f.className f.propertyName).run, _))

/-- The fields say the same of the same object. -/
def Twins (f g : FieldDeclaration) : Prop :=
  f.className = g.className ∧ f.key = g.key ∧ f.propertyName = g.propertyName ∧ f.fieldName = g.fieldName

instance (f g : FieldDeclaration) : Decidable (Twins f g) := inferInstanceAs (Decidable (_ ∧ _))

/-- The rules for an object declaration, the first that applies. -/
def objectFault? (before : List ObjectDeclaration) (o : ObjectDeclaration) : Option ObjectFault :=
  if ¬ Constructible r o.className then some .noConstructor
  else if ∃ p ∈ before, p.className = o.className ∧ p.key = o.key then some .duplicate
  else none

/-- The rules for a field declaration, the first that applies. -/
def fieldFault? (accepted : List ObjectDeclaration) (before : List FieldDeclaration)
    (f : FieldDeclaration) : Option FieldFault :=
  if ¬ Writable r f then some .notWritable
  else if ∀ o ∈ accepted, o.className ≠ f.className then some .noObject
  else if ∀ o ∈ accepted, ¬ (o.className = f.className ∧ o.key = f.key) then some .unknownKey
  else if ∃ g ∈ before, Twins g f then some .duplicate
  else none

end

/-! ### What the verdicts make of a build -/

section
variable (r : Resolver Id) (objects : List ObjectDeclaration) (fields : List FieldDeclaration)

def judgedObjects : List (ObjectDeclaration × Option ObjectFault) := judge (objectFault? r) objects

def acceptedObjects : List ObjectDeclaration := passed (judgedObjects r objects)

def judgedFields : List (FieldDeclaration × Option FieldFault) :=
  judge (fieldFault? r (acceptedObjects r objects)) fields

def acceptedFields : List FieldDeclaration := passed (judgedFields r objects fields)

def objectReport (o : ObjectDeclaration) (fault : ObjectFault) : Diagnostic :=
  .ofObject fault o.objectName ⟨o.className, o.key⟩ (r.locate (.object o)).run

def fieldReport (f : FieldDeclaration) (fault : FieldFault) : Diagnostic :=
  .ofField fault f (r.locate (.field f)).run

/-- A field with the type of its member and its own handling, or else its owner's. -/
def typedField (o : ObjectDeclaration) (f : FieldDeclaration) : Field where
  name := f.fieldName
  property := f.propertyName
  type := (r.resolveMember f.className f.propertyName).run.map fun h => (r.memberType h).run
  typeHandling := f.typeHandling.getD o.typeHandling

/-- The fields that an object takes from a list, in the order of the list. -/
def fieldsOf (fields : List FieldDeclaration) (o : ObjectDeclaration) : List Field :=
  (fields.filter fun f => f.className = o.className ∧ f.key = o.key).map (typedField r o)

/-- The schema holds the accepted objects that a field was accepted for; reported are the rejected
objects and then the rejected fields, in the order of their declarations, and then the accepted
objects without fields, in the order of their identities. -/
structure Obeys (b : Built) : Prop where
  mem_schema_iff : ∀ x, x ∈ b.schema.toList ↔ ∃ o ∈ acceptedObjects r objects,
    fieldsOf r (acceptedFields r objects fields) o ≠ [] ∧
      x = .ofDeclaration o (fieldsOf r (acceptedFields r objects fields) o)
  diagnostics_eq : ∃ dropped : Index ObjectDeclaration,
    (∀ o, o ∈ dropped.toList ↔
      o ∈ acceptedObjects r objects ∧ fieldsOf r (acceptedFields r objects fields) o = []) ∧
    b.diagnostics =
      (judgedObjects r objects).filterMap (fun (o, fault) => fault.map (objectReport r o)) ++
      (judgedFields r objects fields).filterMap (fun (f, fault) => fault.map (fieldReport r f)) ++
      dropped.toList.map (objectReport r · .noFields)

variable {r objects fields}

/-- The rules leave no choice. -/
theorem Obeys.unique {b c : Built} (hb : Obeys r objects fields b) (hc : Obeys r objects fields c) :
    b = c := by
  have hs : b.schema = c.schema :=
    Index.ext_mem fun x => (hb.mem_schema_iff x).trans (hc.mem_schema_iff x).symm
  obtain ⟨dropped, hm, hd⟩ := hb.diagnostics_eq
  obtain ⟨dropped', hm', hd'⟩ := hc.diagnostics_eq
  have he : dropped = dropped' := Index.ext_mem fun o => (hm o).trans (hm' o).symm
  have hd : b.diagnostics = c.diagnostics := by rw [hd, hd', he]
  cases b
  cases c
  cases hs
  cases hd
  rfl

end

/-! ### The passes give these verdicts -/

section
variable {r : Resolver Id} {accepted : Index ObjectDeclaration} {o p : ObjectDeclaration}
  {f g : FieldDeclaration}

theorem elim_false_iff {α : Type} {x : Option α} {q : α → Bool} :
    x.elim false q = true ↔ ∃ a ∈ x, q a = true := by
  cases x <;> simp

theorem isConstructible_iff {className : String} :
    (Build.isConstructible r className).run = true ↔ Constructible r className := by
  have e : (Build.isConstructible r className).run =
      (r.resolveType className).run.elim false fun t => (r.hasDefaultConstructor t).run := by
    rw [Build.isConstructible]
    cases r.resolveType className <;> rfl
  rw [e, elim_false_iff, Constructible]

theorem isWritable_iff : (Build.isWritable r f).run = true ↔ Writable r f := by
  have e : (Build.isWritable r f).run = (r.resolveMember f.className f.propertyName).run.elim false
      fun h => (r.setter h).run.elim false (·.isWritable) := by
    rw [Build.isWritable]
    cases r.resolveMember f.className f.propertyName <;> rfl
  simp only [e, elim_false_iff, Writable]

theorem run_resolveField : (Build.resolveField r o f).run = typedField r o f := by
  rw [Build.resolveField, typedField]
  cases r.resolveMember f.className f.propertyName <;> rfl

theorem ident_eq_iff : ident p = ident o ↔ p.className = o.className ∧ p.key = o.key :=
  Ident.mk.injEq .. ▸ Iff.rfl

theorem clash_iff : Build.clash f g = true ↔ Twins f g := by
  simp [Build.clash, Twins, FieldDeclaration.ident_eq, and_assoc]

/-- What has been accepted stands for the constructible ones among the declarations before. -/
def Covers (r : Resolver Id) (accepted : Index ObjectDeclaration) (before : List ObjectDeclaration) :
    Prop :=
  ∀ i, accepted.contains i = true ↔ ∃ p ∈ before, ident p = i ∧ Constructible r p.className

theorem objectFault?_eq_none_iff {before : List ObjectDeclaration} : objectFault? r before o = none ↔
    Constructible r o.className ∧ ¬ ∃ p ∈ before, p.className = o.className ∧ p.key = o.key := by
  simp only [objectFault?, rule_eq_none_iff, not_not, and_true]

theorem eq_of_objectFault? {before : List ObjectDeclaration} {fault : ObjectFault}
    (h : objectFault? r before o = some fault) :
    fault = .noConstructor ∨ fault = .duplicate := by
  rw [objectFault?] at h
  split at h
  · exact .inl (Option.some.inj h).symm
  · split at h
    · exact .inr (Option.some.inj h).symm
    · cases h

namespace Covers
variable {before : List ObjectDeclaration}

theorem contains_iff (h : Covers r accepted before) (hc : Constructible r o.className) :
    accepted.contains (ident o) = true ↔ ∃ p ∈ before, p.className = o.className ∧ p.key = o.key := by
  rw [h]
  constructor
  · rintro ⟨p, hp, e, -⟩
    exact ⟨p, hp, ident_eq_iff.1 e⟩
  · rintro ⟨p, hp, e⟩
    exact ⟨p, hp, ident_eq_iff.2 e, e.1 ▸ hc⟩

theorem verdict (h : Covers r accepted before) {fault : Option ObjectFault}
    (hf : CanReturn (Build.objectFault r accepted o) fault) : fault = objectFault? r before o := by
  obtain ⟨c, hc, rfl⟩ := Build.exists_of_canReturn_objectFault hf
  have hc : c = true ↔ Constructible r o.className := by
    rw [← isConstructible_iff]
    exact hc ▸ Iff.rfl
  rw [objectFault?]
  by_cases ho : Constructible r o.className
  · simp [hc.2 ho, ho, h.contains_iff ho]
  · simp [mt hc.1 ho, ho]

theorem accept (h : Covers r accepted before) (ho : objectFault? r before o = none) :
    Covers r (accepted.insert o) (before ++ [o]) := by
  intro i
  have hc := (objectFault?_eq_none_iff.1 ho).1
  rw [Index.contains_insert, h i]
  constructor
  · rintro (e | ⟨p, hp, e⟩)
    · exact ⟨o, by simp, e, hc⟩
    · exact ⟨p, by simp [hp], e⟩
  · rintro ⟨p, hp, e, hpc⟩
    rcases List.mem_append.1 hp with hp | hp
    · exact .inr ⟨p, hp, e, hpc⟩
    · exact .inl (List.mem_singleton.1 hp ▸ e)

/-- A rejected declaration changes nothing: if it is constructible, its twin came before. -/
theorem reject (h : Covers r accepted before) (ho : objectFault? r before o ≠ none) :
    Covers r accepted (before ++ [o]) := by
  intro i
  rw [h i]
  constructor
  · rintro ⟨p, hp, e⟩
    exact ⟨p, by simp [hp], e⟩
  · rintro ⟨p, hp, e, hpc⟩
    rcases List.mem_append.1 hp with hp | hp
    · exact ⟨p, hp, e, hpc⟩
    · obtain rfl := List.mem_singleton.1 hp
      have hd : ∃ q ∈ before, q.className = p.className ∧ q.key = p.key := by
        by_contra hd
        exact ho (objectFault?_eq_none_iff.2 ⟨hpc, hd⟩)
      obtain ⟨q, hq, hqp⟩ := hd
      exact ⟨q, hq, (ident_eq_iff.2 hqp).trans e, hqp.1 ▸ hpc⟩

end Covers

theorem mem_passed_cons {α φ : Type} {verdict : List α → α → Option φ} {before l : List α} {a b : α} :
    b ∈ passed (judgeAfter verdict before (a :: l)) ↔
      (verdict before a = none ∧ b = a) ∨ b ∈ passed (judgeAfter verdict (before ++ [a]) l) := by
  cases h : verdict before a <;> simp [judgeAfter, passed, h]

theorem of_canReturn_acceptObjects {before os : List ObjectDeclaration}
    (h : Covers r accepted before) {out : Index ObjectDeclaration × List Diagnostic}
    (hout : CanReturn (Build.acceptObjects r accepted os) out) :
    (∀ p, p ∈ out.1.toList ↔ p ∈ accepted.toList ∨ p ∈ passed (judgeAfter (objectFault? r) before os)) ∧
      out.2 = (judgeAfter (objectFault? r) before os).filterMap
        fun (o, fault) => fault.map (objectReport r o) := by
  induction os generalizing accepted before out with
  | nil =>
    rw [Build.acceptObjects] at hout
    obtain rfl := eq_of_canReturn_pure hout
    simp [judgeAfter, passed]
  | cons o os ih =>
    rcases Build.cases_of_canReturn_acceptObjects hout with
      ⟨hf, hrest⟩ | ⟨fault, location, rest, hf, hl, hrest, rfl⟩
    · have ho := (h.verdict hf).symm
      obtain ⟨hc, hd⟩ := objectFault?_eq_none_iff.1 ho
      obtain ⟨hm, hr⟩ := ih (h.accept ho) hrest
      refine ⟨fun p => ?_, by simp [judgeAfter, ho, hr]⟩
      rw [hm, Index.mem_insert_iff (mt (h.contains_iff hc).1 hd), mem_passed_cons]
      simp only [ho, true_and]
      tauto
    · have ho := (h.verdict hf).symm
      have hne : objectFault? r before o ≠ none := ho ▸ Option.some_ne_none _
      obtain ⟨hm, hr⟩ := ih (h.reject hne) hrest
      refine ⟨fun p => ?_, ?_⟩
      · rw [hm, mem_passed_cons]
        simp [ho]
      · have hl : (r.locate (.object o)).run = location := hl
        simp [judgeAfter, ho, hr, objectReport, hl, ObjectDeclaration.ident_eq]

/-! ### Fields -/

namespace Twins

theorem symm (h : Twins f g) : Twins g f := ⟨h.1.symm, h.2.1.symm, h.2.2.1.symm, h.2.2.2.symm⟩

theorem trans {x : FieldDeclaration} (h : Twins f g) (h' : Twins g x) : Twins f x :=
  ⟨h.1.trans h'.1, h.2.1.trans h'.2.1, h.2.2.1.trans h'.2.2.1, h.2.2.2.trans h'.2.2.2⟩

theorem ident_eq (h : Twins f g) : ident f = ident g := by
  rw [FieldDeclaration.ident_eq, FieldDeclaration.ident_eq, h.1, h.2.1]

theorem writable (h : Twins f g) (hf : Writable r f) : Writable r g := by
  rw [Writable] at hf ⊢
  rwa [← h.1, ← h.2.2.1]

end Twins

/-- What has been accepted stands for the acceptable ones among the declarations before. -/
def Recalls (r : Resolver Id) (accepted : Index ObjectDeclaration)
    (kept before : List FieldDeclaration) : Prop :=
  ∀ f, (∃ g ∈ kept, Twins f g) ↔
    (∃ g ∈ before, Twins g f) ∧ Writable r f ∧ accepted.contains (ident f) = true

theorem contains_ident_iff : accepted.contains (ident f) = true ↔
    ∃ o ∈ accepted.toList, o.className = f.className ∧ o.key = f.key := by
  rw [Index.contains_iff]
  simp only [ObjectDeclaration.ident_eq, FieldDeclaration.ident_eq, Ident.mk.injEq]

theorem fieldFault?_eq_none_iff {os : List ObjectDeclaration} {before : List FieldDeclaration} :
    fieldFault? r os before f = none ↔
      Writable r f ∧ (∃ o ∈ os, o.className = f.className ∧ o.key = f.key) ∧
        ¬ ∃ g ∈ before, Twins g f := by
  simp only [fieldFault?, rule_eq_none_iff, not_not, and_true]
  refine and_congr_right fun _ => ?_
  constructor
  · rintro ⟨-, hk, hd⟩
    exact ⟨by simpa using hk, hd⟩
  · rintro ⟨⟨o, ho, e⟩, hd⟩
    exact ⟨fun h => h o ho e.1, fun h => h o ho e, hd⟩

namespace Recalls
variable {kept before : List FieldDeclaration}

theorem any_clash_iff (h : Recalls r accepted kept before) (hw : Writable r f)
    (hc : accepted.contains (ident f) = true) :
    kept.any (Build.clash f) = true ↔ ∃ g ∈ before, Twins g f := by
  simp only [List.any_eq_true, clash_iff, h f, hw, hc, and_true]

theorem verdict (h : Recalls r accepted kept before) {os : List ObjectDeclaration}
    (hm : ∀ o, o ∈ accepted.toList ↔ o ∈ os) {fault : Option FieldFault}
    (hf : CanReturn (Build.fieldFault r accepted kept f) fault) : fault = fieldFault? r os before f := by
  obtain ⟨w, hw, rfl⟩ := Build.exists_of_canReturn_fieldFault hf
  have hw : w = true ↔ Writable r f := by
    rw [← isWritable_iff]
    exact hw ▸ Iff.rfl
  have hn : (!accepted.toList.any (·.className = f.className)) = true ↔
      ∀ o ∈ os, o.className ≠ f.className := by
    simp [hm]
  have hk : (!accepted.contains (ident f)) = true ↔
      ∀ o ∈ os, ¬ (o.className = f.className ∧ o.key = f.key) := by
    rw [Bool.not_eq_true', ← Bool.not_eq_true, contains_ident_iff]
    simp only [hm, not_exists, not_and]
  rw [fieldFault?]
  by_cases hf : Writable r f
  · rw [if_pos (hw.2 hf), if_neg (not_not.2 hf)]
    refine if_congr hn rfl (if_ctx_congr hk (fun _ => rfl) fun hne => ?_)
    have hc : accepted.contains (ident f) = true := by simpa using mt hk.1 hne
    exact if_congr (h.any_clash_iff hf hc) rfl rfl
  · rw [if_neg (mt hw.1 hf), if_pos hf]

theorem accept (h : Recalls r accepted kept before) (hw : Writable r f)
    (hc : accepted.contains (ident f) = true) : Recalls r accepted (f :: kept) (before ++ [f]) := by
  intro g
  constructor
  · rintro ⟨x, hx, hg⟩
    rcases List.mem_cons.1 hx with rfl | hx
    · exact ⟨⟨x, by simp, hg.symm⟩, hg.symm.writable hw, hg.ident_eq ▸ hc⟩
    · obtain ⟨⟨y, hy, hyg⟩, hrest⟩ := (h g).1 ⟨x, hx, hg⟩
      exact ⟨⟨y, by simp [hy], hyg⟩, hrest⟩
  · rintro ⟨⟨y, hy, hyg⟩, hrest⟩
    rcases List.mem_append.1 hy with hy | hy
    · obtain ⟨x, hx, hg⟩ := (h g).2 ⟨⟨y, hy, hyg⟩, hrest⟩
      exact ⟨x, by simp [hx], hg⟩
    · exact ⟨f, by simp, (List.mem_singleton.1 hy ▸ hyg).symm⟩

/-- A rejected declaration changes nothing: if it is acceptable, its twin came before. -/
theorem reject (h : Recalls r accepted kept before)
    (hd : Writable r f → accepted.contains (ident f) = true → ∃ g ∈ before, Twins g f) :
    Recalls r accepted kept (before ++ [f]) := by
  intro g
  rw [h g]
  constructor
  · rintro ⟨⟨y, hy, hyg⟩, hrest⟩
    exact ⟨⟨y, by simp [hy], hyg⟩, hrest⟩
  · rintro ⟨⟨y, hy, hyg⟩, hw, hc⟩
    rcases List.mem_append.1 hy with hy | hy
    · exact ⟨⟨y, hy, hyg⟩, hw, hc⟩
    · obtain rfl := List.mem_singleton.1 hy
      obtain ⟨x, hx, hxy⟩ := hd (hyg.symm.writable hw) (hyg.ident_eq ▸ hc)
      exact ⟨⟨x, hx, hxy.trans hyg⟩, hw, hc⟩

end Recalls

theorem of_canReturn_acceptFields {os : List ObjectDeclaration} (hm : ∀ o, o ∈ accepted.toList ↔ o ∈ os)
    {kept before fs : List FieldDeclaration} (h : Recalls r accepted kept before)
    {out : List FieldDeclaration × List Diagnostic}
    (hout : CanReturn (Build.acceptFields r accepted kept fs) out) :
    out.1 = passed (judgeAfter (fieldFault? r os) before fs) ∧
      out.2 = (judgeAfter (fieldFault? r os) before fs).filterMap
        fun (f, fault) => fault.map (fieldReport r f) := by
  have hc : ∀ f : FieldDeclaration, accepted.contains (ident f) = true ↔
      ∃ o ∈ os, o.className = f.className ∧ o.key = f.key := fun f => by
    simp only [contains_ident_iff, hm]
  induction fs generalizing kept before out with
  | nil =>
    rw [Build.acceptFields] at hout
    obtain rfl := eq_of_canReturn_pure hout
    simp [judgeAfter, passed]
  | cons f fs ih =>
    rcases Build.cases_of_canReturn_acceptFields hout with
      ⟨rest, hf, hrest, rfl⟩ | ⟨fault, location, rest, hf, hl, hrest, rfl⟩
    · have hv := (h.verdict hm hf).symm
      obtain ⟨hw, ho, -⟩ := fieldFault?_eq_none_iff.1 hv
      obtain ⟨hk, hr⟩ := ih (h.accept hw ((hc f).2 ho)) hrest
      exact ⟨by simp [judgeAfter, passed, hv, hk], by simp [judgeAfter, hv, hr]⟩
    · have hv := (h.verdict hm hf).symm
      have hd : Writable r f → accepted.contains (ident f) = true → ∃ g ∈ before, Twins g f := by
        intro hw ho
        by_contra hd
        have hnone := fieldFault?_eq_none_iff.2 ⟨hw, (hc f).1 ho, hd⟩
        rw [hv] at hnone
        cases hnone
      obtain ⟨hk, hr⟩ := ih (h.reject hd) hrest
      have hl : (r.locate (.field f)).run = location := hl
      exact ⟨by simp [judgeAfter, passed, hv, hk], by simp [judgeAfter, hv, hr, fieldReport, hl]⟩

/-! ### Putting together -/

theorem fieldsOf_eq (fields : List FieldDeclaration) (o : ObjectDeclaration) :
    fieldsOf r fields o = (fields.filter (ident · = ident o)).map (typedField r o) := by
  rw [fieldsOf]
  refine congrArg _ (List.filter_congr fun f _ => ?_)
  simp [FieldDeclaration.ident_eq, ObjectDeclaration.ident_eq]

/-- An object takes no field of another identity. -/
theorem fieldsOf_filter {fields : List FieldDeclaration} {p : Ident → Bool} (hp : p (ident o) = true) :
    fieldsOf r (fields.filter (p <| ident ·)) o = fieldsOf r fields o := by
  rw [fieldsOf_eq, fieldsOf_eq, List.filter_filter]
  refine congrArg _ (List.filter_congr fun f _ => ?_)
  by_cases hf : ident f = ident o <;> simp [hf, hp]

theorem of_canReturn_assemble {kept : List FieldDeclaration} {os : List ObjectDeclaration}
    {out : List Object × List Diagnostic} (hout : CanReturn (Build.assemble r kept os) out) :
    (∀ x, x ∈ out.1 ↔ ∃ o ∈ os, fieldsOf r kept o ≠ [] ∧ x = .ofDeclaration o (fieldsOf r kept o)) ∧
      out.2 = (os.filter (fieldsOf r kept · = [])).map (objectReport r · .noFields) := by
  induction os generalizing out with
  | nil =>
    rw [Build.assemble] at hout
    obtain rfl := eq_of_canReturn_pure hout
    simp
  | cons o os ih =>
    rcases Build.cases_of_canReturn_assemble hout with
      ⟨location, rest, hnil, hl, hrest, rfl⟩ | ⟨resolved, rest, hne, hres, hrest, rfl⟩
    · obtain ⟨hm, hr⟩ := ih hrest
      have hnil : fieldsOf r kept o = [] := by rw [fieldsOf_eq, hnil, List.map_nil]
      have hl : (r.locate (.object o)).run = location := hl
      refine ⟨fun x => by simp [hm, hnil], ?_⟩
      simp [hr, hnil, objectReport, hl, ObjectDeclaration.ident_eq]
    · obtain ⟨hm, hr⟩ := ih hrest
      have hres : resolved = fieldsOf r kept o := by
        have hf : List.Forall₂ (fun f g => typedField r o f = g) (kept.filter (ident · = ident o)) resolved :=
          hres.imp fun f g h => run_resolveField.symm.trans h
        rw [fieldsOf_eq]
        exact (List.forall₂_eq_eq_eq ▸ List.forall₂_map_left_iff.2 hf).symm
      have hne : fieldsOf r kept o ≠ [] := by
        rw [fieldsOf_eq]
        exact mt List.map_eq_nil_iff.1 hne
      exact ⟨fun x => by simp [hm, hres, hne], by simp [hr, hne]⟩

theorem obeys_build (r : Resolver Id) (objects : List ObjectDeclaration)
    (fields : List FieldDeclaration) : Obeys r objects fields (build r objects fields).run := by
  obtain ⟨accepted, kept, assembled, ha, hk, hs, e⟩ :=
    exists_of_canReturn_build (r := r) (b := (build r objects fields).run) rfl
  have hcover : Covers r ∅ [] := fun _ => by simp [Index.contains_iff]
  have hrecall : Recalls r accepted.1 [] [] := fun _ => by simp
  obtain ⟨hm, hobjects⟩ := of_canReturn_acceptObjects hcover ha
  rw [← judge_eq_judgeAfter] at hm hobjects
  have hm : ∀ o, o ∈ accepted.1.toList ↔ o ∈ acceptedObjects r objects := fun o =>
    (hm o).trans (or_iff_right List.not_mem_nil)
  obtain ⟨hkept, hfields⟩ := of_canReturn_acceptFields hm hrecall hk
  rw [← judge_eq_judgeAfter] at hkept hfields
  have hkept : kept.1 = acceptedFields r objects fields := hkept
  obtain ⟨hmem, hdropped⟩ := of_canReturn_assemble hs
  rw [e]
  constructor
  · intro x
    rw [Build.toList_ofList_of_canReturn_assemble hs, hmem, hkept]
    simp only [hm]
  · refine ⟨⟨accepted.1.toList.filter (fieldsOf r kept.1 · = []), accepted.1.sorted.filter _⟩, ?_, ?_⟩
    · intro o
      simp [hm, hkept]
    · rw [hobjects, hfields, hdropped]
      rfl

end

/-- With a resolver that keeps its answers, a build is what the rules say and nothing else. -/
theorem run_build_eq_iff (r : Resolver Id) (objects : List ObjectDeclaration)
    (fields : List FieldDeclaration) (b : Built) :
    (build r objects fields).run = b ↔ Obeys r objects fields b := by
  constructor
  · rintro rfl
    exact obeys_build r objects fields
  · intro h
    exact (obeys_build r objects fields).unique h

end Soql.RuleTable
