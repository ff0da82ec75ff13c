import Soql.Proofs.Lookups
import Soql.Proofs.QueryShape

/-!
# Members that are lost on the way

A resolver that loses members after so many questions about setters, against the one that keeps its
answers. The number of questions is the number of fields whose member is found (`Build.asks`), since
a field that is rejected for any other reason has had its setter looked at first. So up to the last of
them both resolvers have said the same; the fields after it have no member to lose
(`Build.run_acceptFields_losingAll`), and a report asks only where a declaration stands. What is left
of the build asks for each member once more and loses the types (`Build.run_assemble_losingAll`). Main
statement: `build_of_lost_members`.
-/

namespace Soql

theorem StateM.run_bind_of_run {σ α β : Type} {x : StateM σ α} {f : α → StateM σ β} {s s' : σ} {a : α}
    (h : x.run s = (a, s')) : (x >>= f).run s = (f a).run s' := by
  rw [StateT.run_bind, h]
  rfl

/-- The field without a type, if its member is lost. -/
def Field.lose (lost : String → Bool) (f : Field) : Field :=
  if lost f.property then { f with type := none } else f

def Object.lose (lost : String → Bool) (o : Object) : Object :=
  { o with fields := o.fields.map (Field.lose lost) }

namespace Resolver
variable (r : Resolver Id) (lost : String → Bool) (n k : Nat)

theorem run_resolveType_losingAll (c : String) :
    ((r.losingAll lost n).resolveType c).run k = ((r.resolveType c).run, k) := rfl

theorem run_resolveMember_losingAll (c p : String) :
    ((r.losingAll lost n).resolveMember c p).run k =
      (if n ≤ k ∧ lost p = true then none else (r.resolveMember c p).run, k) := by
  unfold losingAll
  simp only [StateT.run_bind, StateT.run_get, Bool.and_eq_true, decide_eq_true_eq]
  show (StateT.run (if n ≤ k ∧ lost p = true then _ else _) k) = _
  split <;> rfl

end Resolver

/-! ### Objects -/

namespace Build
variable {r : Resolver Id} {lost : String → Bool} {n k : Nat} {accepted : Index ObjectDeclaration}
  {before : List FieldDeclaration}

theorem run_isConstructible_losingAll (c : String) :
    (isConstructible (r.losingAll lost n) c).run k = ((isConstructible r c).run, k) := by
  unfold isConstructible
  rw [StateM.run_bind_of_run (r.run_resolveType_losingAll lost n k c), Id.run_bind]
  cases (r.resolveType c).run <;> rfl

theorem run_objectFault_losingAll (o : ObjectDeclaration) :
    (objectFault (r.losingAll lost n) accepted o).run k = ((objectFault r accepted o).run, k) := by
  unfold objectFault
  rw [StateM.run_bind_of_run (run_isConstructible_losingAll _), Id.run_bind]
  cases (isConstructible r o.className).run <;> rfl

theorem run_acceptObjects_losingAll (os : List ObjectDeclaration) :
    (acceptObjects (r.losingAll lost n) accepted os).run k = ((acceptObjects r accepted os).run, k) := by
  induction os generalizing accepted with
  | nil => rfl
  | cons o os ih =>
    unfold acceptObjects
    rw [StateM.run_bind_of_run (run_objectFault_losingAll _), Id.run_bind]
    cases (objectFault r accepted o).run with
    | none => exact ih
    | some fault =>
      have hl : ((r.losingAll lost n).locate (.object o)).run k = ((r.locate (.object o)).run, k) := rfl
      show StateT.run ((r.losingAll lost n).locate (.object o) >>= _) k = _
      rw [StateM.run_bind_of_run hl, StateM.run_bind_of_run ih]
      rfl

/-! ### Fields -/

/-- The member behind the field is found, and so its setter is asked for. -/
def asks (r : Resolver Id) (f : FieldDeclaration) : Bool :=
  (r.resolveMember f.className f.propertyName).run.isSome

theorem run_isWritable_losingAll (f : FieldDeclaration) (h : asks r f = true → k < n) :
    (isWritable (r.losingAll lost n) f).run k =
      ((isWritable r f).run, k + if asks r f then 1 else 0) := by
  have hm := r.run_resolveMember_losingAll lost n k f.className f.propertyName
  unfold isWritable
  rw [Id.run_bind]
  cases hr : (r.resolveMember f.className f.propertyName).run with
  | none =>
    have ha : asks r f = false := by simp [asks, hr]
    rw [hr, ite_self] at hm
    rw [StateM.run_bind_of_run hm, ha]
    rfl
  | some handle =>
    have ha : asks r f = true := by simp [asks, hr]
    have hk : ¬ (n ≤ k ∧ lost f.propertyName = true) := by
      have := h ha
      omega
    rw [if_neg hk, hr] at hm
    rw [StateM.run_bind_of_run hm, ha]
    rfl

theorem run_fieldFault_losingAll (f : FieldDeclaration) (h : asks r f = true → k < n) :
    (fieldFault (r.losingAll lost n) accepted before f).run k =
      ((fieldFault r accepted before f).run, k + if asks r f then 1 else 0) := by
  unfold fieldFault
  rw [StateM.run_bind_of_run (run_isWritable_losingAll f h), Id.run_bind]
  cases (isWritable r f).run <;> rfl

theorem run_acceptFields_losingAll (fs : List FieldDeclaration) (h : k + fs.countP (asks r) ≤ n) :
    (acceptFields (r.losingAll lost n) accepted before fs).run k =
      ((acceptFields r accepted before fs).run, k + fs.countP (asks r)) := by
  induction fs generalizing k before with
  | nil => rfl
  | cons f fs ih =>
    rw [List.countP_cons] at h ⊢
    have hf : asks r f = true → k < n := by
      intro ha
      rw [if_pos ha] at h
      omega
    have ih : ∀ before, (acceptFields (r.losingAll lost n) accepted before fs).run
        (k + if asks r f then 1 else 0) =
          ((acceptFields r accepted before fs).run, k + (fs.countP (asks r) + if asks r f then 1 else 0)) := by
      intro before
      rw [ih (by omega)]
      congr 1
      omega
    unfold acceptFields
    rw [StateM.run_bind_of_run (run_fieldFault_losingAll f hf), Id.run_bind]
    cases (fieldFault r accepted before f).run with
    | none =>
      show StateT.run (acceptFields (r.losingAll lost n) accepted (f :: before) fs >>= _) _ = _
      rw [StateM.run_bind_of_run (ih _)]
      rfl
    | some fault =>
      have hl : ∀ j, ((r.losingAll lost n).locate (.field f)).run j = ((r.locate (.field f)).run, j) :=
        fun _ => rfl
      show StateT.run ((r.losingAll lost n).locate (.field f) >>= _) _ = _
      rw [StateM.run_bind_of_run (hl _), StateM.run_bind_of_run (ih _)]
      rfl

/-! ### Putting together -/

theorem run_resolveField_losingAll (o : ObjectDeclaration) (f : FieldDeclaration) :
    (resolveField (r.losingAll lost n) o f).run n = ((resolveField r o f).run.lose lost, n) := by
  have hm := r.run_resolveMember_losingAll lost n n f.className f.propertyName
  rw [RuleTable.run_resolveField, Field.lose]
  unfold resolveField RuleTable.typedField
  by_cases hp : lost f.propertyName = true
  · rw [if_pos ⟨Nat.le_refl n, hp⟩] at hm
    rw [StateM.run_bind_of_run hm, if_pos hp]
    rfl
  · rw [if_neg fun h => hp h.2] at hm
    rw [StateM.run_bind_of_run hm, if_neg hp]
    cases (r.resolveMember f.className f.propertyName).run <;> rfl

theorem run_mapM_resolveField_losingAll (o : ObjectDeclaration) (fs : List FieldDeclaration) :
    (fs.mapM (resolveField (r.losingAll lost n) o)).run n =
      ((fs.mapM (resolveField r o)).run.map (Field.lose lost), n) := by
  induction fs with
  | nil => rfl
  | cons f fs ih =>
    rw [List.mapM_cons, List.mapM_cons, StateM.run_bind_of_run (run_resolveField_losingAll o f),
      StateM.run_bind_of_run ih]
    rfl

theorem run_assemble_losingAll (kept : List FieldDeclaration) (os : List ObjectDeclaration) :
    (assemble (r.losingAll lost n) kept os).run n =
      (((assemble r kept os).run.1.map (Object.lose lost), (assemble r kept os).run.2), n) := by
  induction os with
  | nil => rfl
  | cons o os ih =>
    unfold assemble
    cases hown : kept.filter (ident · = ident o) with
    | nil =>
      have hl : ((r.losingAll lost n).locate (.object o)).run n = ((r.locate (.object o)).run, n) := rfl
      show StateT.run ((r.losingAll lost n).locate (.object o) >>= _) n = _
      rw [StateM.run_bind_of_run hl, StateM.run_bind_of_run ih]
      rfl
    | cons f fs =>
      show StateT.run ((f :: fs).mapM (resolveField (r.losingAll lost n) o) >>= _) n = _
      rw [StateM.run_bind_of_run (run_mapM_resolveField_losingAll o _), StateM.run_bind_of_run ih]
      rfl

end Build

/-! ### The schema -/

variable {r : Resolver Id} {lost : String → Bool} {objects : List ObjectDeclaration}
  {fields : List FieldDeclaration}

theorem Object.ident_lose (o : Object) : ident (o.lose lost) = ident o := rfl

def Built.lose (lost : String → Bool) (b : Built) : Built :=
  { b with schema := b.schema.map (Object.lose lost) Object.ident_lose }

theorem run_build_losingAll :
    (build (r.losingAll lost (fields.countP (Build.asks r))) objects fields).run 0 =
      ((build r objects fields).run.lose lost, fields.countP (Build.asks r)) := by
  have hf : ∀ accepted, (Build.acceptFields (r.losingAll lost (fields.countP (Build.asks r))) accepted []
      fields).run 0 = ((Build.acceptFields r accepted [] fields).run, fields.countP (Build.asks r)) := by
    intro accepted
    rw [Build.run_acceptFields_losingAll fields (Nat.le_of_eq (Nat.zero_add _)), Nat.zero_add]
  unfold build
  rw [StateM.run_bind_of_run (Build.run_acceptObjects_losingAll objects), StateM.run_bind_of_run (hf _),
    StateM.run_bind_of_run (Build.run_assemble_losingAll ..)]
  show (Built.mk (.ofList (List.map _ _)) _, _) = _
  rw [Index.ofList_map Object.ident_lose]
  rfl

theorem Resolver.counting_eq (r : Resolver Id) (n : Nat) : r.counting = r.losingAll (fun _ => false) n := by
  have h : (r.losingAll (fun _ => false) n).resolveMember = r.counting.resolveMember := by
    funext c p
    refine StateT.ext fun k => ?_
    rw [run_resolveMember_losingAll, if_neg (by simp)]
    rfl
  show _ = { r.counting with resolveMember := (r.losingAll (fun _ => false) n).resolveMember }
  rw [h]

theorem Built.lose_of_forall (h : ∀ p, lost p = false) (b : Built) : b.lose lost = b := by
  have hf : Field.lose lost = id := funext fun f => by simp [Field.lose, h]
  have ho : Object.lose lost = id := funext fun o => by rw [Object.lose, hf, List.map_id]; rfl
  have hs : b.schema.map (Object.lose lost) Object.ident_lose = b.schema := by
    refine Index.ext ?_
    show b.schema.toList.map (Object.lose lost) = b.schema.toList
    rw [ho, List.map_id]
  rw [Built.lose, hs]

/-- Counting does not change what is built. -/
theorem run_build_counting : (build r.counting objects fields).run 0 =
    ((build r objects fields).run, fields.countP (Build.asks r)) := by
  rw [r.counting_eq, run_build_losingAll, Built.lose_of_forall fun _ => rfl]

/-- A field without a type refers to what an `object` would be. -/
theorem Schema.target?_of_type_none {s : Schema} {key : String} {f : Field} (hf : f.type = none)
    (h : s.contains ⟨"object", key⟩ = false) : s.target? key f = none := by
  have ht : f.targetClass = "object" := by
    simp only [Field.targetClass, Field.elementType, Field.typeName, hf]
    decide +kernel
  rw [Schema.target?, ht]
  simpa [Index.contains] using h

/-- Count the questions about setters while the resolver keeps its answers, and then build with one
that loses some members once so many of them have been asked. The reports are the same, and so are the
objects and their fields, but that just the lost ones have no type. Those are listed by their own
names, and their plans have no nested target, unless a class `object` is in the schema. -/
theorem build_of_lost_members (r : Resolver Id) (objects : List ObjectDeclaration)
    (fields : List FieldDeclaration) (lost : String → Bool) {b : Built} {n : Nat}
    (hb : (build r.counting objects fields).run 0 = (b, n)) :
    (build r objects fields).run = b ∧
    ∃ b', (build (r.losingAll lost n) objects fields).run 0 = (b', n) ∧
      b'.diagnostics = b.diagnostics ∧
      b'.schema.toList = b.schema.toList.map (Object.lose lost) ∧
      (∀ o ∈ b'.schema.toList, ∀ f ∈ o.fields, f.isResolved = false ↔ lost f.property = true) ∧
      (∀ o ∈ b'.schema.toList, b'.schema.contains ⟨"object", o.key⟩ = false →
        ∀ f ∈ o.fields, lost f.property = true →
          b'.schema.plainField b'.schema.plainPaths o.key f = [f.name] ∧
          (b'.schema.fieldPlan o.key f).nested = none) ∧
      ∀ memo, b'.schema.Reached memo → ∀ o ∈ b'.schema.toList, ∀ active paths,
        (b'.schema.project o ⟨active, memo⟩).1 = .ok (some paths) →
          paths = o.fields.flatMap (b'.schema.plainField b'.schema.plainPaths o.key) := by
  obtain ⟨rfl, rfl⟩ := Prod.mk.inj (run_build_counting.symm.trans hb)
  have hresolved : ∀ o ∈ ((build r objects fields).run.lose lost).schema.toList, ∀ f ∈ o.fields,
      f.isResolved = false ↔ lost f.property = true := by
    intro o ho f hf
    obtain ⟨p, hp, rfl⟩ := List.mem_map.1 ho
    obtain ⟨g, hg, rfl⟩ := List.mem_map.1 hf
    obtain ⟨_, -, htype, -⟩ := (RuleTable.obeys_build r objects fields).exists_member hp hg
    by_cases hl : lost g.property = true <;> simp [Field.lose, Field.isResolved, hl, htype]
  refine ⟨rfl, _, run_build_losingAll, rfl, rfl, hresolved, fun o ho hobject f hf hp => ?_,
    fun memo hm o ho active paths h => ?_⟩
  · have htype : f.type = none := by simpa [Field.isResolved] using (hresolved o ho f hf).2 hp
    have ht := Schema.target?_of_type_none htype hobject
    exact ⟨Schema.plainField_of_none ht, by rw [Schema.fieldPlan, ht]; rfl⟩
  · obtain ⟨ha, he⟩ := (Schema.sound_project hm.sound ho active).2 _ h
    rw [← Schema.plainPaths_eq ha, (Schema.plain?_eq_some_iff.1 he.symm).2]

open Schema in
/-- The owner of accounts is lost after the third and last question. -/
theorem build_of_lost_members_ownedContacts :
    let r := ownedContacts.resolver
    let objects := ownedContacts.objectDeclarations .strict
    let fields := ownedContacts.fieldDeclarations
    (build r.counting objects fields).run 0 = (ownedContactsBuilt, 3) ∧
      ∃ b', (build (r.losingAll (· = "Owner") 3) objects fields).run 0 = (b', 3) ∧
        b'.diagnostics = ownedContactsBuilt.diagnostics ∧
        b'.schema.toList = ownedContactsBuilt.schema.toList.map (Object.lose (· = "Owner")) ∧
        ∃ o f, o ∈ b'.schema.toList ∧ f ∈ o.fields ∧ f.isResolved = false ∧
          b'.schema.plainField b'.schema.plainPaths o.key f = ["Owner"] ∧
          (b'.schema.fieldPlan o.key f).nested = none := by
  intro r objects fields
  have hn : fields.countP (Build.asks r) = 3 := by decide +kernel
  have hb : (build r.counting objects fields).run 0 = (ownedContactsBuilt, 3) :=
    run_build_counting.trans (congrArg (ownedContactsBuilt, ·) hn)
  obtain ⟨-, b', hrun, hd, hs, hresolved, hbare, -⟩ := build_of_lost_members r objects fields (· = "Owner") hb
  let o : Object := ⟨"Account", "App.Account", "K", false, .strict, [⟨"Owner", "Owner", none, .strict⟩]⟩
  let f : Field := ⟨"Owner", "Owner", none, .strict⟩
  have ho : o ∈ b'.schema.toList := by
    rw [hs]
    decide +kernel
  have hobject : b'.schema.contains ⟨"object", "K"⟩ = false := by
    rw [Index.contains, Index.get?, hs]
    decide +kernel
  obtain ⟨hp, hnested⟩ := hbare o ho hobject f (List.mem_singleton.2 rfl) (by decide)
  exact ⟨hb, b', hrun, hd, hs, o, f, ho, List.mem_singleton.2 rfl, rfl, hp, hnested⟩

end Soql
