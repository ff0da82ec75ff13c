import Mathlib.Data.List.Forall2
import Soql.Schema.Build

/-!
# What a build can return

A resolver may change its answers from question to question, so a statement about every build is one
about every value that the build can return, in whatever monad the resolver lives. Each step of
`build` has its inversion here; main statement: every object of a built schema has fields
(`fields_ne_nil_of_build`).
-/

open MonadAttach LawfulMonadAttach

namespace Soql

variable {m : Type → Type} [Monad m] [LawfulMonad m] [MonadAttach m] [LawfulMonadAttach m]

theorem forall₂_of_canReturn_mapM {α β : Type} {f : α → m β} {l : List α} {bs : List β}
    (h : CanReturn (l.mapM f) bs) : List.Forall₂ (fun a b => CanReturn (f a) b) l bs := by
  induction l generalizing bs with
  | nil =>
    rw [List.mapM_nil] at h
    obtain rfl := eq_of_canReturn_pure h
    exact .nil
  | cons a l ih =>
    rw [List.mapM_cons] at h
    obtain ⟨b, hb, h⟩ := canReturn_bind_imp' h
    obtain ⟨bs', hbs, h⟩ := canReturn_bind_imp' h
    obtain rfl := eq_of_canReturn_pure h
    exact .cons hb (ih hbs)

/-- Rules that are tried one after the other say nothing if none of them applies. -/
theorem rule_eq_none_iff {φ : Type} {c : Prop} [Decidable c] {fault : φ} {rest : Option φ} :
    (if c then some fault else rest) = none ↔ ¬ c ∧ rest = none := by
  by_cases hc : c <;> simp [hc]

namespace Build
variable {r : Resolver m} {accepted : Index ObjectDeclaration} {before fields : List FieldDeclaration}
  {os : List ObjectDeclaration}

theorem exists_of_canReturn_objectFault {o : ObjectDeclaration} {fault : Option ObjectFault}
    (h : CanReturn (objectFault r accepted o) fault) :
    ∃ c, CanReturn (isConstructible r o.className) c ∧
      fault = if c then (if accepted.contains (ident o) then some .duplicate else none)
        else some .noConstructor := by
  rw [objectFault] at h
  obtain ⟨c, hc, h⟩ := canReturn_bind_imp' h
  refine ⟨c, hc, ?_⟩
  cases c <;> exact (eq_of_canReturn_pure h).symm

theorem cases_of_canReturn_acceptObjects {o : ObjectDeclaration} {os : List ObjectDeclaration}
    {out : Index ObjectDeclaration × List Diagnostic}
    (h : CanReturn (acceptObjects r accepted (o :: os)) out) :
    CanReturn (objectFault r accepted o) none ∧
        CanReturn (acceptObjects r (accepted.insert o) os) out ∨
      ∃ fault location rest, CanReturn (objectFault r accepted o) (some fault) ∧
        CanReturn (r.locate (.object o)) location ∧ CanReturn (acceptObjects r accepted os) rest ∧
        out = (rest.1, .ofObject fault o.objectName (ident o) location :: rest.2) := by
  rw [acceptObjects] at h
  obtain ⟨fault, hf, h⟩ := canReturn_bind_imp' h
  cases fault with
  | none => exact .inl ⟨hf, h⟩
  | some fault =>
    obtain ⟨location, hl, h⟩ := canReturn_bind_imp' h
    obtain ⟨rest, hrest, h⟩ := canReturn_bind_imp' h
    exact .inr ⟨fault, location, rest, hf, hl, hrest, (eq_of_canReturn_pure h).symm⟩

theorem exists_of_canReturn_fieldFault {f : FieldDeclaration} {fault : Option FieldFault}
    (h : CanReturn (fieldFault r accepted before f) fault) :
    ∃ w, CanReturn (isWritable r f) w ∧
      fault = if w then
          (if !accepted.toList.any (·.className = f.className) then some .noObject
          else if !accepted.contains (ident f) then some .unknownKey
          else if before.any (clash f) then some .duplicate
          else none)
        else some .notWritable := by
  rw [fieldFault] at h
  obtain ⟨w, hw, h⟩ := canReturn_bind_imp' h
  refine ⟨w, hw, ?_⟩
  cases w <;> exact (eq_of_canReturn_pure h).symm

theorem cases_of_canReturn_acceptFields {f : FieldDeclaration} {fs : List FieldDeclaration}
    {out : List FieldDeclaration × List Diagnostic}
    (h : CanReturn (acceptFields r accepted before (f :: fs)) out) :
    (∃ rest, CanReturn (fieldFault r accepted before f) none ∧
        CanReturn (acceptFields r accepted (f :: before) fs) rest ∧ out = (f :: rest.1, rest.2)) ∨
      ∃ fault location rest, CanReturn (fieldFault r accepted before f) (some fault) ∧
        CanReturn (r.locate (.field f)) location ∧ CanReturn (acceptFields r accepted before fs) rest ∧
        out = (rest.1, .ofField fault f location :: rest.2) := by
  rw [acceptFields] at h
  obtain ⟨fault, hf, h⟩ := canReturn_bind_imp' h
  cases fault with
  | none =>
    obtain ⟨rest, hrest, h⟩ := canReturn_bind_imp' h
    exact .inl ⟨rest, hf, hrest, (eq_of_canReturn_pure h).symm⟩
  | some fault =>
    obtain ⟨location, hl, h⟩ := canReturn_bind_imp' h
    obtain ⟨rest, hrest, h⟩ := canReturn_bind_imp' h
    exact .inr ⟨fault, location, rest, hf, hl, hrest, (eq_of_canReturn_pure h).symm⟩

theorem exists_of_canReturn_resolveField {owner : ObjectDeclaration} {f : FieldDeclaration} {g : Field}
    (h : CanReturn (resolveField r owner f) g) :
    ∃ type, g = ⟨f.fieldName, f.propertyName, type, f.typeHandling.getD owner.typeHandling⟩ := by
  rw [resolveField] at h
  obtain ⟨member, -, h⟩ := canReturn_bind_imp' h
  cases member with
  | none =>
    obtain ⟨type, -, h⟩ := canReturn_bind_imp' h
    exact ⟨type, (eq_of_canReturn_pure h).symm⟩
  | some member =>
    obtain ⟨type, -, h⟩ := canReturn_bind_imp' h
    exact ⟨type, (eq_of_canReturn_pure h).symm⟩

theorem cases_of_canReturn_assemble {o : ObjectDeclaration} {os : List ObjectDeclaration}
    {out : List Object × List Diagnostic} (h : CanReturn (assemble r fields (o :: os)) out) :
    (∃ location rest, fields.filter (ident · = ident o) = [] ∧
        CanReturn (r.locate (.object o)) location ∧ CanReturn (assemble r fields os) rest ∧
        out = (rest.1, .ofObject .noFields o.objectName (ident o) location :: rest.2)) ∨
      ∃ resolved rest, fields.filter (ident · = ident o) ≠ [] ∧
        List.Forall₂ (fun f g => CanReturn (resolveField r o f) g)
          (fields.filter (ident · = ident o)) resolved ∧
        CanReturn (assemble r fields os) rest ∧ out = (.ofDeclaration o resolved :: rest.1, rest.2) := by
  rw [assemble] at h
  split at h
  · rename_i hown
    obtain ⟨location, hl, h⟩ := canReturn_bind_imp' h
    obtain ⟨rest, hrest, h⟩ := canReturn_bind_imp' h
    exact .inl ⟨location, rest, hown, hl, hrest, (eq_of_canReturn_pure h).symm⟩
  · rename_i hown
    obtain ⟨resolved, hr, h⟩ := canReturn_bind_imp' h
    obtain ⟨rest, hrest, h⟩ := canReturn_bind_imp' h
    exact .inr ⟨resolved, rest, hown, forall₂_of_canReturn_mapM hr, hrest, (eq_of_canReturn_pure h).symm⟩

/-- An object is put together from an accepted declaration and one field for each of its own, of
which there is one at least. -/
theorem mem_of_canReturn_assemble {out : List Object × List Diagnostic}
    (h : CanReturn (assemble r fields os) out) {x : Object} (hx : x ∈ out.1) :
    ∃ o ∈ os, ∃ resolved, x = .ofDeclaration o resolved ∧
      fields.filter (ident · = ident o) ≠ [] ∧
      List.Forall₂ (fun f g => CanReturn (resolveField r o f) g)
        (fields.filter (ident · = ident o)) resolved := by
  induction os generalizing out with
  | nil =>
    rw [assemble] at h
    obtain rfl := eq_of_canReturn_pure h
    cases hx
  | cons o os ih =>
    rcases cases_of_canReturn_assemble h with
      ⟨_, rest, -, -, hrest, rfl⟩ | ⟨resolved, rest, hown, hr, hrest, rfl⟩
    · obtain ⟨p, hp, hx⟩ := ih hrest hx
      exact ⟨p, List.mem_cons_of_mem _ hp, hx⟩
    · rcases List.mem_cons.1 hx with rfl | hx
      · exact ⟨o, List.mem_cons_self .., resolved, rfl, hown, hr⟩
      · obtain ⟨p, hp, hx⟩ := ih hrest hx
        exact ⟨p, List.mem_cons_of_mem _ hp, hx⟩

theorem fields_ne_nil_of_assemble {out : List Object × List Diagnostic}
    (h : CanReturn (assemble r fields os) out) {x : Object} (hx : x ∈ out.1) : x.fields ≠ [] := by
  obtain ⟨o, -, resolved, rfl, hown, hr⟩ := mem_of_canReturn_assemble h hx
  intro e
  cases (show resolved = [] from e)
  exact hown (List.forall₂_nil_right_iff.1 hr)

theorem sublist_of_canReturn_assemble {out : List Object × List Diagnostic}
    (h : CanReturn (assemble r fields os) out) : (out.1.map ident).Sublist (os.map ident) := by
  induction os generalizing out with
  | nil =>
    rw [assemble] at h
    obtain rfl := eq_of_canReturn_pure h
    exact .slnil
  | cons o os ih =>
    rcases cases_of_canReturn_assemble h with ⟨_, rest, -, -, hrest, rfl⟩ | ⟨_, rest, -, -, hrest, rfl⟩
    · exact (ih hrest).cons _
    · exact (ih hrest).cons_cons _

/-- Objects are put together in the order of their identities, and a schema keeps that order. -/
theorem toList_ofList_of_canReturn_assemble {out : List Object × List Diagnostic}
    (h : CanReturn (assemble r fields accepted.toList) out) : (Index.ofList out.1).toList = out.1 := by
  have hs : (accepted.toList.map ident).Pairwise (· < ·) := List.pairwise_map.2 accepted.sorted
  exact Index.toList_ofList (List.pairwise_map.1 (hs.sublist (sublist_of_canReturn_assemble h)))

end Build

theorem exists_of_canReturn_build {r : Resolver m} {objects : List ObjectDeclaration}
    {fields : List FieldDeclaration} {b : Built} (h : CanReturn (build r objects fields) b) :
    ∃ accepted kept assembled, CanReturn (Build.acceptObjects r ∅ objects) accepted ∧
      CanReturn (Build.acceptFields r accepted.1 [] fields) kept ∧
      CanReturn (Build.assemble r kept.1 accepted.1.toList) assembled ∧
      b = ⟨.ofList assembled.1, accepted.2 ++ kept.2 ++ assembled.2⟩ := by
  rw [build] at h
  obtain ⟨accepted, ha, h⟩ := canReturn_bind_imp' h
  obtain ⟨kept, hk, h⟩ := canReturn_bind_imp' h
  obtain ⟨assembled, hs, h⟩ := canReturn_bind_imp' h
  exact ⟨accepted, kept, assembled, ha, hk, hs, (eq_of_canReturn_pure h).symm⟩

theorem fields_ne_nil_of_build {r : Resolver m} {objects : List ObjectDeclaration}
    {fields : List FieldDeclaration} {b : Built} (h : CanReturn (build r objects fields) b)
    {o : Object} (ho : o ∈ b.schema.toList) : o.fields ≠ [] := by
  obtain ⟨_, _, _, -, -, hs, rfl⟩ := exists_of_canReturn_build h
  rw [Build.toList_ofList_of_canReturn_assemble hs] at ho
  exact Build.fields_ne_nil_of_assemble hs ho

end Soql
