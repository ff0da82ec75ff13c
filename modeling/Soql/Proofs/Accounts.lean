import Soql.Proofs.Answers
import Soql.Run

/-!
# No declaration is lost

A declaration leaves a build by one exit only: into the schema, or into one report. Each pass keeps
count (`size_of_canReturn_acceptObjects`, `length_of_canReturn_acceptFields`,
`length_of_canReturn_assemble`), and the accepted fields all find the one object that they were
accepted for (`perm_flatMap_filter`). None of this leans on the resolver, which may answer the same
question in two ways. Main statement: `build_accounts_for_declarations`.
-/

open MonadAttach LawfulMonadAttach

namespace Soql

def DiagnosticKind.isObject : DiagnosticKind → Bool
  | .object _ => true
  | .field _ => false

section
variable {ds : List Diagnostic}

theorem countP_of_object (h : ∀ d ∈ ds, d.kind.isObject = true) :
    ds.countP (·.kind.isObject) = ds.length ∧ ds.countP (!·.kind.isObject) = 0 :=
  ⟨List.countP_eq_length.2 h, List.countP_eq_zero.2 fun d hd => by simp [h d hd]⟩

theorem countP_of_field (h : ∀ d ∈ ds, d.kind.isObject = false) :
    ds.countP (·.kind.isObject) = 0 ∧ ds.countP (!·.kind.isObject) = ds.length :=
  ⟨List.countP_eq_zero.2 fun d hd => by simp [h d hd], List.countP_eq_length.2 fun d hd => by simp [h d hd]⟩

end

variable {m : Type → Type} [Monad m] [LawfulMonad m] [MonadAttach m] [LawfulMonadAttach m]

namespace Build
variable {r : Resolver m} {accepted : Index ObjectDeclaration} {o : ObjectDeclaration}
  {os : List ObjectDeclaration} {f : FieldDeclaration} {before kept fs : List FieldDeclaration}

/-! ### Objects -/

theorem not_contains_of_canReturn_objectFault (h : CanReturn (objectFault r accepted o) none) :
    ¬ accepted.contains (ident o) = true := by
  obtain ⟨c, -, h⟩ := exists_of_canReturn_objectFault h
  intro hc
  cases c <;> simp [hc] at h

theorem size_of_canReturn_acceptObjects {out : Index ObjectDeclaration × List Diagnostic}
    (h : CanReturn (acceptObjects r accepted os) out) :
    out.1.size + out.2.length = accepted.size + os.length ∧ ∀ d ∈ out.2, d.kind.isObject = true := by
  induction os generalizing accepted out with
  | nil =>
    rw [acceptObjects] at h
    obtain rfl := eq_of_canReturn_pure h
    simp
  | cons o os ih =>
    rcases cases_of_canReturn_acceptObjects h with ⟨hf, hrest⟩ | ⟨fault, _, rest, -, -, hrest, rfl⟩
    · obtain ⟨hn, hd⟩ := ih hrest
      have hs := Index.size_insert (not_contains_of_canReturn_objectFault hf)
      refine ⟨?_, hd⟩
      rw [hn, hs, List.length_cons]
      omega
    · obtain ⟨hn, hd⟩ := ih hrest
      refine ⟨?_, List.forall_mem_cons.2 ⟨rfl, hd⟩⟩
      simp only [List.length_cons]
      omega

/-! ### Fields -/

theorem of_canReturn_fieldFault (h : CanReturn (fieldFault r accepted before f) none) :
    accepted.contains (ident f) = true ∧ ∀ g ∈ before, ¬ clash f g = true := by
  obtain ⟨w, -, h⟩ := exists_of_canReturn_fieldFault h
  cases w with
  | false => cases h
  | true =>
    rw [if_pos rfl] at h
    obtain ⟨-, h⟩ := rule_eq_none_iff.1 h.symm
    obtain ⟨hc, h⟩ := rule_eq_none_iff.1 h
    obtain ⟨hb, -⟩ := rule_eq_none_iff.1 h
    exact ⟨by simpa using hc, fun g hg hfg => hb (List.any_eq_true.2 ⟨g, hg, hfg⟩)⟩

theorem length_of_canReturn_acceptFields {out : List FieldDeclaration × List Diagnostic}
    (h : CanReturn (acceptFields r accepted before fs) out) :
    out.1.length + out.2.length = fs.length ∧ ∀ d ∈ out.2, d.kind.isObject = false := by
  induction fs generalizing before out with
  | nil =>
    rw [acceptFields] at h
    obtain rfl := eq_of_canReturn_pure h
    simp
  | cons f fs ih =>
    rcases cases_of_canReturn_acceptFields h with
      ⟨rest, -, hrest, rfl⟩ | ⟨fault, _, rest, -, -, hrest, rfl⟩
    · obtain ⟨hn, hd⟩ := ih hrest
      refine ⟨?_, hd⟩
      simp only [List.length_cons]
      omega
    · obtain ⟨hn, hd⟩ := ih hrest
      refine ⟨?_, List.forall_mem_cons.2 ⟨rfl, hd⟩⟩
      simp only [List.length_cons]
      omega

/-- Accepted fields have an object, and do not clash with those accepted before or among themselves. -/
theorem kept_of_canReturn_acceptFields {out : List FieldDeclaration × List Diagnostic}
    (h : CanReturn (acceptFields r accepted before fs) out) :
    (∀ f ∈ out.1, accepted.contains (ident f) = true ∧ ∀ g ∈ before, ¬ clash f g = true) ∧
      out.1.Pairwise fun g f => ¬ clash f g = true := by
  induction fs generalizing before out with
  | nil =>
    rw [acceptFields] at h
    obtain rfl := eq_of_canReturn_pure h
    simp
  | cons f fs ih =>
    rcases cases_of_canReturn_acceptFields h with ⟨rest, hf, hrest, rfl⟩ | ⟨_, _, rest, -, -, hrest, rfl⟩
    · obtain ⟨hm, hp⟩ := ih hrest
      refine ⟨List.forall_mem_cons.2 ⟨of_canReturn_fieldFault hf, fun g hg => ?_⟩, ?_⟩
      · exact ⟨(hm g hg).1, fun x hx => (hm g hg).2 x (List.mem_cons_of_mem _ hx)⟩
      · exact List.pairwise_cons.2 ⟨fun g hg => (hm g hg).2 f (List.mem_cons_self ..), hp⟩
    · obtain ⟨hm, hp⟩ := ih hrest
      exact ⟨hm, hp⟩

/-! ### Putting together -/

theorem length_of_canReturn_assemble {out : List Object × List Diagnostic}
    (h : CanReturn (assemble r kept os) out) :
    out.1.length + out.2.length = os.length ∧ (∀ d ∈ out.2, d.kind.isObject = true) ∧
      (out.1.flatMap (·.fields)).length =
        (os.flatMap fun o => kept.filter (ident · = ident o)).length := by
  induction os generalizing out with
  | nil =>
    rw [assemble] at h
    obtain rfl := eq_of_canReturn_pure h
    simp
  | cons o os ih =>
    rcases cases_of_canReturn_assemble h with
      ⟨_, rest, hown, -, hrest, rfl⟩ | ⟨resolved, rest, -, hres, hrest, rfl⟩
    · obtain ⟨hn, hd, hf⟩ := ih hrest
      refine ⟨?_, List.forall_mem_cons.2 ⟨rfl, hd⟩, ?_⟩
      · simp only [List.length_cons]
        omega
      · rw [hf, List.flatMap_cons, hown, List.nil_append]
    · obtain ⟨hn, hd, hf⟩ := ih hrest
      refine ⟨?_, hd, ?_⟩
      · simp only [List.length_cons]
        omega
      · rw [List.flatMap_cons, List.flatMap_cons, List.length_append, List.length_append, hf,
          hres.length_eq]
        rfl

/-- Fields that each have an object are divided among the objects. -/
theorem perm_flatMap_filter (hs : os.Pairwise (ident · < ident ·))
    (h : ∀ f ∈ kept, ∃ o ∈ os, ident o = ident f) :
    (os.flatMap fun o => kept.filter (ident · = ident o)).Perm kept := by
  induction os generalizing kept with
  | nil =>
    obtain rfl : kept = [] := List.eq_nil_iff_forall_not_mem.2 fun f hf => by simpa using h f hf
    exact .nil
  | cons o os ih =>
    obtain ⟨hlt, hs⟩ := List.pairwise_cons.1 hs
    have hothers : ∀ f ∈ kept.filter (ident · ≠ ident o), ∃ p ∈ os, ident p = ident f := by
      intro f hf
      obtain ⟨hf, hne⟩ := List.mem_filter.1 hf
      obtain ⟨p, hp, e⟩ := h f hf
      rcases List.mem_cons.1 hp with rfl | hp
      · simp [e] at hne
      · exact ⟨p, hp, e⟩
    -- What goes to a later object does not go to the first.
    have hlater : ∀ p ∈ os, kept.filter (ident · = ident p) =
        (kept.filter (ident · ≠ ident o)).filter (ident · = ident p) := by
      intro p hp
      rw [List.filter_filter]
      refine List.filter_congr fun f _ => ?_
      by_cases e : ident f = ident p
      · simp [e, (Ident.ne_of_lt (hlt p hp)).symm]
      · simp [e]
    rw [List.flatMap_cons, List.flatMap_congr hlater]
    have hsplit := List.filter_append_perm (fun f => decide (ident f = ident o)) kept
    simp only [← decide_not] at hsplit
    exact ((ih hs hothers).append_left _).trans hsplit

/-! ### The fields of an object -/

theorem map_of_canReturn_resolveField {own : List FieldDeclaration} {resolved : List Field}
    (h : List.Forall₂ (fun f g => CanReturn (resolveField r o f) g) own resolved) :
    resolved.map (fun g => (g.property, g.name)) = own.map fun f => (f.propertyName, f.fieldName) := by
  induction h with
  | nil => rfl
  | cons hg _ ih =>
    obtain ⟨_, rfl⟩ := exists_of_canReturn_resolveField hg
    rw [List.map_cons, List.map_cons, ih]

theorem nodup_own (h : kept.Pairwise fun g f => ¬ clash f g = true) (i : Ident) :
    ((kept.filter (ident · = i)).map fun f => (f.propertyName, f.fieldName)).Nodup := by
  refine List.pairwise_map.2 (List.Pairwise.imp_of_mem ?_ (h.filter _))
  intro g f hg hf hfg e
  obtain ⟨hp, hn⟩ := Prod.mk.inj e
  have hi : ident f = ident g := by
    rw [of_decide_eq_true (List.mem_filter.1 hg).2, of_decide_eq_true (List.mem_filter.1 hf).2]
  exact hfg (by simp [clash, hi, hp, hn])

end Build

/-- Each declaration is in the schema or in one report; objects stand under their own identity, and
have fields, of which no two have the same member and name. -/
structure Accounts (objects : List ObjectDeclaration) (fields : List FieldDeclaration) (b : Built) :
    Prop where
  objects_eq : b.schema.size + b.diagnostics.countP (·.kind.isObject) = objects.length
  fields_eq : b.schema.fieldCount + b.diagnostics.countP (!·.kind.isObject) = fields.length
  ident_eq : ∀ i o, b.schema.get? i = some o → ident o = i
  fields_ne_nil : ∀ o ∈ b.schema.toList, o.fields ≠ []
  nodup_fields : ∀ o ∈ b.schema.toList, (o.fields.map fun f => (f.property, f.name)).Nodup

theorem Accounts.total {objects : List ObjectDeclaration} {fields : List FieldDeclaration} {b : Built}
    (h : Accounts objects fields b) :
    b.schema.size + b.schema.fieldCount + b.diagnostics.length = objects.length + fields.length := by
  have hlen := List.length_eq_countP_add_countP (fun d : Diagnostic => d.kind.isObject) (l := b.diagnostics)
  have ho := h.objects_eq
  have hf := h.fields_eq
  simp only [Bool.not_eq_true, Bool.decide_eq_false] at hlen
  omega

theorem accounts_of_canReturn_build {r : Resolver m} {objects : List ObjectDeclaration}
    {fields : List FieldDeclaration} {b : Built} (h : CanReturn (build r objects fields) b) :
    Accounts objects fields b := by
  obtain ⟨accepted, kept, assembled, ha, hk, hs, rfl⟩ := exists_of_canReturn_build h
  obtain ⟨hobjects, hobject⟩ := Build.size_of_canReturn_acceptObjects ha
  obtain ⟨hfields, hfield⟩ := Build.length_of_canReturn_acceptFields hk
  obtain ⟨hassembled, hdropped, hcount⟩ := Build.length_of_canReturn_assemble hs
  obtain ⟨hm, hp⟩ := Build.kept_of_canReturn_acceptFields hk
  have hlist := Build.toList_ofList_of_canReturn_assemble hs
  have hperm := Build.perm_flatMap_filter accepted.1.sorted fun f hf => Index.contains_iff.1 (hm f hf).1
  have hsize : (Index.ofList assembled.1).size = assembled.1.length := by rw [Index.size, hlist]
  have hfieldCount : Schema.fieldCount (.ofList assembled.1) = kept.1.length := by
    rw [Schema.fieldCount, hlist, hcount, hperm.length_eq]
  have hempty : (∅ : Index ObjectDeclaration).size = 0 := rfl
  have haccepted : accepted.1.toList.length = accepted.1.size := rfl
  obtain ⟨ho, ho'⟩ := countP_of_object hobject
  obtain ⟨hf, hf'⟩ := countP_of_field hfield
  obtain ⟨hd, hd'⟩ := countP_of_object hdropped
  constructor
  · simp only [List.countP_append, hsize, ho, hf, hd]
    omega
  · simp only [List.countP_append, hfieldCount, ho', hf', hd']
    omega
  · exact fun _ _ => Index.ident_of_get?
  · exact fun o ho => Build.fields_ne_nil_of_assemble hs (hlist ▸ ho)
  · intro o ho
    obtain ⟨p, -, resolved, rfl, -, hres⟩ := Build.mem_of_canReturn_assemble hs (hlist ▸ ho)
    rw [Object.ofDeclaration, Build.map_of_canReturn_resolveField hres]
    exact Build.nodup_own hp _

/-- A build accounts for every declaration, also with a resolver that changes its answers from
question to question. So the numbers of a check add up to the entries of its manifest. -/
theorem build_accounts_for_declarations :
    (∀ {σ : Type} (r : Resolver (StateM σ)) (start : σ) (objects : List ObjectDeclaration)
      (fields : List FieldDeclaration),
      Accounts objects fields ((build r objects fields).run start).1) ∧
    (∀ (manifest : Manifest) (handling : TypeHandling) (path : String),
      ((manifest.build handling).check path).objects + ((manifest.build handling).check path).fields +
          ((manifest.build handling).check path).diagnostics.length =
        manifest.objects.length + manifest.fields.length) := by
  constructor
  · intro σ r start objects fields
    exact accounts_of_canReturn_build (r := r) ⟨start, _, rfl⟩
  · intro manifest handling path
    have h : Accounts (manifest.objectDeclarations handling) manifest.fieldDeclarations
        (manifest.build handling) := accounts_of_canReturn_build (r := manifest.resolver) rfl
    have hobjects : (manifest.objectDeclarations handling).length = manifest.objects.length :=
      List.length_map _
    have hfields : manifest.fieldDeclarations.length = manifest.fields.length := List.length_map _
    rw [← hobjects, ← hfields]
    exact h.total

end Soql
