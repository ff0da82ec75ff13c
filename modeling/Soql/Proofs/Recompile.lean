import Soql.Proofs.CyclePath
import Soql.Proofs.FirstMeeting
import Soql.Proofs.QueryShape

/-!
# Compiling again

A second pass starts with all that the first has found out. What was known stays known
(`Memo.Extends`), so a query comes out as before. A failure comes out as before just when the object
that it names is still unknown: then the second expansion takes the way of the first, past objects
that it knows already (`project_again`). So a pass is stable just when none of its failures names an
object that the pass itself gives a query for. Main statement: `compileAll_twice_of_build`.
-/

namespace Soql

/-- `n` knows what `m` knows. -/
def Memo.Extends (m n : Memo) : Prop := ∀ i, m.paths? i ≠ none → n.paths? i ≠ none

namespace Memo
variable {m n k : Memo}

theorem Extends.refl (m : Memo) : m.Extends m := fun _ h => h

theorem Extends.trans (h : m.Extends n) (h' : n.Extends k) : m.Extends k := fun i hi => h' i (h i hi)

theorem Extends.unknown (h : m.Extends n) {i : Ident} (hn : n.paths? i = none) : m.paths? i = none := by
  by_contra hm
  exact h i hm hn

theorem extends_remember (m : Memo) (i : Ident) (paths : List String) :
    m.Extends (m.remember i paths) := by
  intro j hj
  rw [paths?_remember]
  split
  · exact Option.some_ne_none _
  · exact hj

end Memo

theorem exists_left_of_forall₂ {α β : Type} {R : α → β → Prop} {l : List α} {l' : List β}
    (h : List.Forall₂ R l l') {b : β} (hb : b ∈ l') : ∃ a ∈ l, R a b := by
  induction h with
  | nil => cases hb
  | cons hab _ ih =>
    rcases List.mem_cons.1 hb with rfl | hb
    · exact ⟨_, List.mem_cons_self .., hab⟩
    · obtain ⟨a, ha, h⟩ := ih hb
      exact ⟨a, List.mem_cons_of_mem _ ha, h⟩

theorem exists_right_of_forall₂ {α β : Type} {R : α → β → Prop} {l : List α} {l' : List β}
    (h : List.Forall₂ R l l') {a : α} (ha : a ∈ l) : ∃ b ∈ l', R a b :=
  exists_left_of_forall₂ h.flip ha

/-- A report names the object that it is about. -/
theorem Cycle.diagnostic_inj {c c' : Cycle} (h : c.diagnostic = c'.diagnostic) : c = c' := by
  obtain ⟨name, className, key⟩ := c
  obtain ⟨name', className', key'⟩ := c'
  simp only [Cycle.diagnostic, Diagnostic.ofObject, Diagnostic.mk.injEq, Option.some.injEq] at h
  obtain ⟨-, -, rfl, rfl, rfl, -⟩ := h
  rfl

namespace Schema

variable {s : Schema} {o x : Object} {m n m' : Memo} {active : List String} {c : Cycle}

/-! ### Expanding again -/

/-- A memory that a later expansion can start from: true, and closed under references. -/
structure Settled (s : Schema) (m : Memo) : Prop where
  sound : s.Sound m
  closed : s.Closed m

theorem settled_empty : s.Settled ∅ := ⟨sound_empty, closed_empty⟩

theorem keeps_settled : s.Keeps s.Settled where
  project h ho active := ⟨keeps_sound.project h.sound ho active, keeps_closed.project h.closed ho active⟩
  projectAll h key fs active :=
    ⟨keeps_sound.projectAll h.sound key fs active, keeps_closed.projectAll h.closed key fs active⟩

theorem Reached.settled (h : s.Reached m) : s.Settled m := keeps_settled.reached settled_empty h

theorem project_of_knows (hn : s.Sound n) (ho : o ∈ s.toList) (hk : n.paths? (ident o) ≠ none) :
    s.project o ⟨active, n⟩ = (.ok (s.plain? o), ⟨active, n⟩) := by
  obtain ⟨paths, hp⟩ := Option.ne_none_iff_exists'.1 hk
  rw [(hn.known ho hp).2, project_eq, hp]

section
variable (hf : ∀ p ∈ s.toList, p.fields ≠ [])
include hf

theorem Settled.known_of_project_eq (h : s.Settled m) (ho : o ∈ s.toList) {a : Option (List String)}
    {t : Traversal} (he : s.project o ⟨active, m⟩ = (.ok a, t)) : t.memo.paths? (ident o) ≠ none := by
  obtain ⟨paths, hp⟩ := (h.closed.adds_of_project_eq ho he o ho).2 (.inr ⟨.refl, hf o ho⟩)
  exact hp ▸ Option.some_ne_none _

theorem Settled.unknown_of_reaches (h : s.Settled n) (ho : o ∈ s.toList) (hx : s.Reaches o x)
    (hk : n.paths? (ident x) = none) : n.paths? (ident o) = none := by
  by_contra hn
  obtain ⟨_, hp⟩ := h.closed o ho (Option.ne_none_iff_exists'.1 hn) x hx (hf x (hx.mem ho))
  rw [hk] at hp
  cases hp

/-- What went well the first time is known by the time of the second. -/
theorem project_again_of_ok (h : s.Settled m) (hn : s.Settled n) (ho : o ∈ s.toList)
    {a : Option (List String)} {t : Traversal} (he : s.project o ⟨active, m⟩ = (.ok a, t))
    (hext : t.memo.Extends n) : s.project o ⟨active, n⟩ = (.ok a, ⟨active, n⟩) := by
  have ha : a = s.plain? o := ((sound_project h.sound ho active).2 a (by rw [he])).2
  rw [ha]
  exact project_of_knows hn.sound ho (hext _ (h.known_of_project_eq hf ho he))

-- Two expansions of one object, the second from an `n` that knows all that the first has left
-- behind. They go the same way to the object at which the first one breaks off.
theorem againRules : s.Rules
    (fun o active m r m' => o ∈ s.toList → s.Settled m → m.Extends m' ∧
      ∀ c, r = .error c → (∃ x, s.Reaches o x ∧ c.ident = ident x) ∧
        ∀ n, s.Settled n → m'.Extends n → n.paths? c.ident = none →
          s.project o ⟨active, n⟩ = (.error c, ⟨active, n⟩))
    (fun key fs active m r m' => s.Settled m → m.Extends m' ∧
      ∀ c, r = .error c → (∃ x, s.FieldsReach key fs x ∧ c.ident = ident x) ∧
        ∀ n, s.Settled n → m'.Extends n → n.paths? c.ident = none →
          s.projectAll key fs ⟨active, n⟩ = (.error c, ⟨active, n⟩)) where
  known _ _ _ := ⟨.refl _, nofun⟩
  active {o _ _} _ ha _ _ := by
    refine ⟨.refl _, ?_⟩
    rintro _ ⟨⟩
    exact ⟨⟨o, .refl, rfl⟩, fun n _ _ hk => project_of_active hk ha⟩
  bare _ _ _ _ _ := ⟨.refl _, nofun⟩
  failed {o active _ _ _} _ ha hne hQ ho h := by
    obtain ⟨hext, hQ⟩ := hQ h
    refine ⟨hext, ?_⟩
    rintro _ ⟨⟩
    obtain ⟨⟨x, hx, hc⟩, hQ⟩ := hQ _ rfl
    have hx := reaches_iff.2 (.inr hx)
    refine ⟨⟨x, hx, hc⟩, fun n hn hext' hk => ?_⟩
    have hko : n.paths? (ident o) = none := hn.unknown_of_reaches hf ho hx (hc ▸ hk)
    simp only [project_eq, hko, if_neg ha, List.isEmpty_iff, if_neg hne, hQ n hn hext' hk,
      List.erase_cons_head]
  done _ _ _ hQ ho h := ⟨(hQ h).1.trans (Memo.extends_remember _ _ _), nofun⟩
  nil _ := ⟨.refl _, nofun⟩
  leaf {_ f _ _ _ _ _} ht hQ h := by
    obtain ⟨hext, hQ⟩ := hQ h
    refine ⟨hext, fun c hc => ?_⟩
    obtain ⟨⟨x, hx, hcx⟩, hQ⟩ := hQ c (map_eq_error_iff.1 hc)
    refine ⟨⟨x, (fieldsReach_leaf ht).2 hx, hcx⟩, fun n hn hext' hk => ?_⟩
    rw [projectAll, ht, hQ n hn hext' hk]
    rfl
  broken ht he hP h := by
    obtain ⟨hext, hP⟩ := hP (mem_of_target? ht) h
    refine ⟨hext, ?_⟩
    rintro _ ⟨⟩
    obtain ⟨⟨x, hx, hcx⟩, hP⟩ := hP _ rfl
    refine ⟨⟨x, (fieldsReach_nested ht).2 (.inl hx), hcx⟩, fun n hn hext' hk => ?_⟩
    simp only [projectAll, ht, hP n hn hext' hk]
  nested ht he hP hQ h := by
    have ho := mem_of_target? ht
    obtain ⟨hext, -⟩ := hP ho h
    obtain ⟨hext₁, hQ⟩ := hQ (keeps_settled.of_project_eq h ho he)
    refine ⟨hext.trans hext₁, fun c hc => ?_⟩
    obtain ⟨⟨x, hx, hcx⟩, hQ⟩ := hQ c (map_eq_error_iff.1 hc)
    refine ⟨⟨x, (fieldsReach_nested ht).2 (.inr hx), hcx⟩, fun n hn hext' hk => ?_⟩
    have he' := project_again_of_ok hf h hn ho he (hext₁.trans hext')
    simp only [projectAll, ht, he', hQ n hn hext' hk]
    rfl

theorem Settled.extends_project (h : s.Settled m) (ho : o ∈ s.toList) (active : List String) :
    m.Extends (s.project o ⟨active, m⟩).2.memo :=
  ((againRules hf).project o active m ho h).1

theorem project_again_of_error (h : s.Settled m) (hn : s.Settled n) (ho : o ∈ s.toList) {t : Traversal}
    (he : s.project o ⟨active, m⟩ = (.error c, t)) (hext : t.memo.Extends n)
    (hk : n.paths? c.ident = none) : s.project o ⟨active, n⟩ = (.error c, ⟨active, n⟩) := by
  have ha := ((againRules hf).project o active m ho h).2
  rw [he] at ha
  exact (ha c rfl).2 n hn hext hk

/-- A failure names an object that was not known before. -/
theorem Settled.unknown_of_project (h : s.Settled m) (ho : o ∈ s.toList)
    (he : (s.project o ⟨active, m⟩).1 = .error c) : m.paths? c.ident = none :=
  (h.extends_project hf ho active).unknown (breaks_of_project he).unknown

/-! ### A pass over all objects -/

/-- `c` is what becomes of `o` at some moment of a pass that turns `m` into `k`. -/
def Emits (s : Schema) (m k : Memo) (o : Object) (c : Compiled) : Prop :=
  ∃ m', s.Settled m' ∧ m.Extends m' ∧ (s.project o ⟨[], m'⟩).2.memo.Extends k ∧
    s.entry o (s.project o ⟨[], m'⟩).1 = some c

theorem Settled.exists_entry (h : s.Settled m) (ho : o ∈ s.toList) :
    ∃ c, s.entry o (s.project o ⟨[], m⟩).1 = some c := by
  cases hr : (s.project o ⟨[], m⟩).1 with
  | error c => exact ⟨_, rfl⟩
  | ok a =>
    have ha := ((sound_project h.sound ho []).2 a hr).2
    rw [ha, plain?_eq_some_iff.2 ⟨hf o ho, rfl⟩]
    exact ⟨_, rfl⟩

/-- What a pass gives for an object was decided at one moment of the pass. -/
theorem Settled.emits (h : s.Settled m) {os : List Object} (hos : ∀ o ∈ os, o ∈ s.toList) :
    s.Settled (s.compileEach os m).2 ∧ m.Extends (s.compileEach os m).2 ∧
      List.Forall₂ (s.Emits m (s.compileEach os m).2) os (s.compileEach os m).1 := by
  induction os generalizing m with
  | nil => exact ⟨h, .refl m, .nil⟩
  | cons o os ih =>
    obtain ⟨ho, hos⟩ := List.forall_mem_cons.1 hos
    obtain ⟨c, hc⟩ := h.exists_entry hf ho
    have hext := h.extends_project hf ho []
    obtain ⟨hk, hext', hrest⟩ := ih (keeps_settled.project h ho []) hos
    rw [compileEach_cons, compileObject_eq, hc]
    refine ⟨hk, hext.trans hext', .cons ⟨m, h, .refl m, hext', hc⟩ (hrest.imp ?_)⟩
    rintro p d ⟨m', hm', hmm', hrest⟩
    exact ⟨m', hm', hext.trans hmm', hrest⟩

theorem Settled.emits_all (h : s.Settled m) : s.Settled (s.compileAll m).2 ∧
    m.Extends (s.compileAll m).2 ∧ List.Forall₂ (s.Emits m (s.compileAll m).2) s.toList (s.compileAll m).1 :=
  h.emits hf fun _ ho => ho

theorem Emits.unknown {k : Memo} {d : Compiled} (h : s.Emits m k o d) (ho : o ∈ s.toList)
    (hd : d.verdict = .failed (Cycle.diagnostic c)) : m.paths? c.ident = none := by
  obtain ⟨m', hm', hext, -, he⟩ := h
  obtain ⟨c', hr, e⟩ := entry_failed he hd
  obtain rfl := Cycle.diagnostic_inj e
  exact hext.unknown (hm'.unknown_of_project hf ho hr)

theorem Emits.known {k : Memo} {d : Compiled} (h : s.Emits m k o d) (ho : o ∈ s.toList)
    (hd : d.query? ≠ none) : k.paths? (ident o) ≠ none := by
  obtain ⟨m', hm', -, hext, he⟩ := h
  cases hr : (s.project o ⟨[], m'⟩).1 with
  | error c =>
    rw [hr] at he
    cases he
    exact absurd rfl hd
  | ok a => exact hext _ (hm'.known_of_project_eq hf ho (Prod.ext hr rfl))

omit hf in
theorem Emits.ident_eq {k : Memo} {d : Compiled} (h : s.Emits m k o d) :
    (⟨d.className, d.key⟩ : Ident) = ident o := by
  obtain ⟨_, -, -, -, he⟩ := h
  exact ident_of_entry he

omit hf in
/-- A failure names an object that comes after the root. -/
theorem Emits.exists_of_failed {k : Memo} {d : Compiled} (h : s.Emits m k o d) {report : Diagnostic}
    (hd : d.verdict = .failed report) :
    ∃ c, report = Cycle.diagnostic c ∧ ∃ x, s.Follows o x ∧ c.ident = ident x := by
  obtain ⟨m', -, -, -, he⟩ := h
  obtain ⟨c, hr, rfl⟩ := entry_failed he hd
  obtain ⟨past, x, u, hvis, ⟨p, hp, -⟩, -, rfl⟩ := (breaks_of_project hr).exists_name
  exact ⟨_, rfl, x, hvis.follows (List.ne_nil_of_mem hp), rfl⟩

/-- A pass from a memory that knows what an earlier one has left behind, but nothing that a failure
of that pass names, does the same and finds out nothing. -/
theorem compileEach_again (h : s.Settled m) (hn : s.Settled n) {os : List Object}
    (hos : ∀ o ∈ os, o ∈ s.toList) (hext : (s.compileEach os m).2.Extends n)
    (hk : ∀ d ∈ (s.compileEach os m).1, ∀ c, d.verdict = .failed (Cycle.diagnostic c) →
      n.paths? c.ident = none) :
    s.compileEach os n = ((s.compileEach os m).1, n) := by
  induction os generalizing m with
  | nil => rfl
  | cons o os ih =>
    obtain ⟨ho, hos⟩ := List.forall_mem_cons.1 hos
    have hm' := keeps_settled.project h ho []
    obtain ⟨r, t, he⟩ : ∃ r t, s.project o ⟨[], m⟩ = (r, t) := ⟨_, _, rfl⟩
    rw [he] at hm'
    rw [compileEach_cons, compileObject_eq, he] at hext hk
    have hext' : t.memo.Extends n := (hm'.emits hf hos).2.1.trans hext
    have hagain : s.project o ⟨[], n⟩ = (r, ⟨[], n⟩) := by
      cases r with
      | ok a => exact project_again_of_ok hf h hn ho he hext'
      | error c =>
        have hc := hk _ (List.mem_append_left _ (List.mem_singleton_self _)) c rfl
        exact project_again_of_error hf h hn ho he hext' hc
    have hrest := ih hm' hos hext fun d hd => hk d (List.mem_append_right _ hd)
    rw [compileEach_cons, compileEach_cons, compileObject_eq, compileObject_eq, he, hagain]
    simp only [hrest]

/-! ### Two passes -/

/-- If a failure of a pass names an object that is known at its end, then one does that the pass
gives a query for: what the object itself fails at is known as well, and comes after it. -/
theorem exists_query_of_known {k : Memo} {ds : List Compiled} (hk : s.Settled k)
    (hall : List.Forall₂ (s.Emits m k) s.toList ds) {d : Compiled} (hd : d ∈ ds)
    (hv : d.verdict = .failed (Cycle.diagnostic c)) (hc : k.paths? c.ident ≠ none) :
    ∃ d ∈ ds, ∃ c, d.verdict = .failed (Cycle.diagnostic c) ∧
      ∃ d' ∈ ds, c.ident = ⟨d'.className, d'.key⟩ ∧ d'.query? ≠ none := by
  obtain ⟨o, -, hod⟩ := exists_left_of_forall₂ hall hd
  obtain ⟨x, hox, hcx⟩ : ∃ x, s.Follows o x ∧ c.ident = ident x := by
    obtain ⟨c', e, h⟩ := hod.exists_of_failed hv
    exact Cycle.diagnostic_inj e ▸ h
  induction hn : s.rank x using Nat.strongRecOn generalizing x o d c with
  | ind n ih =>
    have hx : x ∈ s.toList := hox.mem
    rw [hcx] at hc
    obtain ⟨paths, hp⟩ := Option.ne_none_iff_exists'.1 hc
    have ha := (hk.sound.known hx hp).1
    obtain ⟨d', hd', hxd'⟩ := exists_right_of_forall₂ hall hx
    have hi := hxd'.ident_eq
    cases hv' : d'.verdict with
    | query text plan =>
      exact ⟨d, hd, c, hv, d', hd', hcx.trans hi.symm, by simp [Compiled.query?, hv']⟩
    | failed report =>
      obtain ⟨c', rfl, y, hxy, hcy⟩ := hxd'.exists_of_failed hv'
      have hy : k.paths? c'.ident ≠ none := fun hy =>
        hc (hk.unknown_of_reaches hf hx hxy.to_reflTransGen (hcy ▸ hy))
      exact ih _ (hn ▸ rank_lt_of_follows ha hxy) hd' hv' hy x hxd' y hxy hcy rfl

theorem compileAll_again_iff : (s.compileAll (s.compileAll ∅).2).1 = (s.compileAll ∅).1 ↔
    ∀ d ∈ (s.compileAll ∅).1, ∀ c, d.verdict = .failed (Cycle.diagnostic c) →
      ∀ d' ∈ (s.compileAll ∅).1, c.ident = ⟨d'.className, d'.key⟩ → d'.query? = none := by
  obtain ⟨hk, -, hall⟩ := settled_empty.emits_all hf
  constructor
  · intro e d hd c hv d' hd' hc
    obtain ⟨-, -, hall'⟩ := hk.emits_all hf
    obtain ⟨o, ho, hod⟩ := exists_left_of_forall₂ hall' (e.symm ▸ hd)
    have hnone := hod.unknown hf ho hv
    obtain ⟨o', ho', hod'⟩ := exists_left_of_forall₂ hall hd'
    by_contra hq
    rw [hc, hod'.ident_eq] at hnone
    exact hod'.known hf ho' hq hnone
  · intro h
    have hnone : ∀ d ∈ (s.compileAll ∅).1, ∀ c, d.verdict = .failed (Cycle.diagnostic c) →
        (s.compileAll ∅).2.paths? c.ident = none := by
      intro d hd c hv
      by_contra hc
      obtain ⟨d, hd, c, hv, d', hd', hcd, hq⟩ := exists_query_of_known hf hk hall hd hv hc
      exact hq (h d hd c hv d' hd' hcd)
    have e := compileEach_again hf settled_empty hk (fun _ ho => ho) (.refl _) hnone
    exact congrArg Prod.fst e

/-- A query comes out again. -/
theorem mem_compileAll_again {d : Compiled} (hd : d ∈ (s.compileAll ∅).1) (hq : d.query? ≠ none) :
    d ∈ (s.compileAll (s.compileAll ∅).2).1 := by
  obtain ⟨hk, -, hall⟩ := settled_empty.emits_all hf
  obtain ⟨-, -, hall'⟩ := hk.emits_all hf
  obtain ⟨o, ho, hod⟩ := exists_left_of_forall₂ hall hd
  obtain ⟨d', hd', m', hm', hext, -, he'⟩ := exists_right_of_forall₂ hall' ho
  rw [project_of_knows hm'.sound ho (hext _ (hod.known hf ho hq))] at he'
  obtain ⟨m₁, hm₁, -, -, he⟩ := hod
  cases hr : (s.project o ⟨[], m₁⟩).1 with
  | error c =>
    rw [hr] at he
    cases he
    exact absurd rfl hq
  | ok a =>
    have ha := ((sound_project hm₁.sound ho []).2 a hr).2
    rw [hr, ha] at he
    obtain rfl : d = d' := Option.some.inj (he.symm.trans he')
    exact hd'

end

/-- Compiling a built schema again gives the queries of the first pass again. It gives all entries
again just when no failure of the first pass names an object that this pass gives a query for, and
always if objects of one key have different names. -/
theorem compileAll_twice_of_build {r : Resolver Id} {objects : List ObjectDeclaration}
    {fields : List FieldDeclaration} {b : Built} (hb : (build r objects fields).run = b) :
    (∀ d ∈ (b.schema.compileAll ∅).1, d.query? ≠ none →
      d ∈ (b.schema.compileAll (b.schema.compileAll ∅).2).1) ∧
    ((b.schema.compileAll (b.schema.compileAll ∅).2).1 = (b.schema.compileAll ∅).1 ↔
      ∀ d ∈ (b.schema.compileAll ∅).1, ∀ c, d.verdict = .failed (Cycle.diagnostic c) →
        ∀ d' ∈ (b.schema.compileAll ∅).1, c.ident = ⟨d'.className, d'.key⟩ → d'.query? = none) ∧
    (b.schema.DistinctNames →
      (b.schema.compileAll (b.schema.compileAll ∅).2).1 = (b.schema.compileAll ∅).1) := by
  have hf : ∀ p ∈ b.schema.toList, p.fields ≠ [] := fun p hp => fields_ne_nil_of_build (r := r) hb hp
  refine ⟨fun d hd hq => mem_compileAll_again hf hd hq, compileAll_again_iff hf, fun hd => ?_⟩
  have hself : ∀ o ∈ b.schema.toList, o ∈ b.schema.toList := fun _ ho => ho
  have hk : b.schema.Sound (b.schema.compileAll ∅).2 := keeps_sound.compileEach sound_empty hself
  exact (fst_compileEach hd hk hself).trans (fst_compileEach hd sound_empty hself).symm

theorem compileAll_twice_of_build_ownedContacts :
    ownedContactsBuilt.schema.DistinctNames ∧
      (∃ c ∈ (ownedContactsBuilt.schema.compileAll ∅).1,
        c.query? = some "SELECT (SELECT LastName FROM Contacts) FROM User") ∧
      (ownedContactsBuilt.schema.compileAll (ownedContactsBuilt.schema.compileAll ∅).2).1 =
        (ownedContactsBuilt.schema.compileAll ∅).1 := by
  have hd : ownedContactsBuilt.schema.DistinctNames := by
    unfold DistinctNames
    decide +kernel
  exact ⟨hd, by decide +kernel, (compileAll_twice_of_build rfl).2.2 hd⟩

/-- The child fails at its parent, which then gives a query. Compiled again, the child does too. -/
theorem compileAll_twice_sharedName_ne :
    (∃ c ∈ (sharedNameBuilt.schema.compileAll ∅).1, c.className = "App.Child" ∧
      c.verdict = .failed (Cycle.diagnostic ⟨"Account", ident parentAccount⟩)) ∧
    (∃ c ∈ (sharedNameBuilt.schema.compileAll (sharedNameBuilt.schema.compileAll ∅).2).1,
      c.className = "App.Child" ∧ c.query? = some "SELECT Parent.Title FROM Account") ∧
    (sharedNameBuilt.schema.compileAll (sharedNameBuilt.schema.compileAll ∅).2).1 ≠
      (sharedNameBuilt.schema.compileAll ∅).1 := by
  decide +kernel

end Schema
end Soql
