import Soql.Proofs.MemoSound
import Soql.Report

/-!
# Independence of what is remembered

Under distinct names (`Schema.DistinctNames`: per key, no two objects share a name) an active name
stands for one object, and that object is on the way to the one being expanded (`Underway`). What is
remembered is acyclic, so no memory can hide a cycle or move it: expanding with any two true memos
gives the same answer (`fst_project_eq_of_sound`). Hence what becomes of a root does not depend on
the roots before it, and a failure names an object on a cycle.
-/

namespace Soql.Schema

variable {s : Schema} {o t : Object} {m n : Memo} {active : List String}

/-- Objects of one key have different names. -/
def DistinctNames (s : Schema) : Prop :=
  ∀ o ∈ s.toList, ∀ p ∈ s.toList, o.key = p.key → o.name = p.name → o = p

/-- The active names are those of objects that `o` comes after. -/
def Underway (s : Schema) (active : List String) (o : Object) : Prop :=
  ∀ name ∈ active, ∃ p ∈ s.toList, p.name = name ∧ s.Follows p o

theorem underway_nil : s.Underway [] o := fun _ h => nomatch h

theorem Underway.cons (h : s.Underway active o) (ho : o ∈ s.toList) (ht : s.Refers o t) :
    s.Underway (o.name :: active) t := by
  intro name hn
  rcases List.mem_cons.1 hn with rfl | hn
  · exact ⟨o, ho, rfl, .single ht⟩
  · obtain ⟨p, hp, rfl, hpo⟩ := h name hn
    exact ⟨p, hp, rfl, hpo.tail ht⟩

theorem Underway.fields (h : s.Underway active o) (ho : o ∈ s.toList) :
    ∀ f ∈ o.fields, ∀ t, s.target? o.key f = some t → s.Underway (o.name :: active) t :=
  fun f hf _ ht => h.cons ho ⟨f, hf, ht⟩

theorem DistinctNames.follows_self (hd : s.DistinctNames) (ho : o ∈ s.toList)
    (hu : s.Underway active o) (h : o.name ∈ active) : s.Follows o o := by
  obtain ⟨p, hp, hn, hpo⟩ := hu _ h
  have hk : p.key = o.key := (Reaches.key hpo.to_reflTransGen).symm
  rwa [hd p hp o ho hk hn] at hpo

theorem DistinctNames.name_notMem (hd : s.DistinctNames) (ho : o ∈ s.toList)
    (hu : s.Underway active o) (ha : s.Acyclic o) : o.name ∉ active :=
  fun h => ha.not_follows (hd.follows_self ho hu h)

theorem Sound.unknown (h : s.Sound m) (ho : o ∈ s.toList) (ha : ¬ s.Acyclic o) :
    m.paths? (ident o) = none :=
  Option.eq_none_iff_forall_ne_some.2 fun _ hm => ha (h.known ho hm).1

/-! ### Acyclic objects are never refused -/

theorem acyclicRules (hd : s.DistinctNames) : s.Rules
    (fun o active _ r _ => o ∈ s.toList → s.Underway active o → s.Acyclic o → ∃ a, r = .ok a)
    (fun key fs active _ r _ =>
      (∀ f ∈ fs, ∀ t, s.target? key f = some t → s.Acyclic t ∧ s.Underway active t) →
        ∃ paths, r = .ok paths) where
  known _ _ _ _ := ⟨_, rfl⟩
  active _ hn ho hu ha := absurd hn (hd.name_notMem ho hu ha)
  bare _ _ _ _ _ _ := ⟨_, rfl⟩
  failed _ _ _ hQ ho hu ha := by
    obtain ⟨_, hp⟩ := hQ fun f hf t ht => ⟨ha.of_refers ⟨f, hf, ht⟩, hu.fields ho f hf t ht⟩
    cases hp
  done _ _ _ _ _ _ _ := ⟨_, rfl⟩
  nil _ := ⟨_, rfl⟩
  leaf _ hQ hfs := by
    obtain ⟨paths, rfl⟩ := hQ fun f hf => hfs f (List.mem_cons_of_mem _ hf)
    exact ⟨_, rfl⟩
  broken ht _ hP hfs := by
    obtain ⟨ha, hu⟩ := hfs _ (List.mem_cons_self ..) _ ht
    obtain ⟨_, hp⟩ := hP (mem_of_target? ht) hu ha
    cases hp
  nested _ _ _ hQ hfs := by
    obtain ⟨paths, rfl⟩ := hQ fun f hf => hfs f (List.mem_cons_of_mem _ hf)
    exact ⟨_, rfl⟩

theorem fst_project_of_acyclic (hd : s.DistinctNames) (ho : o ∈ s.toList) (hm : s.Sound m)
    (hu : s.Underway active o) (ha : s.Acyclic o) :
    (s.project o ⟨active, m⟩).1 = .ok (s.plain? o) := by
  obtain ⟨a, e⟩ := (acyclicRules hd).project o active m ho hu ha
  rw [e, ((sound_project hm ho active).2 a e).2]

/-! ### Any two true memos give the same answer -/

theorem fst_project_eq_of_not_acyclic (hd : s.DistinctNames) (ho : o ∈ s.toList) (hm : s.Sound m)
    (hn : s.Sound n) (hu : s.Underway active o)
    (h : ¬ s.Acyclic o → (s.project o ⟨active, n⟩).1 = (s.project o ⟨active, m⟩).1) :
    (s.project o ⟨active, n⟩).1 = (s.project o ⟨active, m⟩).1 := by
  by_cases ha : s.Acyclic o
  · rw [fst_project_of_acyclic hd ho hm hu ha, fst_project_of_acyclic hd ho hn hu ha]
  · exact h ha

-- An acyclic object is left out: there both memos give the plain reading, known or not. One that
-- reaches a cycle is in no true memo, so both expansions take the same steps.
theorem agreeRules (hd : s.DistinctNames) : s.Rules
    (fun o active m r _ => o ∈ s.toList → s.Sound m → s.Underway active o → ¬ s.Acyclic o →
      ∀ n, s.Sound n → (s.project o ⟨active, n⟩).1 = r)
    (fun key fs active m r _ => s.Sound m →
      (∀ f ∈ fs, ∀ t, s.target? key f = some t → s.Underway active t) →
        ∀ n, s.Sound n → (s.projectAll key fs ⟨active, n⟩).1 = r) where
  known hm ho h _ ha := absurd (h.known ho hm).1 ha
  active _ hn ho _ _ ha _ h' := by
    rw [project_of_active (h'.unknown ho ha) hn]
  bare _ _ hf _ _ _ ha := absurd (.of_fields_nil hf) ha
  failed _ hn hf hQ ho h hu ha n h' := by
    rw [fst_project_of_fields (h'.unknown ho ha) hn hf, hQ h (hu.fields ho) n h']
    rfl
  done _ hn hf hQ ho h hu ha n h' := by
    rw [fst_project_of_fields (h'.unknown ho ha) hn hf, hQ h (hu.fields ho) n h']
    rfl
  nil _ _ _ _ := rfl
  leaf ht hQ h hfs n h' := by
    rw [fst_projectAll_leaf ht, hQ h (fun f hf => hfs f (List.mem_cons_of_mem _ hf)) n h']
  broken {_ _ _ o active _ _ _} ht he hP h hfs n h' := by
    have ho := mem_of_target? ht
    have hu := hfs _ (List.mem_cons_self ..) _ ht
    have e := fst_project_eq_of_not_acyclic hd ho h h' hu fun ha => by
      rw [hP ho h hu ha n h', he]
    rw [he] at e
    exact fst_projectAll_broken ht e
  nested {_ _ _ o active m _ m₁ _ _} ht he hP hQ h hfs n h' := by
    have ho := mem_of_target? ht
    have hu := hfs _ (List.mem_cons_self ..) _ ht
    have h₁ : s.Sound m₁ := keeps_sound.of_project_eq h ho he
    have e := fst_project_eq_of_not_acyclic hd ho h h' hu fun ha => by
      rw [hP ho h hu ha n h', he]
    rw [he] at e
    rw [fst_projectAll_nested ht e, hQ h₁ (fun f hf => hfs f (List.mem_cons_of_mem _ hf)) _
      (sound_project h' ho active).1]

theorem fst_project_eq_of_sound (hd : s.DistinctNames) (ho : o ∈ s.toList) (hm : s.Sound m)
    (hn : s.Sound n) (hu : s.Underway active o) :
    (s.project o ⟨active, n⟩).1 = (s.project o ⟨active, m⟩).1 :=
  fst_project_eq_of_not_acyclic hd ho hm hn hu fun ha =>
    (agreeRules hd).project o active m ho hm hu ha n hn

/-! ### Failures -/

/-- The report names an object that `o` reaches and that comes after itself. -/
def NamesCycle (s : Schema) (o : Object) (c : Cycle) : Prop :=
  ∃ x, s.Reaches o x ∧ s.Follows x x ∧ c = ⟨x.name, ident x⟩

theorem cycleRules (hd : s.DistinctNames) : s.Rules
    (fun o active _ r _ => o ∈ s.toList → s.Underway active o → ∀ c, r = .error c → s.NamesCycle o c)
    (fun key fs active _ r _ => (∀ f ∈ fs, ∀ t, s.target? key f = some t → s.Underway active t) →
      ∀ c, r = .error c → ∃ f ∈ fs, ∃ t, s.target? key f = some t ∧ s.NamesCycle t c) where
  known _ _ _ _ := nofun
  active _ hn ho hu := by
    rintro _ ⟨⟩
    exact ⟨_, .refl, hd.follows_self ho hu hn, rfl⟩
  bare _ _ _ _ _ _ := nofun
  failed _ _ _ hQ ho hu := by
    rintro _ ⟨⟩
    obtain ⟨f, hf, t, ht, x, htx, hx, rfl⟩ := hQ (hu.fields ho) _ rfl
    exact ⟨x, .head ⟨f, hf, ht⟩ htx, hx, rfl⟩
  done _ _ _ _ _ _ _ := nofun
  nil _ _ := nofun
  leaf _ hQ hfs c hc := by
    obtain ⟨f, hf, h⟩ := hQ (fun f hf => hfs f (List.mem_cons_of_mem _ hf)) c (map_eq_error_iff.1 hc)
    exact ⟨f, List.mem_cons_of_mem _ hf, h⟩
  broken ht _ hP hfs := by
    rintro c ⟨⟩
    have hu := hfs _ (List.mem_cons_self ..) _ ht
    exact ⟨_, List.mem_cons_self .., _, ht, hP (mem_of_target? ht) hu _ rfl⟩
  nested _ _ _ hQ hfs c hc := by
    obtain ⟨f, hf, h⟩ := hQ (fun f hf => hfs f (List.mem_cons_of_mem _ hf)) c (map_eq_error_iff.1 hc)
    exact ⟨f, List.mem_cons_of_mem _ hf, h⟩

/-! ### Roots -/

theorem fst_compileObject_eq_of_sound (hd : s.DistinctNames) (ho : o ∈ s.toList) (hm : s.Sound m) :
    (s.compileObject o m).1 = (s.compileObject o ∅).1 := by
  rw [fst_compileObject, fst_compileObject,
    fst_project_eq_of_sound hd ho sound_empty hm underway_nil]

theorem fst_compileRoot_eq_of_sound (hd : s.DistinctNames) (hm : s.Sound m) (i : Ident) :
    (s.compileRoot i m).1 = (s.compileRoot i ∅).1 := by
  rw [compileRoot, compileRoot]
  split
  · rename_i ho
    exact fst_compileObject_eq_of_sound hd (Index.mem_of_get? ho) hm
  · rfl

theorem fst_compileEach (hd : s.DistinctNames) (hm : s.Sound m) {os : List Object}
    (hos : ∀ o ∈ os, o ∈ s.toList) :
    (s.compileEach os m).1 = os.filterMap fun o => (s.compileRoot (ident o) ∅).1 := by
  induction os generalizing m with
  | nil => rfl
  | cons o os ih =>
    have ho := hos o (List.mem_cons_self ..)
    have e := ih (keeps_sound.compileObject hm ho) fun p hp => hos p (List.mem_cons_of_mem _ hp)
    rw [compileEach_cons, e, fst_compileObject_eq_of_sound hd ho hm, List.filterMap_cons,
      compileRoot_of_get? (Index.get?_of_mem ho)]
    cases (s.compileObject o ∅).1 <;> rfl

theorem fst_compileEach_filter (hd : s.DistinctNames) (p : Ident → Bool) :
    (s.compileEach (s.toList.filter fun o => p (ident o)) ∅).1 =
      (s.compileEach s.toList ∅).1.filter fun c => p ⟨c.className, c.key⟩ := by
  rw [fst_compileEach hd sound_empty fun _ ho => (List.mem_filter.1 ho).1,
    fst_compileEach hd sound_empty fun _ ho => ho, List.filterMap_filter, List.filter_filterMap]
  refine List.filterMap_congr fun o _ => ?_
  cases hc : (s.compileRoot (ident o) ∅).1 with
  | none => cases p (ident o) <;> rfl
  | some c =>
    obtain ⟨o', ho', hc⟩ := exists_of_compileRoot hc
    have e : (⟨c.className, c.key⟩ : Ident) = ident o := (ident_of_entry hc).trans (Index.ident_of_get? ho')
    rw [Option.filter_some, e]

/-- Under distinct names no root depends on the calls before it: each gives what it gives when
nothing is known, so selecting roots selects among the entries of all, and a failure names an
object that the root reaches and that lies on a cycle. -/
theorem compileRoot_of_reached (hd : s.DistinctNames) (h : s.Reached m) :
    (∀ i, (s.compileRoot i m).1 = (s.compileRoot i ∅).1) ∧
    (s.compileAll m).1 = s.toList.filterMap (fun o => (s.compileRoot (ident o) ∅).1) ∧
    (∀ diagnostics manifest selection,
      ((Built.mk s diagnostics).compile manifest selection).compiled =
        (s.compileEach (selection.roots s) ∅).1 ∧
      ((Built.mk s diagnostics).compile manifest selection).compiled =
        (selection.roots s).filterMap (fun o => (s.compileRoot (ident o) ∅).1) ∧
      ((Built.mk s diagnostics).compile manifest ⟨none, none⟩).compiled = (s.compileAll ∅).1 ∧
      ((Built.mk s diagnostics).compile manifest selection).compiled =
        ((Built.mk s diagnostics).compile manifest ⟨none, none⟩).compiled.filter fun c =>
          selection.includes ⟨c.className, c.key⟩) ∧
    (∀ i c d, (s.compileRoot i m).1 = some c → c.verdict = .failed d →
      ∃ o x, s.get? i = some o ∧ s.Reaches o x ∧ s.Follows x x ∧
        d = Cycle.diagnostic ⟨x.name, ident x⟩) := by
  refine ⟨fst_compileRoot_eq_of_sound hd h.sound, fst_compileEach hd h.sound fun _ ho => ho,
    fun diagnostics manifest selection => ⟨Built.compiled_compile .., ?_,
      Built.compiled_compile_all .., ?_⟩, fun i c d hc hv => ?_⟩
  · rw [Built.compiled_compile]
    exact fst_compileEach hd sound_empty fun _ ho => (Selection.mem_roots.1 ho).1
  · rw [Built.compiled_compile, Built.compiled_compile_all]
    exact fst_compileEach_filter hd _
  · obtain ⟨o, ho, hc⟩ := exists_of_compileRoot hc
    obtain ⟨cycle, hr, rfl⟩ := entry_failed hc hv
    obtain ⟨x, hox, hx, rfl⟩ := (cycleRules hd).project o [] m (Index.mem_of_get? ho) underway_nil _ hr
    exact ⟨o, x, ho, hox, hx, rfl⟩

theorem compileRoot_of_reached_sample :
    sample.DistinctNames ∧
      (sample.compileRoot ⟨"App.Node", "K"⟩ (sample.compileAll ∅).2).1 =
        some ⟨"App.Node", "K", "Node",
          .failed (Cycle.diagnostic ⟨"Node", ⟨"App.Node", "K"⟩⟩)⟩ ∧
      (sample.compileRoot ⟨"App.Node", "K"⟩ (sample.compileAll ∅).2).1 =
        (sample.compileRoot ⟨"App.Node", "K"⟩ ∅).1 ∧
      ∃ o x, sample.get? ⟨"App.Node", "K"⟩ = some o ∧ sample.Reaches o x ∧ sample.Follows x x ∧
        Cycle.diagnostic ⟨"Node", ⟨"App.Node", "K"⟩⟩ = Cycle.diagnostic ⟨x.name, ident x⟩ := by
  have hd : sample.DistinctNames := by unfold DistinctNames; decide +kernel
  have hc : (sample.compileRoot ⟨"App.Node", "K"⟩ (sample.compileAll ∅).2).1 =
      some ⟨"App.Node", "K", "Node", .failed (Cycle.diagnostic ⟨"Node", ⟨"App.Node", "K"⟩⟩)⟩ := by
    decide +kernel
  have h := compileRoot_of_reached hd (.compileAll .start)
  exact ⟨hd, hc, h.1 _, h.2.2.2 _ _ _ hc rfl⟩

end Soql.Schema
