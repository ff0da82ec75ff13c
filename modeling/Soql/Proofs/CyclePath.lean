import Soql.Proofs.MemoSound

/-!
# How a cycle is met

`Schema.Visits` follows an expansion down to one object that it comes to: past the objects that are
still being expanded, through fields before which all others have been gone through. The active names
are at all times the names on that path (`Visits.active_eq`). A failure is always the same event: an
object is come to that is not known, and its name is on the path (`Breaks`, `breaks_of_project`).
With a memory that calls have left behind, an object that reaches a cycle always fails. Main
statement: `cycle_of_reached`.
-/

namespace Soql.Schema

variable {s : Schema} {o p x : Object} {t u : Traversal} {m m' : Memo} {active : List String}
  {past : List Object} {c : Cycle}

/-- Expanding `o` from `t` comes to `x` in `u`, past objects that are then still being expanded. -/
inductive Visits (s : Schema) : Object → Traversal → List Object → Object → Traversal → Prop
  | here {o : Object} {t : Traversal} : s.Visits o t [] o t
  | nested {o p x : Object} {t u : Traversal} {past : List Object} {before after : List Field}
    {f : Field} {paths : List String} {m : Memo} (hm : t.memo.paths? (ident o) = none)
    (ha : o.name ∉ t.active) (hfs : o.fields = before ++ f :: after)
    (hb : s.projectAll o.key before ⟨o.name :: t.active, t.memo⟩ = (.ok paths, ⟨o.name :: t.active, m⟩))
    (ht : s.target? o.key f = some p) (h : s.Visits p ⟨o.name :: t.active, m⟩ past x u) :
    s.Visits o t (o :: past) x u

namespace Visits

theorem refers {before after : List Field} {f : Field} (hfs : o.fields = before ++ f :: after)
    (ht : s.target? o.key f = some p) : s.Refers o p :=
  ⟨f, by simp [hfs], ht⟩

theorem head?_eq (h : s.Visits o t past x u) : (past ++ [x]).head? = some o := by
  cases h <;> rfl

theorem reaches (h : s.Visits o t past x u) : s.Reaches o x := by
  induction h with
  | here => exact .refl
  | nested _ _ hfs _ ht _ ih => exact .head (refers hfs ht) ih

theorem follows (h : s.Visits o t past x u) (hp : past ≠ []) : s.Follows o x := by
  cases h with
  | here => exact absurd rfl hp
  | nested _ _ hfs _ ht h => exact .head' (refers hfs ht) h.reaches

/-- The objects on the way refer to one another. -/
theorem isChain (h : s.Visits o t past x u) : (past ++ [x]).IsChain s.Refers := by
  induction h with
  | here => exact .singleton _
  | nested _ _ hfs _ ht h ih =>
    obtain ⟨rest, e⟩ := List.head?_eq_some_iff.1 h.head?_eq
    rw [e] at ih
    rw [List.cons_append, e]
    exact List.isChain_cons_cons.2 ⟨refers hfs ht, ih⟩

theorem key_eq (h : s.Visits o t past x u) : ∀ q ∈ past ++ [x], q.key = o.key := by
  induction h with
  | here => simp
  | nested _ _ _ _ ht h ih =>
    refine List.forall_mem_cons.2 ⟨rfl, fun q hq => ?_⟩
    exact (ih q hq).trans (key_of_target? ht)

/-- The active names are those on the way, innermost first, before those that were active already. -/
theorem active_eq (h : s.Visits o t past x u) :
    u.active = (past.map (·.name)).reverse ++ t.active := by
  induction h with
  | here => rfl
  | nested _ _ _ _ _ _ ih => simp [ih]

end Visits

/-- Expanding `o` from `t` ends in `m'` at an object that is not known, under an active name. -/
def Breaks (s : Schema) (o : Object) (t : Traversal) (c : Cycle) (m' : Memo) : Prop :=
  ∃ past x u, s.Visits o t past x u ∧ x.name ∈ u.active ∧ u.memo.paths? (ident x) = none ∧
    u.memo = m' ∧ c = ⟨x.name, ident x⟩

theorem breakRules : s.Rules
    (fun o active m r m' => ∀ c, r = .error c → s.Breaks o ⟨active, m⟩ c m')
    (fun key fs active m r m' => ∀ c, r = .error c → ∃ before f after p paths m₁,
      fs = before ++ f :: after ∧
      s.projectAll key before ⟨active, m⟩ = (.ok paths, ⟨active, m₁⟩) ∧
      s.target? key f = some p ∧ s.Breaks p ⟨active, m₁⟩ c m') where
  known _ := nofun
  active hm ha := by
    rintro _ ⟨⟩
    exact ⟨[], _, _, .here, ha, hm, rfl, rfl⟩
  bare _ _ _ := nofun
  failed hm ha _ hQ := by
    rintro _ ⟨⟩
    obtain ⟨before, f, after, p, paths, m₁, hfs, hb, ht, past, x, u, h, hx⟩ := hQ _ rfl
    exact ⟨_ :: past, x, u, .nested hm ha hfs hb ht h, hx⟩
  done _ _ _ _ := nofun
  nil := nofun
  leaf {_ f _ _ _ _ _} ht hQ c hc := by
    obtain ⟨before, g, after, p, paths, m₁, hfs, hb, hrest⟩ := hQ c (map_eq_error_iff.1 hc)
    refine ⟨f :: before, g, after, p, [f.name] ++ paths, m₁, by rw [hfs]; rfl, ?_, hrest⟩
    rw [projectAll, ht, hb]
    rfl
  broken ht _ hP := by
    rintro _ ⟨⟩
    exact ⟨[], _, _, _, [], _, rfl, rfl, ht, hP _ rfl⟩
  nested {_ f _ _ _ _ paths _ _ _} ht he _ hQ c hc := by
    obtain ⟨before, g, after, p, rest, m₁, hfs, hb, hrest⟩ := hQ c (map_eq_error_iff.1 hc)
    refine ⟨f :: before, g, after, p, f.expand paths ++ rest, m₁, by rw [hfs]; rfl, ?_, hrest⟩
    simp only [projectAll, ht, he, hb]
    rfl

theorem Breaks.unknown (h : s.Breaks o t c m') : m'.paths? c.ident = none := by
  obtain ⟨past, x, u, -, -, hk, rfl, rfl⟩ := h
  exact hk

/-- With no names active before, the name that is met again is one on the way. -/
theorem Breaks.exists_name (h : s.Breaks o ⟨[], m⟩ c m') :
    ∃ past x u, s.Visits o ⟨[], m⟩ past x u ∧ (∃ p ∈ past, p.name = x.name) ∧
      u.memo.paths? (ident x) = none ∧ c = ⟨x.name, ident x⟩ := by
  obtain ⟨past, x, u, hvis, hn, hk, -, rfl⟩ := h
  have hn : ∃ p ∈ past, p.name = x.name := by
    simpa [hvis.active_eq] using hn
  exact ⟨past, x, u, hvis, hn, hk, rfl⟩

theorem breaks_of_project (h : (s.project o ⟨active, m⟩).1 = .error c) :
    s.Breaks o ⟨active, m⟩ c (s.project o ⟨active, m⟩).2.memo :=
  breakRules.project o active m c h

/-! ### Failures that are certain -/

theorem Sound.project_eq_error (h : s.Sound m) (ho : o ∈ s.toList) (ha : ¬ s.Acyclic o)
    (active : List String) : ∃ c, (s.project o ⟨active, m⟩).1 = .error c := by
  cases hr : (s.project o ⟨active, m⟩).1 with
  | error c => exact ⟨c, rfl⟩
  | ok a => exact absurd ((sound_project h ho active).2 a hr).1 ha

/-- With a memory that calls have left behind, an object that reaches a cycle gives no paths and no
query, whatever names are active. A root that fails has come, past objects of its key that refer to
one another, to an object that is not known at that moment and has the name of one of those before;
the report is about that object. -/
theorem cycle_of_reached (h : s.Reached m) :
    (∀ o ∈ s.toList, ∀ x, s.Reaches o x → s.Follows x x → ∀ active source,
      (∃ c, (s.project o ⟨active, m⟩).1 = .error c) ∧
      (∃ c, (s.query o source ⟨active, m⟩).1 = .error c)) ∧
    (∀ o ∈ s.toList, ∀ c d, (s.compileRoot (ident o) m).1 = some c → c.verdict = .failed d →
      ∃ past x u, s.Visits o ⟨[], m⟩ past x u ∧
        (past ++ [x]).head? = some o ∧ (past ++ [x]).IsChain s.Refers ∧
        (∀ p ∈ past ++ [x], p.key = o.key) ∧ (∃ p ∈ past, p.name = x.name) ∧
        u.memo.paths? (ident x) = none ∧
        d = .ofObject .cyclic x.name ⟨x.className, x.key⟩ none) := by
  constructor
  · intro o ho x hox hx active source
    have ha : ¬ s.Acyclic o := fun ha => ha x hox hx
    obtain ⟨c, hc⟩ := h.sound.project_eq_error ho ha active
    exact ⟨⟨c, hc⟩, c, fst_query_eq_error_iff.2 hc⟩
  · intro o ho c d hc hv
    rw [compileRoot_of_get? (Index.get?_of_mem ho), fst_compileObject] at hc
    obtain ⟨cycle, hr, rfl⟩ := entry_failed hc hv
    obtain ⟨past, x, u, hvis, hn, hk, rfl⟩ := (breaks_of_project hr).exists_name
    exact ⟨past, x, u, hvis, hvis.head?_eq, hvis.isChain, hvis.key_eq, hn, hk, rfl⟩

def sampleNode : Object :=
  ⟨"Node", "App.Node", "K", false, .strict, [referenceField "Next" "App.Node"]⟩

theorem cycle_of_reached_sample :
    sampleNode ∈ sample.toList ∧ sample.Follows sampleNode sampleNode ∧
      (∃ c, (sample.query sampleNode none ⟨["User"], (sample.compileAll ∅).2⟩).1 = .error c) ∧
      (sample.compileRoot (ident sampleNode) (sample.compileAll ∅).2).1 =
        some ⟨"App.Node", "K", "Node", .failed (.ofObject .cyclic "Node" ⟨"App.Node", "K"⟩ none)⟩ ∧
      ∃ past x u, sample.Visits sampleNode ⟨[], (sample.compileAll ∅).2⟩ past x u ∧
        (past ++ [x]).IsChain sample.Refers ∧ (∃ p ∈ past, p.name = x.name) ∧
        u.memo.paths? (ident x) = none ∧
        Diagnostic.ofObject .cyclic "Node" ⟨"App.Node", "K"⟩ none =
          .ofObject .cyclic x.name ⟨x.className, x.key⟩ none := by
  have ho : sampleNode ∈ sample.toList := by decide +kernel
  have hr : sample.Refers sampleNode sampleNode :=
    ⟨referenceField "Next" "App.Node", List.mem_singleton_self _, by decide +kernel⟩
  have hc : (sample.compileRoot (ident sampleNode) (sample.compileAll ∅).2).1 =
      some ⟨"App.Node", "K", "Node", .failed (.ofObject .cyclic "Node" ⟨"App.Node", "K"⟩ none)⟩ := by
    decide +kernel
  obtain ⟨hcycle, hfailed⟩ := cycle_of_reached (.compileAll .start)
  obtain ⟨past, x, u, h, -, hchain, -, hn, hk, hd⟩ := hfailed _ ho _ _ hc rfl
  exact ⟨ho, .single hr, (hcycle _ ho _ .refl (.single hr) ["User"] none).2, hc, past, x, u, h, hchain, hn,
    hk, hd⟩

end Soql.Schema
