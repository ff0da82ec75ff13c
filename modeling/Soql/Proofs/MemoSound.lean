import Soql.Proofs.Expansion
import Soql.Proofs.PlainPaths
import Soql.Proofs.Reached

/-!
# What is remembered is true

`Schema.Sound m`: whatever the memo `m` says of an object is what the plain reading says, and no
cycle is reached from that object. Every expansion keeps this, also one that fails halfway, and
answers by the plain reading when it answers at all (`sound_project`). So it holds of all memos that
calls on a schema can leave behind (`Reached.sound`).
-/

namespace Soql.Schema

variable {s : Schema} {o : Object} {m : Memo} {active : List String}

/-- The memo agrees with the plain reading. -/
def Sound (s : Schema) (m : Memo) : Prop :=
  ∀ i paths, m.paths? i = some paths →
    ∃ o, s.get? i = some o ∧ s.Acyclic o ∧ s.plain? o = some paths

theorem sound_empty : s.Sound ∅ := fun _ _ h => nomatch h

theorem Sound.known (h : s.Sound m) (ho : o ∈ s.toList) {paths : List String}
    (hm : m.paths? (ident o) = some paths) : s.Acyclic o ∧ s.plain? o = some paths := by
  obtain ⟨o', ho', ha, hp⟩ := h _ _ hm
  obtain rfl : o = o' := Option.some.inj ((Index.get?_of_mem ho).symm.trans ho')
  exact ⟨ha, hp⟩

theorem Sound.remember (h : s.Sound m) (ho : o ∈ s.toList) (ha : s.Acyclic o) {paths : List String}
    (hp : s.plain? o = some paths) : s.Sound (m.remember (ident o) paths) := by
  intro i qs hq
  rw [Memo.paths?_remember] at hq
  split at hq
  · rename_i e
    obtain rfl := Option.some.inj hq
    exact ⟨o, e ▸ Index.get?_of_mem ho, ha, hp⟩
  · exact h i qs hq

theorem plainField_eq_expand {key : String} {f : Field} {t : Object} (h : s.target? key f = some t) :
    s.plainField s.plainPaths key f = f.expand (s.plain? t) := by
  have e : ∀ p n : String, "(SELECT " ++ p ++ " FROM " ++ n ++ ")" =
      "(" ++ ("SELECT " ++ p ++ " FROM " ++ n) ++ ")" := fun p n => by
    rw [show "(SELECT " = "(" ++ "SELECT " from rfl]
    simp only [String.append_assoc]
  rw [plainField, h, plain?]
  by_cases ht : t.fields = []
  · simp [ht, Field.expand]
  · simp [ht, Field.expand, queryText, e]

/-- The targets of fields are acyclic, and `paths` is what the fields add by the plain reading. -/
def ReadsFields (s : Schema) (key : String) (fs : List Field) (paths : List String) : Prop :=
  (∀ f ∈ fs, ∀ t, s.target? key f = some t → s.Acyclic t) ∧
    paths = fs.flatMap (s.plainField s.plainPaths key)

namespace ReadsFields
variable {key : String} {f : Field} {fs : List Field} {paths : List String} {t : Object}

theorem cons_leaf (ht : s.target? key f = none) (h : s.ReadsFields key fs paths) :
    s.ReadsFields key (f :: fs) ([f.name] ++ paths) := by
  refine ⟨fun g hg u hu => ?_, by rw [List.flatMap_cons, plainField_of_none ht, h.2]⟩
  rcases List.mem_cons.1 hg with rfl | hg
  · rw [ht] at hu; cases hu
  · exact h.1 g hg u hu

theorem cons_nested (ht : s.target? key f = some t) (ha : s.Acyclic t) (h : s.ReadsFields key fs paths) :
    s.ReadsFields key (f :: fs) (f.expand (s.plain? t) ++ paths) := by
  refine ⟨fun g hg u hu => ?_, by rw [List.flatMap_cons, plainField_eq_expand ht, h.2]⟩
  rcases List.mem_cons.1 hg with rfl | hg
  · obtain rfl : t = u := Option.some.inj (ht.symm.trans hu)
    exact ha
  · exact h.1 g hg u hu

theorem owner (h : s.ReadsFields o.key o.fields paths) : s.Acyclic o ∧ paths = s.plainPaths o := by
  have ha : s.Acyclic o := Acyclic.of_forall_refers fun t ⟨f, hf, ht⟩ => h.1 f hf t ht
  exact ⟨ha, h.2.trans (plainPaths_eq ha).symm⟩

end ReadsFields

theorem soundRules : s.Rules
    (fun o _ m r m' => o ∈ s.toList → s.Sound m →
      s.Sound m' ∧ ∀ a, r = .ok a → s.Acyclic o ∧ a = s.plain? o)
    (fun key fs _ m r m' => s.Sound m → s.Sound m' ∧ ∀ paths, r = .ok paths → s.ReadsFields key fs paths) where
  known hm ho h := by
    obtain ⟨ha, hp⟩ := h.known ho hm
    refine ⟨h, ?_⟩
    rintro a ⟨⟩
    exact ⟨ha, hp.symm⟩
  active _ _ _ h := ⟨h, fun _ => nofun⟩
  bare _ _ hf _ h := by
    refine ⟨h, ?_⟩
    rintro a ⟨⟩
    exact ⟨.of_fields_nil hf, (plain?_eq_none_iff.2 hf).symm⟩
  failed _ _ _ hQ _ h := ⟨(hQ h).1, fun _ => nofun⟩
  -- only here something is remembered, and by now all targets are known to be acyclic
  done _ _ hf hQ ho h := by
    obtain ⟨h', hr⟩ := hQ h
    obtain ⟨ha, rfl⟩ := (hr _ rfl).owner
    have hp : s.plain? _ = some _ := plain?_eq_some_iff.2 ⟨hf, rfl⟩
    refine ⟨h'.remember ho ha hp, ?_⟩
    rintro a ⟨⟩
    exact ⟨ha, hp.symm⟩
  nil h := by
    refine ⟨h, ?_⟩
    rintro a ⟨⟩
    exact ⟨by simp, rfl⟩
  leaf ht hQ h := by
    refine ⟨(hQ h).1, fun _ hr => ?_⟩
    obtain ⟨paths, hp, rfl⟩ := map_eq_ok_iff.1 hr
    exact ((hQ h).2 paths hp).cons_leaf ht
  broken ht _ hP h := ⟨(hP (mem_of_target? ht) h).1, fun _ => nofun⟩
  nested ht _ hP hQ h := by
    obtain ⟨h₁, ht'⟩ := hP (mem_of_target? ht) h
    obtain ⟨ha, rfl⟩ := ht' _ rfl
    refine ⟨(hQ h₁).1, fun _ hr => ?_⟩
    obtain ⟨paths, hp, rfl⟩ := map_eq_ok_iff.1 hr
    exact ((hQ h₁).2 paths hp).cons_nested ht ha

theorem sound_project (h : s.Sound m) (ho : o ∈ s.toList) (active : List String) :
    s.Sound (s.project o ⟨active, m⟩).2.memo ∧
      ∀ a, (s.project o ⟨active, m⟩).1 = .ok a → s.Acyclic o ∧ a = s.plain? o :=
  soundRules.project o active m ho h

theorem keeps_sound : s.Keeps s.Sound where
  project h ho active := (sound_project h ho active).1
  projectAll h key fs active := (soundRules.projectAll key fs active _ h).1

theorem Reached.sound (h : s.Reached m) : s.Sound m := keeps_sound.reached sound_empty h

/-! ### Queries and roots -/

theorem Sound.query_eq_some (h : s.Sound m) (ho : o ∈ s.toList) {source : Option String} {text : String}
    (ht : (s.query o source ⟨active, m⟩).1 = .ok (some text)) :
    s.Acyclic o ∧ text = queryText (s.plainPaths o) (source.getD o.name) := by
  obtain ⟨paths, hr, rfl⟩ := fst_query_eq_some_iff.1 ht
  obtain ⟨ha, he⟩ := (sound_project h ho active).2 _ hr
  obtain ⟨-, rfl⟩ := plain?_eq_some_iff.1 he.symm
  exact ⟨ha, rfl⟩

theorem Sound.entry_query (h : s.Sound m) (ho : o ∈ s.toList) {c : Compiled} {text : String} {plan : Plan}
    (hc : s.entry o (s.project o ⟨[], m⟩).1 = some c) (hv : c.verdict = .query text plan) :
    s.Acyclic o ∧ text = queryText (s.plainPaths o) o.name := by
  obtain ⟨paths, hr, rfl⟩ := Schema.entry_query hc hv
  obtain ⟨ha, hp⟩ := (sound_project h ho []).2 _ hr
  exact ⟨ha, by rw [(plain?_eq_some_iff.1 hp.symm).2]⟩

theorem Sound.of_mem_compileEach (h : s.Sound m) {os : List Object} (hos : ∀ o ∈ os, o ∈ s.toList)
    {c : Compiled} (hc : c ∈ (s.compileEach os m).1) :
    ∃ o ∈ os, ∃ m', s.Sound m' ∧ s.entry o (s.project o ⟨[], m'⟩).1 = some c := by
  obtain ⟨before, o, after, rfl, ho⟩ := mem_compileEach_iff.1 hc
  rw [fst_compileObject] at ho
  exact ⟨o, by simp, _, keeps_sound.compileEach h fun p hp => hos p (by simp [hp]), ho⟩

/-- At every moment what is remembered of an object is its plain reading, and no cycle is reached
from it; every answer that calls give then is the plain reading too. -/
theorem plainPaths_of_reached (h : s.Reached m) :
    (∀ i paths, m.paths? i = some paths →
      ∃ o, s.get? i = some o ∧ s.Acyclic o ∧ paths = s.plainPaths o) ∧
    (∀ o ∈ s.toList, ∀ active paths, (s.project o ⟨active, m⟩).1 = .ok (some paths) →
      s.Acyclic o ∧ paths = s.plainPaths o) ∧
    (∀ o ∈ s.toList, ∀ source active text, (s.query o source ⟨active, m⟩).1 = .ok (some text) →
      s.Acyclic o ∧
        text = "SELECT " ++ ", ".intercalate (s.plainPaths o) ++ " FROM " ++ source.getD o.name) ∧
    (∀ i c text plan, (s.compileRoot i m).1 = some c → c.verdict = .query text plan →
      ∃ o, s.get? i = some o ∧ s.Acyclic o ∧
        text = "SELECT " ++ ", ".intercalate (s.plainPaths o) ++ " FROM " ++ o.name) ∧
    (∀ c ∈ (s.compileAll m).1, ∀ text plan, c.verdict = .query text plan →
      ∃ o, s.get? ⟨c.className, c.key⟩ = some o ∧ s.Acyclic o ∧
        text = "SELECT " ++ ", ".intercalate (s.plainPaths o) ++ " FROM " ++ o.name) := by
  refine ⟨fun i paths hi => ?_, fun o ho active paths hp => ?_,
    fun o ho source active text ht => h.sound.query_eq_some ho ht, fun i c text plan hc hv => ?_,
    fun c hc text plan hv => ?_⟩
  · obtain ⟨o, ho, ha, hp⟩ := h.sound i paths hi
    exact ⟨o, ho, ha, (plain?_eq_some_iff.1 hp).2.symm⟩
  · obtain ⟨ha, he⟩ := (sound_project h.sound ho active).2 _ hp
    exact ⟨ha, (plain?_eq_some_iff.1 he.symm).2.symm⟩
  · obtain ⟨o, ho, hc⟩ := exists_of_compileRoot hc
    exact ⟨o, ho, h.sound.entry_query (Index.mem_of_get? ho) hc hv⟩
  · obtain ⟨o, ho, m', hm', hc⟩ := h.sound.of_mem_compileEach (fun _ ho => ho) hc
    rw [ident_of_entry hc]
    exact ⟨o, Index.get?_of_mem ho, hm'.entry_query ho hc hv⟩

def referenceField (name type : String) : Field :=
  ⟨name, name, some ⟨type, false, none, false, false⟩, .strict⟩

def collectionField (name type : String) : Field :=
  ⟨name, name, some ⟨"List", true, some type, false, false⟩, .strict⟩

/-- Accounts with their contacts and their owner, next to nodes that refer to themselves. -/
def sample : Schema := .ofList [
  ⟨"Account", "App.Account", "K", false, .strict,
    [collectionField "Contacts" "App.Contact", referenceField "Owner" "App.User?"]⟩,
  ⟨"Contact", "App.Contact", "K", false, .strict, [referenceField "LastName" "string"]⟩,
  ⟨"Node", "App.Node", "K", false, .strict, [referenceField "Next" "App.Node"]⟩,
  ⟨"User", "App.User", "K", false, .strict, [referenceField "Username" "string"]⟩]

theorem plainPaths_of_reached_sample :
    (sample.compileAll ∅).2.paths? ⟨"App.Account", "K"⟩ =
        some ["(SELECT LastName FROM Contacts)", "Owner.Username"] ∧
      ∃ o, sample.get? ⟨"App.Account", "K"⟩ = some o ∧ sample.Acyclic o ∧
        ["(SELECT LastName FROM Contacts)", "Owner.Username"] = sample.plainPaths o := by
  have hp : (sample.compileAll ∅).2.paths? ⟨"App.Account", "K"⟩ =
      some ["(SELECT LastName FROM Contacts)", "Owner.Username"] := by decide +kernel
  exact ⟨hp, (plainPaths_of_reached (.compileAll .start)).1 _ _ hp⟩

end Soql.Schema
