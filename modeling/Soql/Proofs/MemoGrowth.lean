import Soql.Proofs.Footprint
import Soql.Proofs.MemoSound

/-!
# What a call leaves behind

A call writes down only what it comes to, and only where nothing was written before
(`Schema.Grows`). An object's name is active while its fields are gone through, and an unknown
object of an active name is refused. So an object that fails is not known afterwards, though objects
that were finished on the way to the failure stay known. A call that succeeds leaves behind exactly
the objects with fields that it reaches, by `Closed.adds_of_project_eq`; for this to hold of a later
call too, the memory has to be closed whenever a call may start (`Reached.closed`). Main statement:
`footprint_of_reached`.
-/

namespace Soql.Schema

variable {s : Schema} {o x : Object} {m m' m₁ : Memo} {active : List String}
  {reached reached' : Object → Prop}

/-- What an expansion under the active names makes of a memory: nothing is overwritten, what is new
satisfies `reached`, and no object of an active name is new. -/
structure Grows (s : Schema) (reached : Object → Prop) (active : List String) (m m' : Memo) : Prop where
  keeps : ∀ i paths, m.paths? i = some paths → m'.paths? i = some paths
  reaches : ∀ x ∈ s.toList, m'.Knows x → m.Knows x ∨ reached x
  guarded : ∀ x ∈ s.toList, x.name ∈ active → m'.Knows x → m.Knows x

namespace Grows

theorem refl : s.Grows reached active m m := ⟨fun _ _ => id, fun _ _ => .inl, fun _ _ _ => id⟩

theorem mono (h : s.Grows reached active m m') (hr : ∀ x, reached x → reached' x) :
    s.Grows reached' active m m' :=
  ⟨h.keeps, fun x hx hk => (h.reaches x hx hk).imp id (hr x), h.guarded⟩

theorem trans (h : s.Grows reached active m m₁) (h' : s.Grows reached active m₁ m') :
    s.Grows reached active m m' where
  keeps i paths hi := h'.keeps i paths (h.keeps i paths hi)
  reaches x hx hk := (h'.reaches x hx hk).elim (h.reaches x hx) .inr
  guarded x hx hn hk := h.guarded x hx hn (h'.guarded x hx hn hk)

theorem nested {key : String} {f : Field} {fs : List Field} (ht : s.target? key f = some o)
    (h : s.Grows (s.Reaches o) active m m₁) (h' : s.Grows (s.FieldsReach key fs) active m₁ m') :
    s.Grows (s.FieldsReach key (f :: fs)) active m m' :=
  (h.mono fun _ hr => (fieldsReach_nested ht).2 (.inl hr)).trans
    (h'.mono fun _ hr => (fieldsReach_nested ht).2 (.inr hr))

/-- From the fields of an object to the object. -/
theorem owner (h : s.Grows (s.FieldsReach o.key o.fields) (o.name :: active) m m') :
    s.Grows (s.Reaches o) active m m' where
  keeps := h.keeps
  reaches x hx hk := (h.reaches x hx hk).imp id fun hr => reaches_iff.2 (.inr hr)
  guarded x hx hn := h.guarded x hx (List.mem_cons_of_mem _ hn)

theorem remember (h : s.Grows (s.Reaches o) active m m') (ho : o ∈ s.toList)
    (hm : m.paths? (ident o) = none) (ha : o.name ∉ active) (paths : List String) :
    s.Grows (s.Reaches o) active m (m'.remember (ident o) paths) where
  keeps i qs hi := by
    have hne : ident o ≠ i := by
      rintro rfl
      rw [hm] at hi
      cases hi
    rw [Memo.paths?_remember, if_neg hne]
    exact h.keeps i qs hi
  reaches x hx hk := by
    rcases Memo.knows_remember.1 hk with e | hk
    · exact .inr (eq_of_ident_eq ho hx e ▸ .refl)
    · exact h.reaches x hx hk
  guarded x hx hn hk := by
    rcases Memo.knows_remember.1 hk with e | hk
    · exact absurd (eq_of_ident_eq ho hx e ▸ hn) ha
    · exact h.guarded x hx hn hk

end Grows

theorem growsRules : s.Rules
    (fun o active m r m' => o ∈ s.toList → s.Grows (s.Reaches o) active m m' ∧
      (r = .ok none → m' = m) ∧ ∀ c, r = .error c → ¬ m'.Knows o)
    (fun key fs active m _ m' => s.Grows (s.FieldsReach key fs) active m m') where
  known _ _ := ⟨.refl, fun _ => rfl, nofun⟩
  active hm _ _ := ⟨.refl, nofun, fun _ _ => Memo.not_knows_iff.2 hm⟩
  bare _ _ _ _ := ⟨.refl, fun _ => rfl, nofun⟩
  -- the name of the failing object was active for all that came after it
  failed hm _ _ hQ ho :=
    ⟨hQ.owner, nofun, fun _ _ hk => Memo.not_knows_iff.2 hm (hQ.guarded _ ho (List.mem_cons_self ..) hk)⟩
  done hm ha _ hQ ho := ⟨hQ.owner.remember ho hm ha _, nofun, nofun⟩
  nil := .refl
  leaf ht hQ := hQ.mono fun _ => (fieldsReach_leaf ht).2
  broken ht _ hP := (hP (mem_of_target? ht)).1.mono fun _ hr => (fieldsReach_nested ht).2 (.inl hr)
  nested ht _ hP hQ := (hP (mem_of_target? ht)).1.nested ht hQ

/-- What calls have left behind is closed: known objects know all that they reach and that has
fields. A further call overwrites nothing. One that answers with paths adds exactly the objects with
fields that it reaches, one that answers with nothing adds nothing. One that fails does not know its
object afterwards; what it adds it has reached, and nothing that reaches a cycle is known. -/
theorem footprint_of_reached (h : s.Reached m) :
    (∀ o ∈ s.toList, m.Knows o → ∀ x, s.Reaches o x → x.fields ≠ [] → m.Knows x) ∧
    ∀ o ∈ s.toList, ∀ active r t, s.project o ⟨active, m⟩ = (r, t) →
      (∀ i paths, m.paths? i = some paths → t.memo.paths? i = some paths) ∧
      (∀ paths, r = .ok (some paths) →
        ∀ x ∈ s.toList, t.memo.Knows x ↔ m.Knows x ∨ s.Reaches o x ∧ x.fields ≠ []) ∧
      (r = .ok none → t.memo = m) ∧
      (∀ c, r = .error c → ¬ t.memo.Knows o ∧
        (∀ x ∈ s.toList, t.memo.Knows x → m.Knows x ∨ s.Reaches o x) ∧
        (∀ x ∈ s.toList, ∀ y, s.Reaches x y → s.Follows y y → ¬ t.memo.Knows x)) := by
  refine ⟨h.closed, fun o ho active r t he => ?_⟩
  obtain ⟨hg, hnone, herr⟩ := growsRules.project o active m ho
  rw [he] at hg hnone herr
  have hsound : s.Sound t.memo := keeps_sound.of_project_eq h.sound ho he
  refine ⟨hg.keeps, ?_, hnone, fun c hc => ⟨herr c hc, hg.reaches, ?_⟩⟩
  · rintro paths rfl
    exact h.closed.adds_of_project_eq ho he
  · intro x hx y hxy hy ⟨paths, hp⟩
    exact (hsound.known hx hp).1 y hxy hy

/-- A folder has an owner, and lies in another folder. -/
def folder : Object :=
  ⟨"Folder", "App.Folder", "K", false, .strict,
    [referenceField "Owner" "App.User", referenceField "Parent" "App.Folder"]⟩

def owningUser : Object :=
  ⟨"User", "App.User", "K", false, .strict, [referenceField "Username" "string"]⟩

def folders : Schema := .ofList [folder, owningUser]

theorem footprint_of_reached_folders :
    folder ∈ folders.toList ∧ owningUser ∈ folders.toList ∧
      (folders.project folder ⟨[], ∅⟩).1 = .error ⟨"Folder", ident folder⟩ ∧
      (folders.project folder ⟨[], ∅⟩).2.memo.Knows owningUser ∧
      ¬ (folders.project folder ⟨[], ∅⟩).2.memo.Knows folder ∧
      (Memo.Knows ∅ owningUser ∨ folders.Reaches folder owningUser) := by
  have hf : folder ∈ folders.toList := by decide +kernel
  have hu : owningUser ∈ folders.toList := by decide +kernel
  have he : (folders.project folder ⟨[], ∅⟩).1 = .error ⟨"Folder", ident folder⟩ := by decide +kernel
  have hk : (folders.project folder ⟨[], ∅⟩).2.memo.Knows owningUser := ⟨["Username"], by decide +kernel⟩
  obtain ⟨-, -, -, herr⟩ := (footprint_of_reached .start).2 folder hf [] _ _ rfl
  obtain ⟨hn, hr, -⟩ := herr _ he
  exact ⟨hf, hu, he, hk, hn, hr owningUser hu hk⟩

end Soql.Schema
