import Soql.Manifest.Resolver
import Soql.Proofs.Expansion
import Soql.Proofs.Roots
import Soql.Proofs.Verdicts

/-!
# Keys do not see one another

What belongs to one key is the view of that key (`Index.view`). The view of a built schema is what
the declarations of the key build alone (`view_build`), although a class may stand under several keys
and the rule on missing objects asks for the class only: that rule decides which report is made, not
whether one is. An expansion never leaves the key of its object, so it does the same in the view as
in the whole schema, and to the view of every other key it does nothing (`viewRules`). Hence the
entries of a key are those that its view gives alone (`fst_compileAll_view`). Main statement:
`key_isolation_of_build`.
-/

namespace Soql

/-! ### Views -/

namespace Index
variable {α : Type} [Identified α] {x : Index α} {a : α} {key : String}

/-- The entries of one key. -/
def view (x : Index α) (key : String) : Index α :=
  ⟨x.toList.filter fun a => (ident a).key = key, x.sorted.filter _⟩

theorem mem_view : a ∈ (x.view key).toList ↔ a ∈ x.toList ∧ (ident a).key = key := by
  rw [view, List.mem_filter, decide_eq_true_iff]

theorem get?_view (i : Ident) : (x.view key).get? i = if i.key = key then x.get? i else none := by
  refine Option.ext fun a => ?_
  rw [get?_eq_some_iff, mem_view]
  split
  · rename_i hi
    rw [get?_eq_some_iff]
    exact ⟨fun ⟨⟨ha, _⟩, e⟩ => ⟨ha, e⟩, fun ⟨ha, e⟩ => ⟨⟨ha, e ▸ hi⟩, e⟩⟩
  · rename_i hi
    exact iff_of_false (fun ⟨⟨_, hk⟩, e⟩ => hi (e ▸ hk)) nofun

theorem view_insert_of_eq (h : (ident a).key = key) : (x.insert a).view key = (x.view key).insert a := by
  refine ext_get? fun i => ?_
  rw [get?_view, get?_insert, get?_insert, get?_view]
  by_cases hi : ident a = i
  · rw [if_pos hi, if_pos hi, if_pos (hi ▸ h)]
  · rw [if_neg hi, if_neg hi]

theorem view_insert_of_ne (h : (ident a).key ≠ key) : (x.insert a).view key = x.view key := by
  refine ext_get? fun i => ?_
  rw [get?_view, get?_view, get?_insert]
  by_cases hi : ident a = i
  · rw [if_neg (hi ▸ h), if_neg (hi ▸ h)]
  · rw [if_neg hi]

end Index

theorem Memo.paths?_view {m : Memo} {key : String} {i : Ident} (h : i.key = key) :
    Memo.paths? (m.view key) i = m.paths? i := by
  rw [Memo.paths?, Index.get?_view, if_pos h, Memo.paths?]

/-! ### Building -/

namespace RuleTable
variable (r : Resolver Id) (objects : List ObjectDeclaration) (fields : List FieldDeclaration)
  (key : String)

theorem filter_acceptedObjects : (acceptedObjects r objects).filter (·.key = key) =
    acceptedObjects r (objects.filter (·.key = key)) := by
  refine filter_passed (fun before o ho => ?_) objects
  have hk : o.key = key := of_decide_eq_true ho
  rw [Bool.eq_iff_iff, Option.isNone_iff_eq_none, Option.isNone_iff_eq_none, objectFault?_eq_none_iff,
    objectFault?_eq_none_iff, exists_mem_filter_iff]
  exact fun p hp => decide_eq_true (hp.2.trans hk)

theorem filter_acceptedFields : (acceptedFields r objects fields).filter (·.key = key) =
    acceptedFields r (objects.filter (·.key = key)) (fields.filter (·.key = key)) := by
  refine filter_passed (fun before f hf => ?_) fields
  have hk : f.key = key := of_decide_eq_true hf
  rw [Bool.eq_iff_iff, Option.isNone_iff_eq_none, Option.isNone_iff_eq_none, fieldFault?_eq_none_iff,
    fieldFault?_eq_none_iff, ← filter_acceptedObjects, exists_mem_filter_iff, exists_mem_filter_iff]
  · exact fun g hg => decide_eq_true (hg.2.1.trans hk)
  · exact fun o ho => decide_eq_true (ho.2.trans hk)

variable {key} in
theorem fieldsOf_filter_key {o : ObjectDeclaration} (ho : o.key = key) :
    fieldsOf r (fields.filter (·.key = key)) o = fieldsOf r fields o :=
  fieldsOf_filter (p := (·.key = key)) (decide_eq_true ho)

theorem view_build : (build r objects fields).run.schema.view key =
    (build r (objects.filter (·.key = key)) (fields.filter (·.key = key))).run.schema := by
  refine Index.ext_mem fun x => ?_
  rw [Index.mem_view, (obeys_build r objects fields).mem_schema_iff, (obeys_build r _ _).mem_schema_iff,
    ← filter_acceptedFields, ← filter_acceptedObjects]
  constructor
  · rintro ⟨⟨o, ho, hne, rfl⟩, hk⟩
    have hk : o.key = key := hk
    refine ⟨o, List.mem_filter.2 ⟨ho, decide_eq_true hk⟩, ?_⟩
    rw [fieldsOf_filter_key r _ hk]
    exact ⟨hne, rfl⟩
  · rintro ⟨o, ho, hx⟩
    obtain ⟨ho, hk⟩ := List.mem_filter.1 ho
    have hk : o.key = key := of_decide_eq_true hk
    rw [fieldsOf_filter_key r _ hk] at hx
    exact ⟨⟨o, ho, hx⟩, hx.2 ▸ hk⟩

end RuleTable

/-! ### Compiling -/

namespace Schema
variable {s : Schema} {key : String}

theorem target?_view (s : Schema) (key : String) (f : Field) :
    Schema.target? (s.view key) key f = s.target? key f := by
  rw [target?, Index.get?_view, if_pos rfl, target?]

theorem plan_view {o : Object} (ho : o.key = key) : Schema.plan (s.view key) o = s.plan o := by
  subst ho
  have hf : Schema.fieldPlan (s.view o.key) o.key = s.fieldPlan o.key := by
    funext f
    rw [fieldPlan, fieldPlan, target?_view]
  rw [plan, plan, hf]

theorem entry_view {o : Object} (ho : o.key = key) (r : Except Cycle (Option (List String))) :
    Schema.entry (s.view key) o r = s.entry o r := by
  match r with
  | .ok (some paths) => rw [entry, entry, plan_view ho]
  | .ok none => rfl
  | .error c => rfl

-- For an object of the key, the expansion in the view and what it makes of the view of the memo; for
-- an object of another key, that it leaves the view of the memo alone.
theorem viewRules (s : Schema) (key : String) : s.Rules
    (fun o active m r m' =>
      (o.key = key → Schema.project (s.view key) o ⟨active, m.view key⟩ = (r, ⟨active, m'.view key⟩)) ∧
      (o.key ≠ key → m'.view key = m.view key))
    (fun k fs active m r m' =>
      (k = key → Schema.projectAll (s.view key) key fs ⟨active, m.view key⟩ = (r, ⟨active, m'.view key⟩)) ∧
      (k ≠ key → m'.view key = m.view key)) where
  known hm := by
    refine ⟨fun hk => ?_, fun _ => rfl⟩
    have hm := (Memo.paths?_view hk).trans hm
    simp only [project_eq, hm]
  active hm ha := by
    refine ⟨fun hk => ?_, fun _ => rfl⟩
    exact project_of_active ((Memo.paths?_view hk).trans hm) ha
  bare hm ha hf := by
    refine ⟨fun hk => ?_, fun _ => rfl⟩
    have hm := (Memo.paths?_view hk).trans hm
    simp only [project_eq, hm, if_neg ha, List.isEmpty_iff, if_pos hf]
  failed hm ha hf hQ := by
    refine ⟨fun hk => ?_, hQ.2⟩
    have hm := (Memo.paths?_view hk).trans hm
    have hQ := hQ.1 hk
    subst hk
    simp only [project_eq, hm, if_neg ha, List.isEmpty_iff, if_neg hf, hQ, List.erase_cons_head]
  done hm ha hf hQ := by
    constructor
    · intro hk
      have hm := (Memo.paths?_view hk).trans hm
      have hQ := hQ.1 hk
      subst hk
      simp only [project_eq, hm, if_neg ha, List.isEmpty_iff, if_neg hf, hQ, List.erase_cons_head]
      rw [Memo.remember, Memo.remember, Index.view_insert_of_eq]
      rfl
    · intro hk
      exact (Index.view_insert_of_ne hk).trans (hQ.2 hk)
  nil := ⟨fun _ => rfl, fun _ => rfl⟩
  leaf ht hQ := by
    refine ⟨fun hk => ?_, hQ.2⟩
    subst hk
    rw [projectAll, target?_view, ht, hQ.1 rfl]
    rfl
  broken ht _ hP := by
    have ho := key_of_target? ht
    constructor
    · intro hk
      subst hk
      simp only [projectAll, target?_view, ht, hP.1 ho]
    · exact fun hk => hP.2 (ho ▸ hk)
  nested ht _ hP hQ := by
    have ho := key_of_target? ht
    constructor
    · intro hk
      subst hk
      simp only [projectAll, target?_view, ht, hP.1 ho, hQ.1 rfl]
      rfl
    · exact fun hk => (hQ.2 hk).trans (hP.2 (ho ▸ hk))

theorem project_view {o : Object} (ho : o.key = key) (m : Memo) :
    Schema.project (s.view key) o ⟨[], m.view key⟩ =
      ((s.project o ⟨[], m⟩).1, ⟨[], (s.project o ⟨[], m⟩).2.memo.view key⟩) :=
  ((viewRules s key).project o [] m).1 ho

theorem view_project_of_ne {o : Object} (ho : o.key ≠ key) (m : Memo) :
    (s.project o ⟨[], m⟩).2.memo.view key = m.view key :=
  ((viewRules s key).project o [] m).2 ho

theorem fst_compileEach_view (os : List Object) (m : Memo) :
    (s.compileEach os m).1.filter (·.key = key) =
      (Schema.compileEach (s.view key) (os.filter (·.key = key)) (m.view key)).1 := by
  induction os generalizing m with
  | nil => rfl
  | cons o os ih =>
    rw [compileEach_cons, List.filter_append, ih, compileObject_eq]
    by_cases ho : o.key = key
    · have hos : (o :: os).filter (·.key = key) = o :: os.filter (·.key = key) :=
        List.filter_cons_of_pos (decide_eq_true ho)
      rw [hos, compileEach_cons, compileObject_eq, project_view ho, entry_view ho]
      cases hc : s.entry o (s.project o ⟨[], m⟩).1 with
      | none => rfl
      | some c =>
        have hk : c.key = key := (congrArg Ident.key (ident_of_entry hc)).trans ho
        simp [hk]
    · have hos : (o :: os).filter (·.key = key) = os.filter (·.key = key) :=
        List.filter_cons_of_neg (by simpa using ho)
      rw [hos, view_project_of_ne ho]
      cases hc : s.entry o (s.project o ⟨[], m⟩).1 with
      | none => rfl
      | some c =>
        have hk : c.key ≠ key := (congrArg Ident.key (ident_of_entry hc)).trans_ne ho
        simp [hk]

/-- The entries of a key are those that its view gives alone. -/
theorem fst_compileAll_view (s : Schema) (key : String) (m : Memo) :
    (s.compileAll m).1.filter (·.key = key) = (Schema.compileAll (s.view key) (m.view key)).1 :=
  fst_compileEach_view s.toList m

/-- Whatever is declared under other keys: the same declarations of a key build the same objects of
that key, and compiling gives the same entries for them. -/
theorem key_isolation_of_build (r : Resolver Id) (key : String)
    {objects objects' : List ObjectDeclaration} {fields fields' : List FieldDeclaration}
    (ho : objects.filter (·.key = key) = objects'.filter (·.key = key))
    (hf : fields.filter (·.key = key) = fields'.filter (·.key = key)) {b b' : Built}
    (hb : (build r objects fields).run = b) (hb' : (build r objects' fields').run = b') :
    b.schema.toList.filter (·.key = key) = b'.schema.toList.filter (·.key = key) ∧
      (b.schema.compileAll ∅).1.filter (·.key = key) = (b'.schema.compileAll ∅).1.filter (·.key = key) := by
  have hview : b.schema.view key = b'.schema.view key := by
    rw [← hb, ← hb', RuleTable.view_build, RuleTable.view_build, ho, hf]
  refine ⟨congrArg Index.toList hview, ?_⟩
  rw [fst_compileAll_view, fst_compileAll_view, hview]

/-- Orders have items under two keys; under one of them items refer back to their orders. -/
def keyedOrders : Manifest where
  types := [
    ⟨"App.Order", true, true, none, [⟨"Item", "App.Item", false, none, false, false, .public, none⟩]⟩,
    ⟨"App.Item", true, true, none,
      [⟨"Order", "App.Order", false, none, false, false, .public, none⟩,
        ⟨"Title", "string", false, none, false, false, .public, none⟩]⟩]
  objects := [⟨"Order", "K", "App.Order", none⟩, ⟨"Order", "L", "App.Order", none⟩,
    ⟨"Item", "L", "App.Item", none⟩, ⟨"Item", "K", "App.Item", none⟩]
  fields := [⟨"Item", "L", "Item", "App.Order", none⟩, ⟨"Item", "K", "Item", "App.Order", none⟩,
    ⟨"Title", "K", "Title", "App.Item", none⟩, ⟨"Order", "L", "Order", "App.Item", none⟩]

def keyedOrdersBuilt : Built :=
  (build keyedOrders.resolver (keyedOrders.objectDeclarations .strict) keyedOrders.fieldDeclarations).run

theorem key_isolation_of_build_keyedOrders :
    let objects := keyedOrders.objectDeclarations .strict
    let fields := keyedOrders.fieldDeclarations
    let alone := (build keyedOrders.resolver (objects.filter (·.key = "K")) (fields.filter (·.key = "K"))).run
    objects.filter (·.key = "K") = (objects.filter (·.key = "K")).filter (·.key = "K") ∧
      fields.filter (·.key = "K") = (fields.filter (·.key = "K")).filter (·.key = "K") ∧
      (∀ c ∈ (keyedOrdersBuilt.schema.compileAll ∅).1, c.key = "L" → c.query? = none) ∧
      (keyedOrdersBuilt.schema.compileAll ∅).1.filterMap (·.query?) =
        ["SELECT Title FROM Item", "SELECT Item.Title FROM Order"] ∧
      (keyedOrdersBuilt.schema.compileAll ∅).1.filter (·.key = "K") =
        (alone.schema.compileAll ∅).1.filter (·.key = "K") := by
  intro objects fields alone
  have ho : objects.filter (·.key = "K") = (objects.filter (·.key = "K")).filter (·.key = "K") := by
    decide +kernel
  have hf : fields.filter (·.key = "K") = (fields.filter (·.key = "K")).filter (·.key = "K") := by
    decide +kernel
  exact ⟨ho, hf, by decide +kernel, by decide +kernel,
    (key_isolation_of_build keyedOrders.resolver "K" ho hf rfl rfl).2⟩

end Schema
end Soql
