import Soql.Proofs.QueryShape

/-!
# Plans say what the query selects

A plan is made without a look at the query, and a query without a look at plans. Still the items of a
query can be read off the plans alone (`Plan.itemsWithin`): a field without a nested target stands
for itself, one with a target for the items of the target's plan. Both sides follow the same targets
since no object of a built schema is without fields, where the query would leave out what the plan
nests (`items_fieldPlan`). The plan of a query leads to no cycle, so reading it comes to an end.
Main statement: `query_of_plan`.
-/

namespace Soql

/-- What a field with a nested target stands for, given the items of the target. -/
def FieldPlan.nest (f : FieldPlan) (items : List String) : List String :=
  if f.isCollection then ["(SELECT " ++ ", ".intercalate items ++ " FROM " ++ f.jsonKey ++ ")"]
  else items.map fun item => f.jsonKey ++ "." ++ item

/-- The items of a field, when `items` gives those of plans; absent if its target has no plan. -/
def FieldPlan.items (plan? : Ident → Option Plan) (items : Plan → Option (List String)) (f : FieldPlan) :
    Option (List String) :=
  match f.nested with
  | none => some [f.jsonKey]
  | some i => ((plan? i).bind items).map f.nest

/-- The items of a plan, reading plans inside one another at most `depth` deep. -/
def Plan.itemsWithin (plan? : Ident → Option Plan) : Nat → Plan → Option (List String)
  | 0, _ => none
  | depth + 1, p => (p.fields.mapM (FieldPlan.items plan? (itemsWithin plan? depth))).map List.flatten

/-- A field of `p` has `q` as its nested target. -/
def Plan.Nests (plan? : Ident → Option Plan) (p q : Plan) : Prop :=
  ∃ f ∈ p.fields, ∃ i, f.nested = some i ∧ plan? i = some q

theorem mapM_eq_some_of_forall {α β : Type} {f : α → Option β} {g : α → β} {l : List α}
    (h : ∀ a ∈ l, f a = some (g a)) : l.mapM f = some (l.map g) := by
  induction l with
  | nil => rfl
  | cons a l ih =>
    have ih := ih fun b hb => h b (List.mem_cons_of_mem a hb)
    rw [List.mapM_cons, h a (List.mem_cons_self ..), ih]
    rfl

namespace Schema
variable {s : Schema} {o t : Object}

/-- The plan of the object with this identity. -/
def plan? (s : Schema) (i : Ident) : Option Plan := (s.get? i).map s.plan

theorem plan?_of_mem (ho : o ∈ s.toList) : s.plan? (ident o) = some (s.plan o) := by
  rw [plan?, Index.get?_of_mem ho]
  rfl

/-! ### What plans lead to -/

theorem nests_plan_iff {q : Plan} : Plan.Nests s.plan? (s.plan o) q ↔ ∃ t, s.Refers o t ∧ q = s.plan t := by
  constructor
  · rintro ⟨_, hf, i, hi, hq⟩
    obtain ⟨f, hfo, rfl⟩ := List.mem_map.1 hf
    obtain ⟨t, ht, rfl⟩ := Option.map_eq_some_iff.1 hi
    rw [plan?_of_mem (mem_of_target? ht)] at hq
    exact ⟨t, ⟨f, hfo, ht⟩, (Option.some.inj hq).symm⟩
  · rintro ⟨t, ⟨f, hf, ht⟩, rfl⟩
    have hn : (s.fieldPlan o.key f).nested = some (ident t) := by
      rw [fieldPlan, ht]
      rfl
    exact ⟨s.fieldPlan o.key f, List.mem_map_of_mem hf, ident t, hn, plan?_of_mem (mem_of_target? ht)⟩

theorem exists_of_nests {q : Plan} (h : Relation.ReflTransGen (Plan.Nests s.plan?) (s.plan o) q) :
    ∃ t, s.Reaches o t ∧ q = s.plan t := by
  induction h with
  | refl => exact ⟨o, .refl, rfl⟩
  | tail _ h ih =>
    obtain ⟨t, ht, rfl⟩ := ih
    obtain ⟨u, hu, rfl⟩ := nests_plan_iff.1 h
    exact ⟨u, ht.tail hu, rfl⟩

/-- A nested target is an object of the schema and has the key of the plan. -/
theorem target_of_nested {f : FieldPlan} (hf : f ∈ (s.plan o).fields) {i : Ident} (hi : f.nested = some i) :
    i.key = o.key ∧ ∃ t, s.get? i = some t := by
  obtain ⟨g, -, rfl⟩ := List.mem_map.1 hf
  obtain ⟨t, ht, rfl⟩ := Option.map_eq_some_iff.1 hi
  exact ⟨key_of_target? ht, t, Index.get?_of_mem (mem_of_target? ht)⟩

theorem Acyclic.acc_plan (h : s.Acyclic o) : Acc (flip (Plan.Nests s.plan?)) (s.plan o) := by
  induction h using Acyclic.induction with
  | step o h ih =>
    refine Acc.intro _ fun q hq => ?_
    obtain ⟨t, ht, rfl⟩ := nests_plan_iff.1 hq
    exact ih t ht

/-! ### Items -/

section
variable (hf : ∀ p ∈ s.toList, p.fields ≠ [])
include hf

theorem items_fieldPlan {items : Plan → Option (List String)} {key : String} {f : Field}
    (h : ∀ t, s.target? key f = some t → items (s.plan t) = some (s.plainPaths t)) :
    (s.fieldPlan key f).items s.plan? items = some (s.plainField s.plainPaths key f) := by
  rw [FieldPlan.items, plainField, fieldPlan]
  cases ht : s.target? key f with
  | none => rfl
  | some t =>
    have hm := mem_of_target? ht
    simp only [Option.map_some, plan?_of_mem hm, Option.bind_some, h t ht, if_neg (hf t hm)]
    rfl

theorem Acyclic.itemsWithin_plan (h : s.Acyclic o) :
    ∀ {depth}, s.rank o < depth → (s.plan o).itemsWithin s.plan? depth = some (s.plainPaths o) := by
  induction h using Acyclic.induction with
  | step o h ih =>
    intro depth hd
    obtain ⟨depth, rfl⟩ : ∃ k, depth = k + 1 := ⟨depth - 1, by omega⟩
    have hitems : ∀ f ∈ o.fields,
        (FieldPlan.items s.plan? (Plan.itemsWithin s.plan? depth) ∘ s.fieldPlan o.key) f =
          some (s.plainField s.plainPaths o.key f) := by
      intro f hfo
      refine items_fieldPlan hf fun t ht => ?_
      have hr : s.Refers o t := ⟨f, hfo, ht⟩
      have := rank_lt_of_refers h hr
      exact ih t hr (by omega)
    rw [Plan.itemsWithin, plan, List.mapM_map, mapM_eq_some_of_forall hitems, plainPaths_eq h, List.flatMap]
    rfl

end

theorem plan_of_entry {m : Memo} {c : Compiled} {text : String} {plan : Plan}
    (hc : s.entry o (s.project o ⟨[], m⟩).1 = some c) (hv : c.verdict = .query text plan) :
    plan = s.plan o := by
  match (s.project o ⟨[], m⟩).1, hc with
  | .ok (some _), hc => cases hc; cases hv; rfl
  | .error _, hc => cases hc; cases hv

open MonadAttach in
/-- A query of a built schema can be recomputed from plans alone: it selects what its plan and the
plans of nested targets stand for. All nested targets, at any depth, are objects of the schema with
the key of the plan, and going from plan to nested plan comes to an end. -/
theorem query_of_plan {m : Type → Type} [Monad m] [LawfulMonad m] [MonadAttach m] [LawfulMonadAttach m]
    {r : Resolver m} {objects : List ObjectDeclaration} {fields : List FieldDeclaration} {b : Built}
    (hb : CanReturn (build r objects fields) b) {memo : Memo} (hm : b.schema.Reached memo) {c : Compiled}
    (hc : c ∈ (b.schema.compileAll memo).1) {text : String} {plan : Plan}
    (hv : c.verdict = .query text plan) :
    (∃ items, (∀ depth, b.schema.size < depth → plan.itemsWithin b.schema.plan? depth = some items) ∧
      text = "SELECT " ++ ", ".intercalate items ++ " FROM " ++ plan.objectName) ∧
    (∀ q, Relation.ReflTransGen (Plan.Nests b.schema.plan?) plan q → ∀ f ∈ q.fields, ∀ i,
      f.nested = some i → i.key = plan.key ∧ ∃ t, b.schema.get? i = some t) ∧
    Acc (flip (Plan.Nests b.schema.plan?)) plan := by
  obtain ⟨o, ho, m', hm', hc⟩ := hm.sound.of_mem_compileEach (fun _ ho => ho) hc
  obtain ⟨ha, htext⟩ := hm'.entry_query ho hc hv
  obtain rfl := plan_of_entry hc hv
  have hf : ∀ p ∈ b.schema.toList, p.fields ≠ [] := fun p hp => fields_ne_nil_of_build hb hp
  refine ⟨⟨b.schema.plainPaths o, fun depth hd => ?_, htext⟩, fun q hq f hfq i hi => ?_, ha.acc_plan⟩
  · exact ha.itemsWithin_plan hf (Nat.lt_of_le_of_lt rank_le_size hd)
  · obtain ⟨t, hot, rfl⟩ := exists_of_nests hq
    obtain ⟨hk, ht⟩ := target_of_nested hfq hi
    exact ⟨hk.trans hot.key, ht⟩

theorem query_of_plan_ownedContacts :
    ∃ c ∈ (ownedContactsBuilt.schema.compileAll ∅).1, ∃ plan,
      c.verdict = .query "SELECT Owner.(SELECT LastName FROM Contacts) FROM Account" plan ∧
      plan.itemsWithin ownedContactsBuilt.schema.plan? 4 = some ["Owner.(SELECT LastName FROM Contacts)"] ∧
      (∃ items, (∀ depth, ownedContactsBuilt.schema.size < depth →
          plan.itemsWithin ownedContactsBuilt.schema.plan? depth = some items) ∧
        "SELECT Owner.(SELECT LastName FROM Contacts) FROM Account" =
          "SELECT " ++ ", ".intercalate items ++ " FROM " ++ plan.objectName) ∧
      Acc (flip (Plan.Nests ownedContactsBuilt.schema.plan?)) plan := by
  have hc : ∃ c ∈ (ownedContactsBuilt.schema.compileAll ∅).1, c.verdict =
      .query "SELECT Owner.(SELECT LastName FROM Contacts) FROM Account" (ownedContactsBuilt.schema.plan
        ⟨"Account", "App.Account", "K", false, .strict, [referenceField "Owner" "App.User"]⟩) := by
    decide +kernel
  obtain ⟨c, hc, hv⟩ := hc
  obtain ⟨hitems, -, hacc⟩ := query_of_plan (r := ownedContacts.resolver) rfl .start hc hv
  exact ⟨c, hc, _, hv, by decide +kernel, hitems, hacc⟩

end Schema
end Soql
