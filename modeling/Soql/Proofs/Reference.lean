import Mathlib.Logic.Relation
import Soql.Schema

/-!
# References between objects

An object refers to another through a field whose target it is. `Schema.Acyclic o`: no cycle is
reached from `o` along references. References keep the key and stay in the schema, so there are
finitely many objects to reach; from an acyclic object each reference leads to one that reaches
fewer of them (`rank_lt_of_refers`), which gives an induction along references (`Acyclic.induction`).
-/

namespace Soql.Schema

variable {s : Schema} {o t u : Object}

/-- A field of `o` has `t` as its target. -/
def Refers (s : Schema) (o t : Object) : Prop := ∃ f ∈ o.fields, s.target? o.key f = some t

/-- `t` is `o`, or comes after it along references. -/
abbrev Reaches (s : Schema) : Object → Object → Prop := Relation.ReflTransGen s.Refers

/-- `t` comes after `o` along one reference or more. -/
abbrev Follows (s : Schema) : Object → Object → Prop := Relation.TransGen s.Refers

/-- No cycle is reached from `o`. -/
def Acyclic (s : Schema) (o : Object) : Prop := ∀ t, s.Reaches o t → ¬ s.Follows t t

theorem Refers.mem (h : s.Refers o t) : t ∈ s.toList :=
  let ⟨_, _, h⟩ := h; mem_of_target? h

theorem Refers.key (h : s.Refers o t) : t.key = o.key :=
  let ⟨_, _, h⟩ := h; key_of_target? h

theorem Reaches.key (h : s.Reaches o t) : t.key = o.key := by
  induction h with
  | refl => rfl
  | tail _ h ih => exact h.key.trans ih

theorem Follows.mem (h : s.Follows o t) : t ∈ s.toList := by
  cases h with
  | single h => exact h.mem
  | tail _ h => exact h.mem

theorem Reaches.mem (h : s.Reaches o t) (ho : o ∈ s.toList) : t ∈ s.toList := by
  induction h with
  | refl => exact ho
  | tail _ h _ => exact h.mem

theorem not_refers_of_fields (h : o.fields = []) : ¬ s.Refers o t := by
  rintro ⟨f, hf, -⟩
  rw [h] at hf
  exact List.not_mem_nil hf

namespace Acyclic

theorem of_reaches (h : s.Acyclic o) (ht : s.Reaches o t) : s.Acyclic t :=
  fun u hu => h u (ht.trans hu)

theorem of_refers (h : s.Acyclic o) (ht : s.Refers o t) : s.Acyclic t := h.of_reaches (.single ht)

theorem not_follows (h : s.Acyclic o) : ¬ s.Follows o o := h o .refl

theorem of_forall_refers (h : ∀ t, s.Refers o t → s.Acyclic t) : s.Acyclic o := by
  intro u hu hc
  rcases hu.cases_head with rfl | ⟨t, ht, htu⟩
  · obtain ⟨t, ht, hto⟩ := Relation.TransGen.head'_iff.1 hc
    exact h t ht o hto hc
  · exact h t ht u htu hc

theorem of_fields_nil (h : o.fields = []) : s.Acyclic o :=
  of_forall_refers fun _ ht => absurd ht (not_refers_of_fields h)

/-- A number that falls along every reference of the schema leaves room for no cycle. -/
theorem of_falling (μ : Object → Nat)
    (h : ∀ p ∈ s.toList, ∀ f ∈ p.fields, ∀ t ∈ s.target? p.key f, μ t < μ p) (ho : o ∈ s.toList) :
    s.Acyclic o := by
  intro t hot hc
  have key : ∀ {p q}, p ∈ s.toList → s.Follows p q → μ q < μ p := by
    intro p q hp hq
    induction hq with
    | single hr =>
      obtain ⟨f, hf, hr⟩ := hr
      exact h p hp f hf _ hr
    | tail hq hr ih =>
      obtain ⟨f, hf, hr⟩ := hr
      exact Nat.lt_trans (h _ (Reaches.mem hq.to_reflTransGen hp) f hf _ hr) ih
  exact Nat.lt_irrefl _ (key (hot.mem ho) hc)

end Acyclic

/-! ### Induction along references -/

open Classical in
/-- How many objects come after `o`. -/
noncomputable def rank (s : Schema) (o : Object) : Nat := (s.toList.filter fun t => s.Follows o t).length

theorem rank_le_size : s.rank o ≤ s.size := List.length_filter_le ..

theorem rank_lt_of_refers (h : s.Acyclic o) (ht : s.Refers o t) : s.rank t < s.rank o := by
  classical
  -- what comes after `t` comes after `o`, and `t` is one of those no more
  have e : s.toList.filter (fun u => s.Follows t u) =
      (s.toList.filter fun u => s.Follows o u).filter fun u => s.Follows t u := by
    rw [List.filter_filter]
    refine List.filter_congr fun u _ => ?_
    by_cases hu : s.Follows t u
    · simp [hu, Relation.TransGen.head ht hu]
    · simp [hu]
  rw [rank, e]
  refine List.length_filter_lt_length_iff_exists.2 ⟨t, ?_, ?_⟩
  · simpa using ⟨ht.mem, Relation.TransGen.single ht⟩
  · simpa using (h.of_refers ht).not_follows

theorem rank_lt_of_follows (h : s.Acyclic o) (ht : s.Follows o t) : s.rank t < s.rank o := by
  induction ht with
  | single hr => exact rank_lt_of_refers h hr
  | tail hq hr ih =>
    have hlt := rank_lt_of_refers (h.of_reaches hq.to_reflTransGen) hr
    exact Nat.lt_trans hlt ih

/-- What holds of an object whenever it holds of those that it refers to, holds of an acyclic one. -/
@[elab_as_elim]
theorem Acyclic.induction {motive : ∀ o, s.Acyclic o → Prop}
    (step : ∀ o (h : s.Acyclic o), (∀ t (ht : s.Refers o t), motive t (h.of_refers ht)) → motive o h)
    (h : s.Acyclic o) : motive o h := by
  induction hn : s.rank o using Nat.strongRecOn generalizing o with
  | ind n ih =>
    refine step o h fun t ht => ih _ ?_ (h.of_refers ht) rfl
    rw [← hn]
    exact rank_lt_of_refers h ht

end Soql.Schema
