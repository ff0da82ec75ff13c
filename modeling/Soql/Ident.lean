/-!
# Identities of object views

A class may declare several keyed views, so a view is known by its class name and its key.
Identities are ordered by class name, then key, both by code point. Main statements: the order is a
strict linear order (`Ident.lt_irrefl`, `Ident.lt_trans`, `Ident.lt_trichotomy`).
-/

namespace Soql

structure Ident where
  className : String
  key : String
deriving DecidableEq, Repr

namespace Ident

instance : LT Ident where
  lt a b := a.className < b.className ∨ a.className = b.className ∧ a.key < b.key

instance (a b : Ident) : Decidable (a < b) :=
  inferInstanceAs (Decidable (a.className < b.className ∨ a.className = b.className ∧ a.key < b.key))

theorem lt_iff {a b : Ident} :
    a < b ↔ a.className < b.className ∨ a.className = b.className ∧ a.key < b.key := Iff.rfl

theorem lt_irrefl (a : Ident) : ¬ a < a := by
  rintro (h | ⟨_, h⟩)
  · exact String.lt_irrefl _ h
  · exact String.lt_irrefl _ h

theorem lt_trans {a b c : Ident} (hab : a < b) (hbc : b < c) : a < c := by
  rcases hab with h | ⟨e, h⟩ <;> rcases hbc with h' | ⟨e', h'⟩
  · exact .inl (String.lt_trans h h')
  · exact .inl (e' ▸ h)
  · exact .inl (e ▸ h')
  · exact .inr ⟨e.trans e', String.lt_trans h h'⟩

theorem lt_asymm {a b : Ident} (h : a < b) : ¬ b < a := fun h' => lt_irrefl a (lt_trans h h')

theorem ne_of_lt {a b : Ident} (h : a < b) : a ≠ b := fun e => lt_irrefl b (e ▸ h)

theorem lt_trichotomy (a b : Ident) : a < b ∨ a = b ∨ b < a := by
  have tri : ∀ s t : String, s < t ∨ s = t ∨ t < s := fun s t => by
    by_cases h : s < t
    · exact .inl h
    · by_cases h' : t < s
      · exact .inr (.inr h')
      · exact .inr (.inl (String.le_antisymm (String.not_lt.1 h') (String.not_lt.1 h)))
  rcases tri a.className b.className with h | h | h
  · exact .inl (.inl h)
  · rcases tri a.key b.key with h' | h' | h'
    · exact .inl (.inr ⟨h, h'⟩)
    · exact .inr (.inl (by cases a; cases b; simp_all))
    · exact .inr (.inr (.inr ⟨h.symm, h'⟩))
  · exact .inr (.inr (.inl h))

end Ident
end Soql
