import Mathlib.Tactic.Common

/-!
Strict weak orders on a list of keys.

A sorted container asks its comparison to be one on the keys it holds and is asked for, and
promises nothing when it is not.
-/

namespace LpNet

variable {α : Type*} {r : α → α → Bool} {keys : List α}

structure StrictWeakOn (r : α → α → Bool) (keys : List α) : Prop where
  irrefl : ∀ a ∈ keys, r a a = false
  asymm : ∀ a ∈ keys, ∀ b ∈ keys, r a b = true → r b a = false
  trans : ∀ a ∈ keys, ∀ b ∈ keys, ∀ c ∈ keys, r a b = true → r b c = true → r a c = true
  incomp_trans : ∀ a ∈ keys, ∀ b ∈ keys, ∀ c ∈ keys, (r a b = false ∧ r b a = false) →
    (r b c = false ∧ r c b = false) → r a c = false ∧ r c a = false

namespace StrictWeakOn

instance (r : α → α → Bool) (keys : List α) : Decidable (StrictWeakOn r keys) :=
  decidable_of_iff
    ((∀ a ∈ keys, r a a = false) ∧ (∀ a ∈ keys, ∀ b ∈ keys, r a b = true → r b a = false) ∧
      (∀ a ∈ keys, ∀ b ∈ keys, ∀ c ∈ keys, r a b = true → r b c = true → r a c = true) ∧
      ∀ a ∈ keys, ∀ b ∈ keys, ∀ c ∈ keys, (r a b = false ∧ r b a = false) →
        (r b c = false ∧ r c b = false) → r a c = false ∧ r c a = false)
    ⟨fun ⟨h₁, h₂, h₃, h₄⟩ => ⟨h₁, h₂, h₃, h₄⟩,
      fun h => ⟨h.irrefl, h.asymm, h.trans, h.incomp_trans⟩⟩

/-- A relation that compares a number is a strict weak order. -/
theorem of_lt (f : α → ℕ) (h : ∀ a ∈ keys, ∀ b ∈ keys, r a b = true ↔ f a < f b) :
    StrictWeakOn r keys := by
  have hfalse : ∀ a ∈ keys, ∀ b ∈ keys, r a b = false ↔ f b ≤ f a := fun a ha b hb => by
    rw [← Bool.not_eq_true, h a ha b hb]
    exact Nat.not_lt
  refine ⟨fun a ha => ?_, fun a ha b hb => ?_, fun a ha b hb c hc => ?_, fun a ha b hb c hc => ?_⟩
  · exact (hfalse a ha a ha).mpr (Nat.le_refl _)
  · rw [h a ha b hb, hfalse b hb a ha]
    exact Nat.le_of_lt
  · rw [h a ha b hb, h b hb c hc, h a ha c hc]
    exact Nat.lt_trans
  · rw [hfalse a ha b hb, hfalse b hb a ha, hfalse b hb c hc, hfalse c hc b hb, hfalse a ha c hc,
      hfalse c hc a ha]
    omega

end StrictWeakOn

end LpNet
