import Mathlib.Data.List.Basic
import Mathlib.Order.Interval.Finset.Nat

/-!
Regions of an address space: where they lie in each other and apart.

`Apart` is symmetric and goes over to whatever lies inside (`Apart.mono`). Regions that
are pairwise apart and lie below a bound have together no more cells than there are below
it (`total_le`).
-/

namespace LpNet

/-- The addresses from `ptr` on, `size` of them. -/
structure Region where
  ptr : ℕ
  size : ℕ
  deriving DecidableEq, Repr

namespace Region

def stop (r : Region) : ℕ := r.ptr + r.size

def Inside (r s : Region) : Prop := s.ptr ≤ r.ptr ∧ r.stop ≤ s.stop

def Apart (r s : Region) : Prop := r.stop ≤ s.ptr ∨ s.stop ≤ r.ptr

instance (r s : Region) : Decidable (Inside r s) := inferInstanceAs (Decidable (_ ∧ _))

instance (r s : Region) : Decidable (Apart r s) := inferInstanceAs (Decidable (_ ∨ _))

variable {r s t u : Region}

theorem Inside.refl (r : Region) : r.Inside r := ⟨Nat.le_refl _, Nat.le_refl _⟩

theorem Apart.symm (h : r.Apart s) : s.Apart r := Or.symm h

theorem Apart.mono (h : s.Apart u) (hr : r.Inside s) (ht : t.Inside u) : r.Apart t := by
  obtain ⟨hrptr, hrstop⟩ := hr
  obtain ⟨htptr, htstop⟩ := ht
  rcases h with h | h
  · exact .inl (by omega)
  · exact .inr (by omega)

theorem apart_of_inside {regions : List Region} (hr : ∃ s ∈ regions, r.Inside s)
    (ht : ∀ s ∈ regions, t.Apart s) : r.Apart t := by
  obtain ⟨s, hs, hinside⟩ := hr
  exact (ht s hs).symm.mono hinside (.refl t)

theorem pairwise_append_singleton {regions : List Region} (h : regions.Pairwise Apart)
    (hr : ∀ s ∈ regions, s.Apart r) : (regions ++ [r]).Pairwise Apart := by
  rw [List.pairwise_append]
  refine ⟨h, List.pairwise_singleton _ r, fun s hs t ht => ?_⟩
  rw [List.mem_singleton.mp ht]
  exact hr s hs

/-! ### How many addresses there are -/

def total : List Region → ℕ
  | [] => 0
  | r :: regions => r.size + total regions

def addresses (regions : List Region) : Finset ℕ :=
  regions.foldr (fun r cells => Finset.Ico r.ptr r.stop ∪ cells) ∅

theorem mem_addresses {regions : List Region} {a : ℕ} :
    a ∈ addresses regions ↔ ∃ r ∈ regions, r.ptr ≤ a ∧ a < r.stop := by
  induction regions with
  | nil => simp [addresses]
  | cons r regions ih =>
      rw [addresses, List.foldr_cons, ← addresses, Finset.mem_union, Finset.mem_Ico, ih]
      simp

theorem card_addresses {regions : List Region} (h : regions.Pairwise Apart) :
    (addresses regions).card = total regions := by
  induction regions with
  | nil => rfl
  | cons r regions ih =>
      rw [List.pairwise_cons] at h
      have hdisjoint : Disjoint (Finset.Ico r.ptr r.stop) (addresses regions) := by
        rw [Finset.disjoint_left]
        intro a ha hrest
        rw [Finset.mem_Ico] at ha
        obtain ⟨s, hs, hlow, hhigh⟩ := mem_addresses.mp hrest
        rcases h.1 s hs with hapart | hapart <;> omega
      rw [addresses, List.foldr_cons, ← addresses, Finset.card_union_of_disjoint hdisjoint, ih h.2,
        Nat.card_Ico, stop, Nat.add_sub_cancel_left, total]

theorem total_le {regions : List Region} {bound : ℕ} (h : regions.Pairwise Apart)
    (hbound : ∀ r ∈ regions, r.stop ≤ bound) : total regions ≤ bound := by
  have hsub : addresses regions ⊆ Finset.range bound := by
    intro a ha
    obtain ⟨r, hr, -, hhigh⟩ := mem_addresses.mp ha
    exact Finset.mem_range.mpr (Nat.lt_of_lt_of_le hhigh (hbound r hr))
  have hcard := Finset.card_le_card hsub
  rw [card_addresses h, Finset.card_range] at hcard
  exact hcard

end Region

end LpNet
