import Mathlib.Data.Nat.Bitwise
import Mathlib.Tactic.Common

/-!
Numbers read back from signed bytes.

A number is cut into bytes, and the bytes are put together again by shifting each to
its place and taking the OR of them all, but each byte is first extended by its
sign. A byte with its top bit set then also sets every bit above its place.
`gluedBit_bytes_iff` says for which numbers this gives the number back.
-/

namespace LpNet

namespace SignedBytes

/-- The `n` low bytes of a number, the lowest first. -/
def bytes : ℕ → ℕ → List UInt8
  | 0, _ => []
  | n + 1, v => UInt8.ofNat v :: bytes n (v >>> 8)

/-- The bits of a byte extended by its sign. -/
def extendedBit (c : UInt8) (k : ℕ) : Bool := c.toNat.testBit (min k 7)

/-- The bits of the OR of the bytes, each extended by its sign and shifted to its
place, the lowest byte first. -/
def gluedBit : List UInt8 → ℕ → Bool
  | [], _ => false
  | c :: cs, k => extendedBit c k || (decide (8 ≤ k) && gluedBit cs (k - 8))

/-- Where one of the `n` low bytes has its top bit set, every bit above that byte is
set, up to the width `w`. -/
def Plain (n w v : ℕ) : Prop :=
  ∀ i < n, v.testBit (8 * i + 7) = true → ∀ k < w, 8 * i + 8 ≤ k → v.testBit k = true

instance (n w v : ℕ) : Decidable (Plain n w v) :=
  inferInstanceAs (Decidable (∀ i < n, v.testBit (8 * i + 7) = true →
    ∀ k < w, 8 * i + 8 ≤ k → v.testBit k = true))

@[simp] theorem bytes_length (n v : ℕ) : (bytes n v).length = n := by
  induction n generalizing v with
  | zero => rfl
  | succ n ih => rw [bytes, List.length_cons, ih]

theorem extendedBit_ofNat (v k : ℕ) :
    extendedBit (UInt8.ofNat v) k = v.testBit (min k 7) := by
  rw [extendedBit, UInt8.toNat_ofNat', Nat.testBit_mod_two_pow]
  simp only [show min k 7 < 8 by omega, decide_true, Bool.true_and]

/-- Bit `k` is set when it is a bit of one of the bytes, or above one whose top bit
is set. -/
theorem gluedBit_bytes (n v k : ℕ) : gluedBit (bytes n v) k = true ↔
    ∃ i < n, 8 * i ≤ k ∧ v.testBit (8 * i + min (k - 8 * i) 7) = true := by
  induction n generalizing v k with
  | zero => simp [bytes, gluedBit]
  | succ n ih =>
      simp only [bytes, gluedBit, extendedBit_ofNat, Bool.or_eq_true, Bool.and_eq_true,
        decide_eq_true_eq, ih, Nat.testBit_shiftRight]
      constructor
      · rintro (hbit | ⟨hk, i, hi, hle, hbit⟩)
        · exact ⟨0, by omega, by omega, by simpa using hbit⟩
        · refine ⟨i + 1, by omega, by omega, ?_⟩
          rwa [show 8 * (i + 1) + min (k - 8 * (i + 1)) 7
            = 8 + (8 * i + min (k - 8 - 8 * i) 7) by omega]
      · rintro ⟨i, hi, hle, hbit⟩
        cases i with
        | zero => exact Or.inl (by simpa using hbit)
        | succ i =>
            refine Or.inr ⟨by omega, i, by omega, by omega, ?_⟩
            rwa [show 8 + (8 * i + min (k - 8 - 8 * i) 7)
              = 8 * (i + 1) + min (k - 8 * (i + 1)) 7 by omega]

/-- A number of `n` bytes is what its signed bytes give back, in the bits below `w`,
exactly when it is plain there. -/
theorem gluedBit_bytes_iff {n w v : ℕ} (hv : v < 2 ^ (8 * n)) :
    (∀ k < w, gluedBit (bytes n v) k = v.testBit k) ↔ Plain n w v := by
  constructor
  · intro h i hi htop k hk hle
    rw [← h k hk, gluedBit_bytes]
    refine ⟨i, hi, by omega, ?_⟩
    rwa [show min (k - 8 * i) 7 = 7 by omega]
  · intro hplain k hk
    rw [Bool.eq_iff_iff, gluedBit_bytes]
    constructor
    · rintro ⟨i, hi, hle, hbit⟩
      by_cases hin : k < 8 * i + 8
      case pos =>
        rwa [show 8 * i + min (k - 8 * i) 7 = k by omega] at hbit
      case neg =>
        rw [show min (k - 8 * i) 7 = 7 by omega] at hbit
        exact hplain i hi hbit k hk (by omega)
    · intro hbit
      have hk8 : k < 8 * n := by
        by_contra hge
        have hzero := Nat.testBit_lt_two_pow (Nat.lt_of_lt_of_le hv
          (Nat.pow_le_pow_right (by omega) (Nat.le_of_not_lt hge)))
        rw [hzero] at hbit
        cases hbit
      refine ⟨k / 8, by omega, by omega, ?_⟩
      rwa [show 8 * (k / 8) + min (k - 8 * (k / 8)) 7 = k by omega]

end SignedBytes

end LpNet
