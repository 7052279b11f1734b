import Mathlib.Data.List.Basic
import Mathlib.Data.List.GetD
import Mathlib.Algebra.Order.Group.Nat
import Mathlib.Tactic.Ring

/-!
Windows of an array that is used cyclically.

`cells mem m p n` lists the `n` cells met when walking from position `p`
through an array used modulo `m`; `putCells` stores a list along such a walk.
A queue kept in a ring is a window together with the number of cells it
covers. Two laws carry every proof about such a queue: storing behind a window
appends to it (`cells_putCells_append`), and moving the start of a window
drops its first cells (`cells_drop`). `gap` recovers the number of cells from
the two positions, as long as the ring keeps one spare cell.
-/

namespace LpNet.Cyclic

/-! ### Positions modulo the ring -/

/-- Two positions less than a whole turn apart name different cells. -/
theorem mod_ne_mod {m a b : ℕ} (hab : a < b) (hturn : b < a + m) : a % m ≠ b % m := by
  intro h
  have hdvd : m ∣ b - a := Nat.dvd_of_mod_eq_zero (Nat.sub_mod_eq_zero_of_mod_eq h.symm)
  have hzero := Nat.eq_zero_of_dvd_of_lt hdvd (by omega)
  omega

theorem mod_of_lt_two_mul {m a : ℕ} (h : a < 2 * m) :
    a % m = if a < m then a else a - m := by
  split
  case isTrue hlt => exact Nat.mod_eq_of_lt hlt
  case isFalse hge =>
    rw [Nat.mod_eq_sub_mod (by omega), Nat.mod_eq_of_lt (by omega)]

/-- The number of steps from `start` to `stop` around a ring of `m` cells. -/
def gap (m start stop : ℕ) : ℕ := (m + stop - start) % m

theorem gap_lt {m start stop : ℕ} (hm : 0 < m) : gap m start stop < m :=
  Nat.mod_lt _ hm

theorem gap_eq {m start stop : ℕ} (hstart : start < m) (hstop : stop < m) :
    gap m start stop = if start ≤ stop then stop - start else m + stop - start := by
  rw [gap, mod_of_lt_two_mul (by omega)]
  split <;> split <;> omega

@[simp] theorem gap_self {m start : ℕ} : gap m start start = 0 := by
  simp [gap]

theorem gap_eq_zero_iff {m start stop : ℕ} (hstart : start < m) (hstop : stop < m) :
    gap m start stop = 0 ↔ start = stop := by
  rw [gap_eq hstart hstop]
  split <;> omega

theorem add_gap_mod {m start stop : ℕ} (hstart : start < m) (hstop : stop < m) :
    (start + gap m start stop) % m = stop := by
  rw [gap_eq hstart hstop, mod_of_lt_two_mul (by split <;> omega)]
  split <;> split <;> omega

/-- A walk shorter than a turn is recovered from where it ends. -/
theorem gap_add_mod {m start n : ℕ} (hstart : start < m) (hn : n < m) :
    gap m start ((start + n) % m) = n := by
  have hstop : (start + n) % m < m := Nat.mod_lt _ (by omega)
  rw [gap_eq hstart hstop, mod_of_lt_two_mul (by omega)]
  split <;> split <;> omega

/-- Moving the start forward inside the walk shortens it by as much. -/
theorem gap_advance {m start stop k : ℕ} (hstart : start < m) (hstop : stop < m)
    (hk : k ≤ gap m start stop) :
    gap m ((start + k) % m) stop = gap m start stop - k := by
  have hg : gap m start stop < m := gap_lt (by omega)
  have hs : (start + k) % m < m := Nat.mod_lt _ (by omega)
  rw [gap_eq hs hstop]
  rw [gap_eq hstart hstop] at hk hg ⊢
  rw [mod_of_lt_two_mul (by omega)]
  split <;> split <;> split at hk <;> split <;> omega

variable {α : Type*}

/-! ### Windows -/

section Windows

variable [Inhabited α]

/-- The `n` cells from position `p` on, in an array used modulo `m`. -/
def cells (mem : List α) (m p n : ℕ) : List α :=
  (List.range n).map fun i => mem.getD ((p + i) % m) default

@[simp] theorem cells_length (mem : List α) (m p n : ℕ) : (cells mem m p n).length = n := by
  simp [cells]

@[simp] theorem cells_zero (mem : List α) (m p : ℕ) : cells mem m p 0 = [] := rfl

theorem cells_succ (mem : List α) (m p n : ℕ) :
    cells mem m p (n + 1) = mem.getD (p % m) default :: cells mem m (p + 1) n := by
  simp only [cells, List.range_succ_eq_map, List.map_cons, List.map_map, Nat.add_zero]
  congr 1
  apply List.map_congr_left
  intro i _
  simp only [Function.comp_apply, Nat.succ_eq_add_one]
  rw [show p + (i + 1) = p + 1 + i by omega]

theorem cells_mod (mem : List α) (m p n : ℕ) : cells mem m (p % m) n = cells mem m p n := by
  simp only [cells, Nat.mod_add_mod]

theorem cells_add (mem : List α) (m p n k : ℕ) :
    cells mem m p (n + k) = cells mem m p n ++ cells mem m (p + n) k := by
  induction n generalizing p with
  | zero => simp
  | succ n ih =>
      rw [show n + 1 + k = (n + k) + 1 by omega, cells_succ, ih (p + 1), cells_succ,
        show p + 1 + n = p + (n + 1) by omega]
      rfl

theorem cells_take (mem : List α) (m p : ℕ) {n k : ℕ} (h : k ≤ n) :
    (cells mem m p n).take k = cells mem m p k := by
  obtain ⟨d, rfl⟩ := Nat.exists_eq_add_of_le h
  rw [cells_add, List.take_left' (cells_length ..)]

/-- Moving the start of a window drops its first cells. -/
theorem cells_drop (mem : List α) (m p : ℕ) {n k : ℕ} (h : k ≤ n) :
    (cells mem m p n).drop k = cells mem m (p + k) (n - k) := by
  obtain ⟨d, rfl⟩ := Nat.exists_eq_add_of_le h
  rw [cells_add, List.drop_left' (cells_length ..), Nat.add_sub_cancel_left]

/-- Two windows are equal exactly when the arrays agree on the cells under them. -/
theorem cells_eq_iff {mem mem' : List α} {m p n : ℕ} :
    cells mem m p n = cells mem' m p n ↔
      ∀ i < n, mem.getD ((p + i) % m) default = mem'.getD ((p + i) % m) default := by
  simp only [cells, List.map_inj_left, List.mem_range]

/-- A window that does not reach the end of the ring is a slice of the array. -/
theorem cells_eq_slice {mem : List α} {m p n : ℕ} (hm : p + n ≤ m) (hmem : p + n ≤ mem.length) :
    cells mem m p n = (mem.drop p).take n := by
  apply List.ext_getElem
  · simp; omega
  · intro i hi _
    have hin : i < n := by simpa using hi
    have hmod : (p + i) % m = p + i := Nat.mod_eq_of_lt (by omega)
    simp only [cells, List.getElem_map, List.getElem_range, List.getElem_take, List.getElem_drop,
      hmod]
    exact List.getD_eq_getElem _ _ (by omega)

end Windows

/-! ### Storing along a window -/

/-- Store the list into consecutive cells from position `p` on. -/
def putCells (mem : List α) (m : ℕ) : ℕ → List α → List α
  | _, [] => mem
  | p, x :: xs => putCells (mem.set (p % m) x) m (p + 1) xs

@[simp] theorem putCells_nil (mem : List α) (m p : ℕ) : putCells mem m p [] = mem := rfl

@[simp] theorem putCells_length (mem : List α) (m p : ℕ) (xs : List α) :
    (putCells mem m p xs).length = mem.length := by
  induction xs generalizing mem p with
  | nil => rfl
  | cons x xs ih => rw [putCells, ih, List.length_set]

theorem putCells_mod (mem : List α) (m p : ℕ) (xs : List α) :
    putCells mem m (p % m) xs = putCells mem m p xs := by
  induction xs generalizing mem p with
  | nil => rfl
  | cons x xs ih =>
      rw [putCells, putCells, Nat.mod_mod, ← ih _ (p % m + 1), Nat.mod_add_mod, ih]

/-- A stored window that does not reach the end of the ring is a slice overwritten. -/
theorem putCells_eq_slice {mem : List α} {m p : ℕ} {xs : List α} (hm : p + xs.length ≤ m)
    (hmem : p + xs.length ≤ mem.length) :
    putCells mem m p xs = mem.take p ++ xs ++ mem.drop (p + xs.length) := by
  induction xs generalizing mem p with
  | nil => simp
  | cons x xs ih =>
      simp only [List.length_cons] at hm hmem
      have hp : p % m = p := Nat.mod_eq_of_lt (by omega)
      rw [putCells, hp, ih (by omega) (by simpa using by omega)]
      rw [List.take_set, List.drop_set_of_lt (by omega)]
      have htake : (mem.take (p + 1)).set p x = mem.take p ++ [x] := by
        rw [List.take_succ_eq_append_getElem (by omega)]
        rw [List.set_append_right _ _ (by simp)]
        simp [Nat.min_eq_left (show p ≤ mem.length by omega)]
      rw [htake]
      simp [Nat.add_assoc, Nat.add_comm 1]

section ReadBack

variable [Inhabited α]

/-- A cell off the stored window keeps its value. -/
theorem getD_putCells_of_ne {mem : List α} {m p j : ℕ} {xs : List α}
    (h : ∀ i < xs.length, (p + i) % m ≠ j) :
    (putCells mem m p xs).getD j default = mem.getD j default := by
  induction xs generalizing mem p with
  | nil => rfl
  | cons x xs ih =>
      have hfirst : p % m ≠ j := by simpa using h 0 (by simp)
      have hrest : ∀ i < xs.length, (p + 1 + i) % m ≠ j := by
        intro i hi
        have := h (i + 1) (by simpa using hi)
        rwa [show p + (i + 1) = p + 1 + i by omega] at this
      rw [putCells, ih hrest]
      simp [List.getD_eq_getElem?_getD, List.getElem?_set_ne hfirst]

/-- Reading a stored window back, when it covers no cell twice. -/
theorem cells_putCells_self {mem : List α} {m p : ℕ} {xs : List α} (hlen : xs.length ≤ m)
    (hin : ∀ i < xs.length, (p + i) % m < mem.length) :
    cells (putCells mem m p xs) m p xs.length = xs := by
  induction xs generalizing mem p with
  | nil => rfl
  | cons x xs ih =>
      simp only [List.length_cons] at hlen hin
      have hrest : ∀ i < xs.length, (p + 1 + i) % m ≠ p % m := by
        intro i hi
        exact (mod_ne_mod (by omega) (by omega)).symm
      have hpm : p % m < mem.length := by simpa using hin 0 (by omega)
      rw [List.length_cons, cells_succ, putCells, getD_putCells_of_ne hrest]
      congr 1
      · simp [List.getD_eq_getElem?_getD, hpm]
      · apply ih (by omega)
        intro i hi
        have := hin (i + 1) (by omega)
        rwa [List.length_set, show p + 1 + i = p + (i + 1) by omega]

theorem cells_putCells_append {mem : List α} {m p n : ℕ} {xs : List α}
    (hroom : n + xs.length ≤ m) (hin : ∀ i < xs.length, (p + n + i) % m < mem.length) :
    cells (putCells mem m (p + n) xs) m p (n + xs.length) = cells mem m p n ++ xs := by
  rw [cells_add, cells_putCells_self (by omega) hin]
  congr 1
  rw [cells_eq_iff]
  intro i hi
  apply getD_putCells_of_ne
  intro j hj
  exact (mod_ne_mod (by omega) (by omega)).symm

end ReadBack

end LpNet.Cyclic
