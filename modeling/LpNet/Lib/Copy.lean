import Mathlib.Data.List.Basic

/-!
Copying cells into a list.

`overwrite mem start src` puts the cells of `src` over those of `mem` from `start` on. A copy that
ends inside the list keeps its length (`overwrite_length`) and is read back where it was put
(`slice_overwrite`).
-/

namespace LpNet.Copy

variable {α : Type*} {mem src : List α} {start : ℕ}

def slice (mem : List α) (start n : ℕ) : List α := (mem.drop start).take n

def overwrite (mem : List α) (start : ℕ) (src : List α) : List α :=
  mem.take start ++ src ++ mem.drop (start + src.length)

theorem slice_length {n : ℕ} (h : start + n ≤ mem.length) : (slice mem start n).length = n := by
  rw [slice, List.length_take, List.length_drop]
  omega

theorem slice_to_end {n : ℕ} (h : start + n = mem.length) : slice mem start n = mem.drop start := by
  rw [slice, List.take_of_length_le]
  rw [List.length_drop]
  omega

theorem overwrite_length (h : start + src.length ≤ mem.length) :
    (overwrite mem start src).length = mem.length := by
  rw [overwrite, List.length_append, List.length_append, List.length_take, List.length_drop]
  omega

theorem slice_overwrite (h : start ≤ mem.length) :
    slice (overwrite mem start src) start src.length = src := by
  have hstart : (mem.take start).length = start := List.length_take_of_le h
  rw [slice, overwrite, List.append_assoc, List.drop_left' hstart, List.take_left]

@[simp] theorem overwrite_nil (mem : List α) (start : ℕ) : overwrite mem start [] = mem := by
  simp [overwrite]

theorem overwrite_to_end (h : start + src.length = mem.length) :
    overwrite mem start src = mem.take start ++ src := by
  rw [overwrite, h, List.drop_length, List.append_nil]

end LpNet.Copy
