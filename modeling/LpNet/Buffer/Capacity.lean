import LpNet.Buffer.Replacer

/-!
The capacity of an `LRUReplacer`.

A replacer that can hold an entry never holds more than its capacity
(`Represents.bounded`, whose invariant is the recency list). The constructor also takes 0:
such a replacer is always full and always empty, so an `access` drops the last entry of an
empty list.
-/

namespace LpNet

open Transition

def LruOp.isAccess {K V : Type} : LruOp K V → Bool
  | .access _ _ => true
  | .evite _ _ | .remove _ => false

namespace LRUReplacer

variable {K V : Type}

def size (r : LRUReplacer K V) : ℕ := r.caches.length

variable [DecidableEq K]

/-- No call drops the last entry of an empty list, and no state holds more than the capacity. -/
def Bounded (capacity : ℕ) (ops : List (LruOp K V)) : Prop :=
  (∃ result, run lruStep (new K V capacity) ops = .ok result) ∧
    AlongStates lruStep (fun r => r.size ≤ capacity) (new K V capacity) ops

/-! ### Room for an entry -/

variable {n : ℕ}

omit [DecidableEq K] in
theorem Represents.size_le {r : LRUReplacer K V} {q : Recency K n} (h : r.Represents q) :
    r.size ≤ n := by
  rw [size, h.length_eq]
  exact q.length_le

theorem bounded_of_pos (hn : 0 < n) (ops : List (LruOp K V)) : Bounded n ops := by
  have hfree : Along lruStep (fun _ _ => True) (new K V n) ops :=
    along_of_forall_mem fun _ _ => trivial
  have hstart : ∃ q : Recency K n, (new K V n).Represents q := ⟨_, represents_new n⟩
  constructor
  · obtain ⟨answers, r, hrun, -⟩ : ∃ answers r, run lruStep (new K V n) ops = .ok (answers, r) ∧
        ∃ q : Recency K n, r.Represents q := by
      refine run_total ?_ hstart hfree
      rintro r op ⟨q, hq⟩ -
      obtain ⟨answer, r', hr', hrep, -⟩ := hq.step hn op
      exact ⟨answer, r', hr', _, hrep⟩
    exact ⟨_, hrun⟩
  · refine alongStates_of_along (I := fun r => ∃ q : Recency K n, r.Represents q) ?_ ?_ hstart hfree
    · rintro r op answer r' ⟨q, hq⟩ - hok
      obtain ⟨answer', s, hs, hrep, -⟩ := hq.step hn op
      rw [hs] at hok
      cases hok
      exact ⟨_, hrep⟩
    · rintro r ⟨q, hq⟩
      exact hq.size_le

/-! ### No room at all -/

theorem lruStep_zero_access {op : LruOp K V} (h : op.isAccess = true) :
    lruStep (new K V 0) op = .error .outOfBounds := by
  cases op with
  | access key value => rfl
  | evite key value => cases h
  | remove key => cases h

theorem lruStep_zero {op : LruOp K V} (h : op.isAccess = false) :
    ∃ answer, lruStep (new K V 0) op = .ok (answer, new K V 0) := by
  cases op with
  | access key value => cases h
  | evite key value => exact ⟨_, rfl⟩
  | remove key => exact ⟨_, rfl⟩

theorem bounded_zero_iff (ops : List (LruOp K V)) :
    Bounded 0 ops ↔ ∀ op ∈ ops, op.isAccess = false := by
  induction ops with
  | nil => exact iff_of_true ⟨⟨_, rfl⟩, Nat.le_refl 0⟩ fun op hop => by cases hop
  | cons op ops ih =>
      rw [List.forall_mem_cons, ← ih]
      cases hop : op.isAccess with
      | true =>
          refine iff_of_false ?_ fun hall => by cases hall.1
          rintro ⟨⟨result, hrun⟩, -⟩
          rw [run_cons_error ops (lruStep_zero_access hop)] at hrun
          cases hrun
      | false =>
          obtain ⟨answer, hstep⟩ := lruStep_zero hop
          rw [Bounded, alongStates_cons_ok hstep, run_cons_ok ops hstep]
          constructor
          · rintro ⟨⟨result, hrun⟩, -, hstates⟩
            refine ⟨rfl, ?_, hstates⟩
            cases hrest : run lruStep (new K V 0) ops with
            | ok result' => exact ⟨_, rfl⟩
            | error e =>
                rw [hrest] at hrun
                cases hrun
          · rintro ⟨-, ⟨result, hrun⟩, hstates⟩
            rw [hrun]
            exact ⟨⟨_, rfl⟩, Nat.le_refl 0, hstates⟩

/-! ### Every capacity -/

/-- Any sequence of calls respects any capacity but 0, and the capacity 0 is respected as long
as nothing is accessed. -/
theorem bounded_iff (capacity : ℕ) (ops : List (LruOp K V)) :
    Bounded capacity ops ↔ 0 < capacity ∨ ∀ op ∈ ops, op.isAccess = false := by
  cases capacity with
  | zero =>
      rw [bounded_zero_iff]
      exact ⟨.inr, fun h => h.resolve_left (Nat.lt_irrefl 0)⟩
  | succ n => exact iff_of_true (bounded_of_pos n.succ_pos ops) (.inl n.succ_pos)

theorem not_bounded_zero : ¬ Bounded 0 [(.access 7 70 : LruOp ℕ ℕ)] := by
  intro h
  have hnone := (bounded_zero_iff _).mp h (.access 7 70) (by simp)
  cases hnone

end LRUReplacer

end LpNet
