import LpNet.Timer.Content

/-!
What `TimerTaskHeap::add` makes of a heap in order.

The new task goes behind the cells in use, which breaks the order in that one cell, and `moveUp`
carries the break to the parent until the parent is not later. No ids are compared on the way, so
that nothing is asked of them here; `Holds.add` has the steps.
-/

namespace LpNet

open BinaryHeap Transition

namespace TimerTaskHeap

variable {Cb : Type} {h h' h'' : TimerTaskHeap Cb} {task : TimerTask Cb}
  {tasks : List (TimerTask Cb)}

/-- An array of `capacity_` cells, in heap order in the ones in use. -/
structure InHeapOrder (h : TimerTaskHeap Cb) : Prop where
  alloc : h.data.length = h.capacity
  size_le : h.size ≤ h.capacity
  order : Ordered (timeAt h.data) h.size

/-- The tasks of before and the new ones, in heap order, with the earliest one in the first cell. -/
structure Inserted (h h' : TimerTaskHeap Cb) (tasks : List (TimerTask Cb)) : Prop where
  size_eq : h'.size = h.size + tasks.length
  perm : h'.stored.Perm (tasks ++ h.stored)
  heap : h'.InHeapOrder
  first_le : ∀ u ∈ h'.stored, (h'.data.getD 0 default).expiredTime ≤ u.expiredTime

/-! ### One task -/

theorem add_capacity {id : ℕ} (hadd : h.add task = .ok (id, h')) : h'.capacity = h.capacity := by
  rw [add] at hadd
  split at hadd
  case isTrue =>
    rw [moveUp] at hadd
    split at hadd
    case isTrue =>
      cases hadd
      rfl
    case isFalse =>
      obtain ⟨moved, hmove, hrest⟩ := bind_eq_ok.mp hadd
      obtain ⟨data, -, hdata⟩ := bind_eq_ok.mp hmove
      cases hdata
      cases hrest
      rfl
  case isFalse => cases hadd

theorem InHeapOrder.holds (hheap : h.InHeapOrder) : Holds h.capacity h h.stored where
  order := hheap.order
  size_le := hheap.alloc ▸ hheap.size_le
  alloc := hheap.alloc
  perm := .refl _

theorem InHeapOrder.add (hheap : h.InHeapOrder) (hroom : h.size < h.capacity)
    (task : TimerTask Cb) :
    ∃ h', h.add task = .ok (task.id, h') ∧ h'.capacity = h.capacity ∧ h.Inserted h' [task] := by
  have hstored : h.stored.length = h.size := hheap.holds.size_eq.symm
  obtain ⟨h', hadd, hholds⟩ := hheap.holds.add (by omega) task
  have hcapacity := add_capacity hadd
  have hsize : h'.size = h.size + 1 := by
    rw [hholds.size_eq, List.length_cons, hstored]
  have hheap' : h'.InHeapOrder := by
    refine ⟨hholds.alloc.trans hcapacity.symm, ?_, hholds.order⟩
    rw [hcapacity, ← hholds.alloc]
    exact hholds.size_le
  exact ⟨h', hadd, hcapacity, hsize, hholds.perm, hheap', TimerTaskHeap.first_le hheap'.order⟩

/-! ### Any number of tasks -/

theorem InHeapOrder.inserted_nil (hheap : h.InHeapOrder) : h.Inserted h [] where
  size_eq := rfl
  perm := .refl _
  heap := hheap
  first_le := TimerTaskHeap.first_le hheap.order

theorem Inserted.trans (hfirst : h.Inserted h' [task]) (hrest : h'.Inserted h'' tasks) :
    h.Inserted h'' (task :: tasks) where
  size_eq := by
    have hsize : h'.size = h.size + 1 := hfirst.size_eq
    rw [hrest.size_eq, hsize, List.length_cons]
    omega
  perm := calc
    h''.stored.Perm (tasks ++ h'.stored) := hrest.perm
    (tasks ++ h'.stored).Perm (tasks ++ task :: h.stored) := hfirst.perm.append_left tasks
    (tasks ++ task :: h.stored).Perm (task :: tasks ++ h.stored) := List.perm_middle
  heap := hrest.heap
  first_le := hrest.first_le

theorem InHeapOrder.adds (hheap : h.InHeapOrder)
    (hroom : h.size + tasks.length ≤ h.capacity) :
    ∃ h', run TimerTaskHeap.add h tasks = .ok (tasks.map TimerTask.id, h') ∧
      h.Inserted h' tasks := by
  induction tasks generalizing h with
  | nil => exact ⟨h, rfl, hheap.inserted_nil⟩
  | cons task tasks ih =>
      rw [List.length_cons] at hroom
      obtain ⟨h', hadd, hcapacity, hfirst⟩ := hheap.add (by omega) task
      have hsize : h'.size = h.size + 1 := hfirst.size_eq
      obtain ⟨h'', hrun, hrest⟩ := ih hfirst.heap (by omega)
      refine ⟨h'', ?_, hfirst.trans hrest⟩
      rw [run_cons_ok tasks hadd, hrun]
      rfl

/-- `add` ends on a heap in order that has a free cell, with the task added and the order kept;
and any number of calls for which there are cells does, with the earliest task in the first
cell. -/
theorem add_keeps_heap (h : TimerTaskHeap Cb) (hheap : h.InHeapOrder) :
    (∀ task, h.size < h.capacity → ∃ h', h.add task = .ok (task.id, h') ∧ h.Inserted h' [task]) ∧
      ∀ tasks : List (TimerTask Cb), h.size + tasks.length ≤ h.capacity →
        ∃ h', run add h tasks = .ok (tasks.map TimerTask.id, h') ∧ h.Inserted h' tasks := by
  refine ⟨fun task hroom => ?_, fun tasks hroom => hheap.adds hroom⟩
  obtain ⟨h', hadd, -, hinserted⟩ := hheap.add hroom task
  exact ⟨h', hadd, hinserted⟩

def twoTasks : TimerTaskHeap Unit :=
  ⟨[⟨5, 5, false, none, 1⟩, ⟨7, 7, false, none, 2⟩, default, default], 4, 2⟩

theorem twoTasks_heap : twoTasks.InHeapOrder where
  alloc := rfl
  size_le := by decide
  order := by
    intro i hpos hi
    have hi' : i < 2 := hi
    obtain rfl : i = 1 := by omega
    decide

theorem add_keeps_heap_two :
    (∀ task, twoTasks.size < twoTasks.capacity →
      ∃ h', twoTasks.add task = .ok (task.id, h') ∧ twoTasks.Inserted h' [task]) ∧
      ∀ tasks : List (TimerTask Unit), twoTasks.size + tasks.length ≤ twoTasks.capacity →
        ∃ h', run add twoTasks tasks = .ok (tasks.map TimerTask.id, h') ∧
          twoTasks.Inserted h' tasks :=
  add_keeps_heap twoTasks twoTasks_heap

end TimerTaskHeap

end LpNet
