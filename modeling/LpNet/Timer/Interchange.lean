import LpNet.Timer.Heap
import LpNet.Timer.Map

/-!
The two back ends of `Timer` against each other.

Each refines the set of tasks, the map on every run and the heap on the runs
whose calls keep it, so that on these runs the two answer alike. The heap does
not keep itself: `heap_brings_back_task` pops a task twice.
-/

namespace LpNet

open Transition BinaryHeap

variable {Cb : Type}

theorem TimerTaskMap.run_refines {capacity : ℕ} {ops : List (TimerOp Cb)}
    (hvalid : Along TaskSet.step (TaskSet.Admits capacity) [] ops) :
    ∃ answers m s, run mapStep (new Cb capacity) ops = .ok (answers, m) ∧
      run TaskSet.step [] ops = .ok (answers, s) ∧ Holds m s ∧ s.Distinct :=
  run_eq_of_simulation (R := fun m s => Holds m s ∧ s.Distinct)
    (fun _ _ _ hR _ hadmits => mapStep_refines hR.1 hR.2 hadmits)
    ⟨holds_new Cb capacity, TaskSet.distinct_nil⟩
    (along_of_forall_mem (P := fun _ => True) fun _ _ => trivial) hvalid

theorem TimerTaskHeap.run_refines {capacity : ℕ} {ops : List (TimerOp Cb)}
    (hvalid : Along TaskSet.step (TaskSet.Admits capacity) [] ops)
    (hkeeps : Along heapStep Keeps (new Cb capacity) ops) :
    ∃ answers h s, run heapStep (new Cb capacity) ops = .ok (answers, h) ∧
      run TaskSet.step [] ops = .ok (answers, s) ∧ Holds capacity h s ∧ s.Distinct :=
  run_eq_of_simulation (R := fun h s => Holds capacity h s ∧ s.Distinct)
    (fun _ _ _ hR hkeeps hadmits => heapStep_refines hR.1 hR.2 hadmits hkeeps)
    ⟨holds_new Cb capacity, TaskSet.distinct_nil⟩ hkeeps hvalid

/-- On a run that keeps the ids and deadlines distinct and the tasks at most `capacity` many,
and whose calls keep the heap, the heap and the map answer alike. -/
theorem heap_and_map_answer_alike (capacity : ℕ) (ops : List (TimerOp Cb))
    (hvalid : Along TaskSet.step (TaskSet.Admits capacity) [] ops)
    (hkeeps : Along TimerTaskHeap.heapStep TimerTaskHeap.Keeps
      (TimerTaskHeap.new Cb capacity) ops) :
    ∃ answers h m,
      run TimerTaskHeap.heapStep (TimerTaskHeap.new Cb capacity) ops = .ok (answers, h) ∧
      run TimerTaskMap.mapStep (TimerTaskMap.new Cb capacity) ops = .ok (answers, m) := by
  obtain ⟨answers, h, s, hheap, hset, -⟩ := TimerTaskHeap.run_refines hvalid hkeeps
  obtain ⟨answers', m, s', hmap, hset', -⟩ := TimerTaskMap.run_refines hvalid
  rw [hset] at hset'
  injection hset' with hset'
  obtain ⟨rfl, -⟩ := Prod.mk.inj hset'
  exact ⟨answers, h, m, hheap, hmap⟩

def threeTasks : List (TimerOp Unit) :=
  [.add ⟨0, 1, false, none, 1⟩, .add ⟨0, 2, false, none, 2⟩, .add ⟨0, 3, false, none, 3⟩]

/-- The third task is made the earliest, taken, and the root put back for later. -/
theorem heap_and_map_answer_alike_modified :
    ∃ answers h m,
      run TimerTaskHeap.heapStep (TimerTaskHeap.new Unit 3)
        (threeTasks ++ [.modify 3 0 true 0, .remove 3, .modify 1 3 false 2]) = .ok (answers, h) ∧
      run TimerTaskMap.mapStep (TimerTaskMap.new Unit 3)
        (threeTasks ++ [.modify 3 0 true 0, .remove 3, .modify 1 3 false 2]) = .ok (answers, m) :=
  heap_and_map_answer_alike 3 (threeTasks ++ [.modify 3 0 true 0, .remove 3, .modify 1 3 false 2])
    (by decide +kernel) (by decide +kernel)

/-- Of three tasks two are popped, and the heap has the first one on top again. -/
theorem heap_brings_back_task :
    Along TaskSet.step (TaskSet.Admits 3) [] (threeTasks ++ [.pop, .pop]) ∧
      (run TimerTaskHeap.heapStep (TimerTaskHeap.new Unit 3)
          (threeTasks ++ [.pop, .pop])).map Prod.fst ≠
        (run TimerTaskMap.mapStep (TimerTaskMap.new Unit 3)
          (threeTasks ++ [.pop, .pop])).map Prod.fst := by
  decide +kernel

end LpNet
