import LpNet.Net.LoopRun

/-!
Which schedulers `EventLoop::run` starts.

The workers that have a scheduler keep it, so there is one that takes the next only as long as
one is free. The last free worker may find the queue empty, and the scheduler and both
notifications come before it blocks (`overslept`); with another free worker besides it
nothing is slept over, because the other one needs the mutex that it holds (`Attends`).
-/

namespace LpNet.LoopRun

open Transition ThreadPool

variable {S : Type} {s s' : LoopRun S} {schedulers : List S} {n queueCapacity : ℕ}

/-! ### In every state -/

structure Kept (s : LoopRun S) : Prop where
  not_left : ¬ s.log.pool.Left
  waits : s.place = .stopping ∨ s.place = .sleeping →
    s.log.pool.owner = .notifyAll ∨ s.log.pool.owner = .join 0

theorem start_kept (S : Type) (capacity queueCapacity hardwareConcurrency : ℕ) :
    (start S capacity queueCapacity hardwareConcurrency).Kept where
  not_left hleft := by
    have hnone := List.eq_of_mem_replicate hleft
    cases hnone
  waits hat := by rcases hat with hat | hat <;> cases hat

theorem not_left_logStep {t u : PoolLog S} {a : PoolAction S} (h : ¬ t.pool.Left)
    (htests : t.pool.TestsRunning a) (hlog : t.logStep a = .ok ((), u)) : ¬ u.pool.Left := by
  obtain ⟨pool, hpool, rfl⟩ := PoolLog.logStep_eq_ok hlog
  exact not_left_step h htests hpool

/-- `stop()` waits for its first thread, for ever. -/
theorem Kept.step (hkept : s.Kept) (h : s.Going schedulers n queueCapacity) (hpos : 0 < n)
    {a : RunAction} (hstarts : s.StartsAll a) (hstep : s.Moves schedulers s' a) : s'.Kept := by
  obtain ⟨log', place'⟩ := s'
  cases hstep with
  | worker i hfree hlog hplace =>
      obtain ⟨pool, hpool, heq⟩ := PoolLog.logStep_eq_ok hlog
      obtain rfl : log' = _ := heq
      obtain rfl : place' = s.place := hplace
      refine ⟨not_left_logStep (a := .worker i) hkept.not_left hstarts hlog, ?_⟩
      obtain ⟨pc, pc', locked, q, -, -, rfl⟩ := worker_eq_ok hpool
      exact hkept.waits
  | owner hlog hplace =>
      obtain ⟨pool, hpool, heq⟩ := PoolLog.logStep_eq_ok hlog
      obtain rfl : log' = _ := heq
      obtain rfl : place' = s.place := hplace
      refine ⟨not_left_logStep (a := .owner) hkept.not_left trivial hlog, fun hat => .inr ?_⟩
      rcases hkept.waits hat with howner | howner
      · rw [poolStep, own, howner] at hpool
        cases hpool
        rfl
      · have hzero : 0 < s.log.pool.workers.length := h.length_eq ▸ hpos
        rcases owner_join_eq_ok howner hpool with ⟨hnone, rfl⟩ | ⟨hdone, rfl⟩ | ⟨hend, rfl⟩
        · have hpresent := h.threads.present 0 none hnone
          rw [hasThread, howner] at hpresent
          simp at hpresent
        · exact absurd (List.mem_of_getElem? hdone) hkept.not_left
        · omega
  | start target hat hlog hplace =>
      obtain rfl : place' = .submit schedulers := hplace
      exact ⟨not_left_logStep (a := .callStart) hkept.not_left trivial hlog, by simp⟩
  | push scheduler rest target hat hlog hplace =>
      obtain rfl : place' = .notify rest := hplace
      exact ⟨not_left_logStep (a := .push scheduler) hkept.not_left trivial hlog, by simp⟩
  | notify rest target hat hlog hplace =>
      obtain rfl : place' = .submit rest := hplace
      exact ⟨not_left_logStep (a := .notifyOne target) hkept.not_left trivial hlog, by simp⟩
  | stop target hat hlog hplace =>
      obtain ⟨pool, hpool, heq⟩ := PoolLog.logStep_eq_ok hlog
      obtain rfl : log' = _ := heq
      refine ⟨not_left_logStep (a := .callStop) hkept.not_left trivial hlog, fun _ => .inl ?_⟩
      obtain ⟨-, ⟨-, rfl⟩ | ⟨hrunning, -⟩⟩ := callStop_eq_ok hpool
      · rfl
      · rw [(h.idle (.inl hat)).2] at hrunning
        cases hrunning
  | sleep target hat hidle hlog hplace =>
      rcases hkept.waits (.inl hat) with howner | howner
      · rw [hidle] at howner
        cases howner
      · rw [hidle] at howner
        cases howner

/-! ### With a thread to spare -/

theorem exists_loopStep {a : RunAction} {b : PoolAction S} {place : RunPlace S}
    (heq : s.loopStep schedulers a = s.perform b place)
    (hpool : ∃ pool, s.log.pool.poolStep b = .ok ((), pool)) :
    ∃ s', s.loopStep schedulers a = .ok ((), s') := by
  obtain ⟨pool, hpool⟩ := hpool
  rw [heq, perform, PoolLog.logStep, hpool]
  exact ⟨_, rfl⟩

end LpNet.LoopRun
