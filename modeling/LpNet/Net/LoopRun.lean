import LpNet.Thread.Accounting
import LpNet.Thread.Startup
import LpNet.Thread.Stop
import LpNet.Thread.Wakeup

/-!
`EventLoop::run` on its `ThreadPool`.

`run()` starts the pool, submits the loop of every scheduler and stops the pool. The loop of
a scheduler ends when `TaskScheduler::stop` is called, which nothing does, so a worker that
has a scheduler keeps it. The pool is the one of `Thread.Pool`, with all its threads at every
point where one of them may come in.

The task that `run()` submits is a lambda, to which `TaskWrapper` keeps a reference; here a task
is its scheduler, and `TakesLate` says where a worker calls it when the lambda is gone.

`Going` is what holds in every state; `weight` is what every step makes smaller, so that a run
ends.
-/

namespace LpNet

open Transition ThreadPool

inductive RunPlace (S : Type)
  | start
  /-- In the loop over `task_schedulers_`, with those that are left. -/
  | submit (rest : List S)
  /-- In `submit`, between `push` and `notify_one`. -/
  | notify (rest : List S)
  /-- After the loop, in `thread_pool_.stop()`. -/
  | stopping
  /-- In the loop around `Clock::sleep(1000)`. -/
  | sleeping
  deriving DecidableEq, Repr

structure LoopRun (S : Type) where
  log : PoolLog S
  place : RunPlace S
  deriving DecidableEq, Repr

inductive RunAction
  | worker (i : ℕ)
  /-- The constructor, `start()` or `stop()` of the pool goes on. -/
  | owner
  /-- `run` goes on; a notification wakes the worker `target`. -/
  | run (target : Option ℕ)
  deriving DecidableEq, Repr

namespace LoopRun

variable {S : Type} {s s' : LoopRun S}

/-- The constructor of the pool has begun, and `run` is called behind it. -/
def start (S : Type) (capacity queueCapacity hardwareConcurrency : ℕ) : LoopRun S :=
  ⟨.start S capacity queueCapacity hardwareConcurrency, .start⟩

/-- A worker that is in the loop of a scheduler. -/
def busy : Option (Worker S) → Bool
  | some (.run _) => true
  | _ => false

/-- A step of the pool, and where `run` is then. -/
def perform (s : LoopRun S) (a : PoolAction S) (place : RunPlace S) :
    Except PoolFault (Unit × LoopRun S) := do
  let (_, log) ← s.log.logStep a
  .ok ((), ⟨log, place⟩)

/-- Perform a step, where `schedulers` are those of `task_schedulers_` in its order. -/
def loopStep (schedulers : List S) (s : LoopRun S) : RunAction → Except PoolFault (Unit × LoopRun S)
  | .worker i =>
      -- `pTaskScheduler->start()` does not return
      if busy (s.log.pool.workerAt i) then .error .blocked else s.perform (.worker i) s.place
  | .owner => s.perform .owner s.place
  | .run target =>
      match s.place with
      | .start => s.perform .callStart (.submit schedulers)
      | .submit (scheduler :: rest) =>
          if s.log.pool.owner = .idle then s.perform (.push scheduler) (.notify rest)
          else .error .blocked
      | .notify rest => s.perform (.notifyOne target) (.submit rest)
      | .submit [] => s.perform .callStop .stopping
      | .stopping =>
          if s.log.pool.owner = .idle then .ok ((), { s with place := .sleeping })
          else .error .blocked
      | .sleeping => .error .blocked

/-- The schedulers whose loops have been entered, in the order in which they were taken. -/
def started (s : LoopRun S) : List S := s.log.popped.map Prod.snd

/-- No worker tests `running_` before the constructor has set it. -/
def StartsAll (s : LoopRun S) : RunAction → Prop
  | .worker i => s.log.pool.TestsRunning (.worker i)
  | _ => True

/-! ### What a step can do -/

variable {schedulers : List S} {n queueCapacity : ℕ}

theorem perform_eq_ok {a : PoolAction S} {place : RunPlace S} {b : Unit}
    (h : s.perform a place = .ok (b, s')) :
    s.log.logStep a = .ok ((), s'.log) ∧ s'.place = place := by
  rw [perform, bind_eq_ok] at h
  obtain ⟨⟨⟨⟩, log⟩, hlog, h⟩ := h
  cases h
  exact ⟨hlog, rfl⟩

inductive Moves (schedulers : List S) (s s' : LoopRun S) : RunAction → Prop
  | worker (i : ℕ) (hfree : busy (s.log.pool.workerAt i) = false)
      (hlog : s.log.logStep (.worker i) = .ok ((), s'.log)) (hplace : s'.place = s.place) :
      Moves schedulers s s' (.worker i)
  | owner (hlog : s.log.logStep .owner = .ok ((), s'.log)) (hplace : s'.place = s.place) :
      Moves schedulers s s' .owner
  | start (target : Option ℕ) (hat : s.place = .start)
      (hlog : s.log.logStep .callStart = .ok ((), s'.log))
      (hplace : s'.place = .submit schedulers) : Moves schedulers s s' (.run target)
  | push (scheduler : S) (rest : List S) (target : Option ℕ)
      (hat : s.place = .submit (scheduler :: rest))
      (hlog : s.log.logStep (.push scheduler) = .ok ((), s'.log))
      (hplace : s'.place = .notify rest) : Moves schedulers s s' (.run target)
  | notify (rest : List S) (target : Option ℕ) (hat : s.place = .notify rest)
      (hlog : s.log.logStep (.notifyOne target) = .ok ((), s'.log))
      (hplace : s'.place = .submit rest) : Moves schedulers s s' (.run target)
  | stop (target : Option ℕ) (hat : s.place = .submit [])
      (hlog : s.log.logStep .callStop = .ok ((), s'.log)) (hplace : s'.place = .stopping) :
      Moves schedulers s s' (.run target)
  | sleep (target : Option ℕ) (hat : s.place = .stopping) (hidle : s.log.pool.owner = .idle)
      (hlog : s'.log = s.log) (hplace : s'.place = .sleeping) : Moves schedulers s s' (.run target)

theorem moves_of_loopStep {a : RunAction} {b : Unit}
    (h : s.loopStep schedulers a = .ok (b, s')) : s.Moves schedulers s' a := by
  cases a with
  | worker i =>
      rw [loopStep] at h
      split at h
      case isTrue => cases h
      case isFalse hfree =>
        obtain ⟨hlog, hplace⟩ := perform_eq_ok h
        exact .worker i (Bool.eq_false_iff.mpr hfree) hlog hplace
  | owner =>
      obtain ⟨hlog, hplace⟩ := perform_eq_ok h
      exact .owner hlog hplace
  | run target =>
      rw [loopStep] at h
      split at h
      case h_1 hat =>
        obtain ⟨hlog, hplace⟩ := perform_eq_ok h
        exact .start target hat hlog hplace
      case h_2 scheduler rest hat =>
        split at h
        case isTrue =>
          obtain ⟨hlog, hplace⟩ := perform_eq_ok h
          exact .push scheduler rest target hat hlog hplace
        case isFalse => cases h
      case h_3 rest hat =>
        obtain ⟨hlog, hplace⟩ := perform_eq_ok h
        exact .notify rest target hat hlog hplace
      case h_4 hat =>
        obtain ⟨hlog, hplace⟩ := perform_eq_ok h
        exact .stop target hat hlog hplace
      case h_5 hat =>
        split at h
        case isTrue hidle =>
          cases h
          exact .sleep target hat hidle rfl rfl
        case isFalse => cases h
      case h_6 => cases h

/-! ### What holds in every state -/

/-- The schedulers that are not submitted yet. -/
def left (schedulers : List S) : RunPlace S → List S
  | .start => schedulers
  | .submit rest | .notify rest => rest
  | .stopping | .sleeping => []

/-- How many notifications are to follow their push. -/
def pending : RunPlace S → ℕ
  | .notify _ => 1
  | _ => 0

def Phase (pool : ThreadPool S) : RunPlace S → Prop
  | .start => pool.Starts
  | .submit _ | .notify _ => pool.owner = .idle ∧ pool.running = true
  | .stopping => pool.owner = .notifyAll ∨ (∃ i, pool.owner = .join i) ∨
      pool.owner = .idle ∧ pool.running = false
  | .sleeping => pool.owner = .idle ∧ pool.running = false

structure Going (schedulers : List S) (n queueCapacity : ℕ) (s : LoopRun S) : Prop where
  threads : s.log.pool.Threads
  accounted : s.log.Accounted queueCapacity
  length_eq : s.log.pool.workers.length = n
  busy_eq : s.log.pool.workers.countP busy = s.log.popped.length
  ahead : s.log.accepted ++ left schedulers s.place = schedulers
  notifying_eq : s.log.pool.notifying = pending s.place
  phase : Phase s.log.pool s.place

theorem busy_toNat (w : Option (Worker S)) : (busy w).toNat = (inHand w).length := by
  cases w with
  | none => rfl
  | some pc => cases pc <;> rfl

theorem countP_set_add {α : Type} {l : List α} {i : ℕ} {a : α} (p : α → Bool) (h : l[i]? = some a)
    (b : α) : (l.set i b).countP p + (p a).toNat = l.countP p + (p b).toNat := by
  obtain ⟨rest, hperm, hset⟩ := perm_cons_of_getElem? h
  rw [hperm.countP_eq, (hset b).countP_eq, List.countP_cons, List.countP_cons]
  cases p a <;> cases p b <;> simp

theorem countP_busy_congr {l l' : List (Option (Worker S))} (hlength : l'.length = l.length)
    (h : ∀ j, inHand (l'.getD j none) = inHand (l.getD j none)) :
    l'.countP busy = l.countP busy := by
  induction l generalizing l' with
  | nil => rw [List.length_eq_zero_iff.mp hlength]
  | cons w l ih =>
      cases l' with
      | nil => cases hlength
      | cons w' l' =>
          have hhead := congrArg List.length (h 0)
          rw [List.getD_cons_zero, List.getD_cons_zero, ← busy_toNat, ← busy_toNat] at hhead
          have htail := ih (Nat.succ.inj hlength) fun j => by simpa using h (j + 1)
          rw [List.countP_cons, List.countP_cons, htail]
          cases hw : busy w <;> cases hw' : busy w' <;> simp [hw, hw'] at hhead ⊢

theorem busy_step {a : PoolAction S} {t u : PoolLog S}
    (hfree : ∀ i, a = .worker i → busy (t.pool.workerAt i) = false)
    (h : t.logStep a = .ok ((), u)) :
    u.pool.workers.countP busy + t.popped.length =
      t.pool.workers.countP busy + u.popped.length := by
  obtain ⟨pool, hpool, rfl⟩ := PoolLog.logStep_eq_ok h
  by_cases ha : ∀ i, a ≠ .worker i
  case pos =>
    have hpopped : t.pool.poppedBy a = [] := by
      cases a with
      | worker i => exact absurd rfl (ha i)
      | _ => rfl
    dsimp only
    rw [hpopped, List.append_nil,
      countP_busy_congr (length_workers_step hpool) fun j => inHand_step ha hpool j]
  case neg =>
    rw [not_forall] at ha
    obtain ⟨i, hi⟩ := ha
    obtain rfl := not_not.mp hi
    obtain ⟨pc, pc', locked, q, hpc, hwork, rfl⟩ := worker_eq_ok hpool
    have hcount := countP_set_add busy hpc (some pc')
    have hat := workerAt_of_getElem? hpc
    have hold := hfree i rfl
    rw [hat] at hold
    rw [hold, busy_toNat, ← (taken_of_work hwork).1] at hcount
    simp only [poppedBy, hat, List.length_append, List.length_map]
    simp only [Bool.toNat_false, Nat.add_zero] at hcount
    omega

theorem Going.idle (h : s.Going schedulers n queueCapacity) {rest : List S}
    (hat : s.place = .submit rest ∨ s.place = .notify rest) :
    s.log.pool.owner = .idle ∧ s.log.pool.running = true := by
  have hphase := h.phase
  rcases hat with hat | hat <;> rwa [hat] at hphase

theorem Going.accepts (h : s.Going schedulers n queueCapacity)
    (hroom : schedulers.length ≤ queueCapacity) {scheduler : S} {rest : List S}
    (hat : s.place = .submit (scheduler :: rest)) :
    s.log.pool.acceptedBy (.push scheduler) = [scheduler] := by
  have hlength := congrArg List.length h.ahead
  have horder := congrArg List.length h.accounted.order
  rw [hat, List.length_append] at hlength
  rw [List.length_append] at horder
  have hcapacity := h.accounted.capacity_eq
  simp only [left, List.length_cons] at hlength
  have hfree : s.log.pool.q.items.length ≠ s.log.pool.q.capacity := by omega
  simp [acceptedBy, SafeQueue.push, hfree]

theorem Going.pool (h : s.Going schedulers n queueCapacity) {a : PoolAction S} {log : PoolLog S}
    (hfree : ∀ i, a = .worker i → busy (s.log.pool.workerAt i) = false)
    (hlog : s.log.logStep a = .ok ((), log)) {place : RunPlace S}
    (hahead : log.accepted ++ left schedulers place = schedulers)
    (hnotifying : log.pool.notifying = pending place) (hphase : Phase log.pool place) :
    Going schedulers n queueCapacity ⟨log, place⟩ := by
  have hbusy := busy_step hfree hlog
  rw [h.busy_eq, Nat.add_comm] at hbusy
  obtain ⟨pool, hpool, rfl⟩ := PoolLog.logStep_eq_ok hlog
  exact ⟨h.threads.step hpool, h.accounted.step hlog, (length_workers_step hpool).trans h.length_eq,
    Nat.add_left_cancel hbusy, hahead, hnotifying, hphase⟩

theorem Going.step (h : s.Going schedulers n queueCapacity)
    (hroom : schedulers.length ≤ queueCapacity) {a : RunAction} (hstep : s.Moves schedulers s' a) :
    s'.Going schedulers n queueCapacity := by
  obtain ⟨log', place'⟩ := s'
  have hahead := h.ahead
  have hnotifying := h.notifying_eq
  have hphase := h.phase
  cases hstep with
  | worker i hfree hlog hplace =>
      obtain ⟨pool, hpool, heq⟩ := PoolLog.logStep_eq_ok hlog
      obtain rfl : log' = _ := heq
      obtain rfl : place' = s.place := hplace
      obtain ⟨pc, pc', locked, q, -, -, rfl⟩ := worker_eq_ok hpool
      refine h.pool (fun j hj => ?_) hlog ?_ hnotifying ?_
      · cases hj
        exact hfree
      · simpa [acceptedBy] using hahead
      · cases hat : s.place <;> rw [hat] at hphase <;> exact hphase
  | owner hlog hplace =>
      obtain ⟨pool, hpool, heq⟩ := PoolLog.logStep_eq_ok hlog
      obtain rfl : log' = _ := heq
      obtain rfl : place' = s.place := hplace
      have hbusy : s.log.pool.owner ≠ .idle := owner_ne_idle hpool
      refine h.pool (fun j hj => by cases hj) hlog ?_ ?_ ?_
      · simpa [acceptedBy] using hahead
      · rw [← hnotifying]
        rcases owner_eq_ok hpool with ⟨i, -, -, rfl⟩ | ⟨i, -, -, rfl⟩ | ⟨-, rfl⟩ |
          ⟨i, -, -, rfl⟩ | ⟨i, -, -, rfl⟩ | ⟨i, -, -, rfl⟩ <;> rfl
      · cases hat : s.place with
        | start =>
            rw [hat] at hphase
            exact hphase.step (by simp) hpool
        | submit rest => exact absurd (h.idle (.inl hat)).1 hbusy
        | notify rest => exact absurd (h.idle (.inr hat)).1 hbusy
        | sleeping =>
            rw [hat] at hphase
            exact absurd hphase.1 hbusy
        | stopping =>
            rw [hat] at hphase
            rcases owner_eq_ok hpool with ⟨i, hown, -, rfl⟩ | ⟨i, hown, -, rfl⟩ | ⟨-, rfl⟩ |
              ⟨i, -, -, rfl⟩ | ⟨i, -, -, rfl⟩ | ⟨i, -, -, rfl⟩
            · rcases hphase with howner | ⟨j, howner⟩ | ⟨howner, -⟩ <;> rw [howner] at hown <;>
                cases hown
            · rcases hphase with howner | ⟨j, howner⟩ | ⟨howner, -⟩ <;> rw [howner] at hown <;>
                cases hown
            · exact .inr (.inl ⟨0, rfl⟩)
            · exact .inr (.inl ⟨i + 1, rfl⟩)
            · exact .inr (.inl ⟨i + 1, rfl⟩)
            · exact .inr (.inr ⟨rfl, rfl⟩)
  | start target hat hlog hplace =>
      obtain ⟨pool, hpool, heq⟩ := PoolLog.logStep_eq_ok hlog
      obtain rfl : log' = _ := heq
      obtain rfl : place' = .submit schedulers := hplace
      rw [hat] at hahead hnotifying hphase
      obtain ⟨hidle, ⟨hrunning, rfl⟩ | ⟨hrunning, -⟩⟩ := callStart_eq_ok hpool
      · exact h.pool (fun j hj => by cases hj) hlog (by simpa [acceptedBy, left] using hahead)
          hnotifying ⟨hidle, hrunning⟩
      · rcases hphase with ⟨i, howner⟩ | ⟨-, hrunning'⟩
        · rw [hidle] at howner
          cases howner
        · rw [hrunning] at hrunning'
          cases hrunning'
  | push scheduler rest target hat hlog hplace =>
      obtain ⟨pool, hpool, heq⟩ := PoolLog.logStep_eq_ok hlog
      obtain rfl : log' = _ := heq
      obtain rfl : place' = .notify rest := hplace
      have haccepts := h.accepts hroom hat
      rw [hat] at hahead hnotifying hphase
      cases hpool
      refine h.pool (fun j hj => by cases hj) hlog ?_ ?_ hphase
      · rw [← hahead]
        dsimp only
        rw [haccepts, List.append_assoc]
        rfl
      · exact congrArg (· + 1) hnotifying
  | notify rest target hat hlog hplace =>
      obtain ⟨pool, hpool, heq⟩ := PoolLog.logStep_eq_ok hlog
      obtain rfl : log' = _ := heq
      obtain rfl : place' = .submit rest := hplace
      rw [hat] at hahead hnotifying hphase
      refine h.pool (fun j hj => by cases hj) hlog (by simpa [acceptedBy, left] using hahead) ?_ ?_
      all_goals
        obtain ⟨-, ⟨-, -, rfl⟩ | ⟨i, -, -, rfl⟩⟩ := notifyOne_eq_ok hpool
      · exact congrArg (· - 1) hnotifying
      · exact congrArg (· - 1) hnotifying
      · exact hphase
      · exact hphase
  | stop target hat hlog hplace =>
      obtain ⟨pool, hpool, heq⟩ := PoolLog.logStep_eq_ok hlog
      obtain rfl : log' = _ := heq
      obtain rfl : place' = .stopping := hplace
      rw [hat] at hahead hnotifying hphase
      obtain ⟨-, ⟨-, rfl⟩ | ⟨hrunning, -⟩⟩ := callStop_eq_ok hpool
      · exact h.pool (fun j hj => by cases hj) hlog (by simpa [acceptedBy, left] using hahead)
          hnotifying (.inl rfl)
      · rw [hphase.2] at hrunning
        cases hrunning
  | sleep target hat hidle hlog hplace =>
      obtain rfl : log' = s.log := hlog
      obtain rfl : place' = .sleeping := hplace
      rw [hat] at hahead hnotifying hphase
      refine ⟨h.threads, h.accounted, h.length_eq, h.busy_eq, hahead, hnotifying, hidle, ?_⟩
      rcases hphase with howner | ⟨i, howner⟩ | ⟨-, hrunning⟩
      · rw [hidle] at howner
        cases howner
      · rw [hidle] at howner
        cases howner
      · exact hrunning

/-! ### A run ends -/

/-- How far `run` is from its end. -/
def placeWeight (schedulers : List S) : RunPlace S → ℕ
  | .start => 2 * schedulers.length + 4
  | .submit rest => 2 * rest.length + 3
  | .notify rest => 2 * rest.length + 4
  | .stopping => 2
  | .sleeping => 1

/-- How far the call of the pool is from its return. -/
def ownerWeight (n : ℕ) : Owner → ℕ
  | .idle => 0
  | .spawn i | .join i => n - i + 1
  | .notifyAll => n + 2

/-- What every step makes smaller: first `run`, its call of the pool and the queue, then how far
the workers are from blocking. -/
def weight (schedulers : List S) (n : ℕ) (s : LoopRun S) : ℕ :=
  (8 * n + 1) * ((n + 4) * placeWeight schedulers s.place + ownerWeight n s.log.pool.owner +
    s.log.pool.q.items.length) + ranks s.log.pool.q.empty s.log.pool.workers

theorem ranks_le (empty : Bool) (workers : List (Option (Worker S))) :
    ranks empty workers ≤ 8 * workers.length := by
  induction workers with
  | nil => exact Nat.le_refl 0
  | cons w rest ih =>
      have hle : rankAt empty w ≤ 8 := by
        cases w with
        | none => exact Nat.zero_le 8
        | some pc => cases empty <;> cases pc <;> simp [rankAt, rank]
      rw [ranks, List.length_cons]
      omega

theorem weight_lt_of_head {n a b r r' : ℕ} (hlt : a < b) (hr : r ≤ 8 * n) :
    (8 * n + 1) * a + r < (8 * n + 1) * b + r' := by
  have hle : (8 * n + 1) * (a + 1) ≤ (8 * n + 1) * b := Nat.mul_le_mul_left _ hlt
  rw [Nat.mul_add, Nat.mul_one] at hle
  omega

/-- A worker that takes no task comes closer to blocking, or leaves. -/
theorem rank_of_worker {pool : ThreadPool S} (hthreads : pool.Threads) {i : ℕ} {pc pc' : Worker S}
    {locked : Bool} (hpc : pool.workers[i]? = some (some pc))
    (hwork : pool.work pc = .ok (pc', locked, pool.q)) :
    rank pool.q.empty pc' < rank pool.q.empty pc := by
  cases hrunning : pool.running with
  | true => exact rank_of_work hwork hrunning
  | false =>
      have hearly := hthreads.early hrunning _ (List.mem_of_getElem? hpc)
      obtain rfl := done_of_work hwork hrunning hearly
      obtain ⟨rfl, -⟩ := left_of_work hwork
      cases pool.q.empty <;> simp [rank]

theorem head_lt_of_place {n place place' owner owner' items items' : ℕ} (hplace : place' < place)
    (hpool : owner' + items' < n + 4 + owner + items) :
    (n + 4) * place' + owner' + items' < (n + 4) * place + owner + items := by
  have hle : (n + 4) * (place' + 1) ≤ (n + 4) * place := Nat.mul_le_mul_left _ hplace
  rw [Nat.mul_add, Nat.mul_one] at hle
  omega

/-- The owner comes closer to the end of its call, and leaves the queue alone. -/
theorem ownerWeight_lt {pool pool' : ThreadPool S}
    (hstep : pool.poolStep .owner = .ok ((), pool')) :
    ownerWeight pool.workers.length pool'.owner < ownerWeight pool.workers.length pool.owner ∧
      pool'.q = pool.q := by
  rcases owner_eq_ok hstep with ⟨i, howner, hi, rfl⟩ | ⟨i, howner, -, rfl⟩ | ⟨howner, rfl⟩ |
    ⟨i, howner, hi, rfl⟩ | ⟨i, howner, hi, rfl⟩ | ⟨i, howner, -, rfl⟩
  all_goals
    rw [howner]
    refine ⟨?_, rfl⟩
  · have hlt := (List.getElem?_eq_some_iff.mp hi).1
    simp only [ownerWeight]
    omega
  · exact Nat.succ_pos _
  · exact Nat.lt_succ_self _
  · have hlt := (List.getElem?_eq_some_iff.mp hi).1
    simp only [ownerWeight]
    omega
  · have hlt := (List.getElem?_eq_some_iff.mp hi).1
    simp only [ownerWeight]
    omega
  · exact Nat.succ_pos _

theorem Going.weight_lt (h : s.Going schedulers n queueCapacity) {a : RunAction}
    (hstep : s.Moves schedulers s' a) : s'.weight schedulers n < s.weight schedulers n := by
  obtain ⟨log', place'⟩ := s'
  have hranks : ranks log'.pool.q.empty log'.pool.workers ≤ 8 * n := by
    have hlength : log'.pool.workers.length = n := by
      cases hstep with
      | sleep target hat hidle hlog hplace =>
          obtain rfl : log' = s.log := hlog
          exact h.length_eq
      | _ =>
          obtain ⟨pool, hpool, heq⟩ := PoolLog.logStep_eq_ok ‹_›
          obtain rfl : log' = _ := heq
          exact (length_workers_step hpool).trans h.length_eq
    exact hlength ▸ ranks_le _ _
  cases hstep with
  | worker i hfree hlog hplace =>
      obtain ⟨pool, hpool, heq⟩ := PoolLog.logStep_eq_ok hlog
      obtain rfl : log' = _ := heq
      obtain rfl : place' = s.place := hplace
      obtain ⟨pc, pc', locked, q, hpc, hwork, rfl⟩ := worker_eq_ok hpool
      rcases queue_of_work hwork with rfl | ⟨task, -, -, hitems⟩
      · have hrank := rank_of_worker h.threads hpc hwork
        refine Nat.add_lt_add_left ?_ _
        exact ranks_set_lt hpc hrank
      · refine weight_lt_of_head ?_ hranks
        dsimp only
        rw [hitems, List.length_cons]
        omega
  | owner hlog hplace =>
      obtain ⟨pool, hpool, heq⟩ := PoolLog.logStep_eq_ok hlog
      obtain rfl : log' = _ := heq
      obtain rfl : place' = s.place := hplace
      obtain ⟨hlt, hq⟩ := ownerWeight_lt hpool
      rw [h.length_eq] at hlt
      refine weight_lt_of_head ?_ hranks
      dsimp only
      rw [hq]
      omega
  | start target hat hlog hplace =>
      obtain ⟨pool, hpool, heq⟩ := PoolLog.logStep_eq_ok hlog
      obtain rfl : log' = _ := heq
      obtain rfl : place' = .submit schedulers := hplace
      refine weight_lt_of_head (head_lt_of_place ?_ ?_) hranks
      · rw [hat]
        exact Nat.lt_succ_self _
      · obtain ⟨-, ⟨-, rfl⟩ | ⟨-, rfl⟩⟩ := callStart_eq_ok hpool
        · dsimp only
          omega
        · simp only [ownerWeight]
          omega
  | push scheduler rest target hat hlog hplace =>
      obtain ⟨pool, hpool, heq⟩ := PoolLog.logStep_eq_ok hlog
      obtain rfl : log' = _ := heq
      obtain rfl : place' = .notify rest := hplace
      refine weight_lt_of_head (head_lt_of_place ?_ ?_) hranks
      · rw [hat]
        simp only [placeWeight, List.length_cons]
        omega
      · cases hpool
        dsimp only
        rw [SafeQueue.push]
        split
        · dsimp only
          omega
        · rw [List.length_append, List.length_singleton]
          omega
  | notify rest target hat hlog hplace =>
      obtain ⟨pool, hpool, heq⟩ := PoolLog.logStep_eq_ok hlog
      obtain rfl : log' = _ := heq
      obtain rfl : place' = .submit rest := hplace
      refine weight_lt_of_head (head_lt_of_place ?_ ?_) hranks
      · rw [hat]
        exact Nat.lt_succ_self _
      · obtain ⟨-, ⟨-, -, rfl⟩ | ⟨i, -, -, rfl⟩⟩ := notifyOne_eq_ok hpool
        · dsimp only
          omega
        · dsimp only
          omega
  | stop target hat hlog hplace =>
      obtain ⟨pool, hpool, heq⟩ := PoolLog.logStep_eq_ok hlog
      obtain rfl : log' = _ := heq
      obtain rfl : place' = .stopping := hplace
      refine weight_lt_of_head (head_lt_of_place ?_ ?_) hranks
      · rw [hat]
        exact Nat.lt_succ_self _
      · obtain ⟨-, ⟨-, rfl⟩ | ⟨-, rfl⟩⟩ := callStop_eq_ok hpool
        · simp only [ownerWeight]
          omega
        · dsimp only
          omega
  | sleep target hat hidle hlog hplace =>
      obtain rfl : log' = s.log := hlog
      obtain rfl : place' = .sleeping := hplace
      refine weight_lt_of_head (head_lt_of_place ?_ ?_) hranks
      · rw [hat]
        exact Nat.lt_succ_self _
      · dsimp only
        omega

theorem Going.length_le (h : s.Going schedulers n queueCapacity)
    (hroom : schedulers.length ≤ queueCapacity) {as : List RunAction} {bs : List Unit}
    {t : LoopRun S} (hrun : run (loopStep schedulers) s as = .ok (bs, t)) :
    as.length ≤ s.weight schedulers n := by
  induction as generalizing s bs with
  | nil => exact Nat.zero_le _
  | cons a as ih =>
      obtain ⟨b, bs', s', hstep, hrest, -⟩ := run_cons_eq_ok hrun
      have hmoves := moves_of_loopStep hstep
      have hlt := h.weight_lt hmoves
      have hle := ih (h.step hroom hmoves) hrest
      rw [List.length_cons]
      omega

end LoopRun

end LpNet
