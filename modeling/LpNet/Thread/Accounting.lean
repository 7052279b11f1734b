import LpNet.Thread.Pool

/-!
Which tasks a `ThreadPool` runs.

`PoolLog` is a pool with its history: the tasks that `push` accepted, those that a
worker popped, and those that it called. Several workers may find the predicate true for
one task, because it is evaluated before `mutex_` is given up and the queue is read
again; `pop` answers false to all but one of them. `tasks_accounted` says that in every
state what was popped and what is queued is what was accepted, in order, and that a
worker calls what it popped, once, in the order in which it popped it.
-/

namespace LpNet

open Transition

structure PoolLog (T : Type) where
  pool : ThreadPool T
  /-- The tasks for which `push` answered true. -/
  accepted : List T
  /-- The tasks for which `pop` answered true, with the worker that asked. -/
  popped : List (ℕ × T)
  /-- The tasks that were called, with the worker that called. -/
  called : List (ℕ × T)
  deriving DecidableEq, Repr

namespace ThreadPool

variable {T : Type} {s s' : ThreadPool T}

/-- The task that a step adds to the queue, if any. -/
def acceptedBy (s : ThreadPool T) : PoolAction T → List T
  | .push task => if (s.q.push task).1 then [task] else []
  | _ => []

/-- The task that a worker takes out of the queue in its next step, if any. -/
def taken (s : ThreadPool T) : Option (Worker T) → List T
  | some .pop => s.q.pop.1.toList
  | _ => []

/-- The task that a worker has popped and is to call, if any. -/
def inHand : Option (Worker T) → List T
  | some (.run task) => [task]
  | _ => []

def workerAt (s : ThreadPool T) (i : ℕ) : Option (Worker T) := s.workers.getD i none

def poppedBy (s : ThreadPool T) : PoolAction T → List (ℕ × T)
  | .worker i => (s.taken (s.workerAt i)).map fun task => (i, task)
  | _ => []

def calledBy (s : ThreadPool T) : PoolAction T → List (ℕ × T)
  | .worker i => (inHand (s.workerAt i)).map fun task => (i, task)
  | _ => []

end ThreadPool

namespace PoolLog

open ThreadPool

variable {T : Type} {s s' : PoolLog T}

def start (T : Type) (capacity queueCapacity hardwareConcurrency : ℕ) : PoolLog T where
  pool := .new T capacity queueCapacity hardwareConcurrency
  accepted := []
  popped := []
  called := []

def logStep (s : PoolLog T) (a : PoolAction T) : Except PoolFault (Unit × PoolLog T) := do
  let (_, pool) ← s.pool.poolStep a
  .ok ((), ⟨pool, s.accepted ++ s.pool.acceptedBy a, s.popped ++ s.pool.poppedBy a,
    s.called ++ s.pool.calledBy a⟩)

/-- The tasks of one worker, in order. -/
def tasksOf (i : ℕ) (log : List (ℕ × T)) : List T :=
  (log.filter fun entry => entry.1 = i).map Prod.snd

/-- What was accepted was popped or is queued, in order; what a worker popped it called or is
about to call; and no more is queued than there is room for. -/
structure Accounted (queueCapacity : ℕ) (s : PoolLog T) : Prop where
  order : s.accepted = s.popped.map Prod.snd ++ s.pool.q.items
  once : ∀ i, tasksOf i s.popped = tasksOf i s.called ++ inHand (s.pool.workerAt i)
  capacity_eq : s.pool.q.capacity = queueCapacity
  length_le : s.pool.q.items.length ≤ queueCapacity

end PoolLog

/-! ### What a step moves -/

namespace ThreadPool

variable {T : Type} {s s' : ThreadPool T}

theorem taken_of_work {pc pc' : Worker T} {locked : Bool} {q : SafeQueue T}
    (hwork : s.work pc = .ok (pc', locked, q)) :
    s.taken (some pc) = inHand (some pc') ∧ s.q.items = s.taken (some pc) ++ q.items ∧
      q.capacity = s.q.capacity := by
  cases pc with
  | test =>
      cases hwork
      cases s.running <;> exact ⟨rfl, rfl, rfl⟩
  | lock =>
      rw [work] at hwork
      split at hwork
      · cases hwork
      · cases hwork
        exact ⟨rfl, rfl, rfl⟩
  | check =>
      cases hwork
      cases s.q.empty <;> exact ⟨rfl, rfl, rfl⟩
  | checkFlag =>
      cases hwork
      cases s.running <;> exact ⟨rfl, rfl, rfl⟩
  | pop =>
      cases hitems : s.q.items with
      | nil =>
          rw [work, SafeQueue.pop, hitems] at hwork
          cases hwork
          have htaken : s.taken (some .pop) = [] := by
            rw [taken, SafeQueue.pop, hitems]
            rfl
          rw [htaken]
          exact ⟨rfl, hitems.symm, rfl⟩
      | cons task rest =>
          rw [work, SafeQueue.pop, hitems] at hwork
          cases hwork
          rw [taken, SafeQueue.pop, hitems]
          exact ⟨rfl, rfl, rfl⟩
  | blocked => cases hwork
  | done => cases hwork
  | block | unlock | run =>
      cases hwork
      exact ⟨rfl, rfl, rfl⟩

theorem workerAt_of_getElem? {i : ℕ} {w : Option (Worker T)} (h : s.workers[i]? = some w) :
    s.workerAt i = w := by
  rw [workerAt, List.getD_eq_getElem?_getD, h, Option.getD_some]

theorem getD_set_self {α : Type} {l : List α} {i : ℕ} {a : α} (h : l[i]? = some a) (b c : α) :
    (l.set i b).getD i c = b := by
  rw [List.getD_eq_getElem?_getD, List.getElem?_set_self (List.getElem?_eq_some_iff.mp h).1,
    Option.getD_some]

theorem getD_set_ne {α : Type} {i j : ℕ} (h : j ≠ i) (l : List α) (b c : α) :
    (l.set i b).getD j c = l.getD j c := by
  rw [List.getD_eq_getElem?_getD, List.getElem?_set_ne (Ne.symm h), List.getD_eq_getElem?_getD]

/-- Putting a place in for another where neither has a task. -/
theorem inHand_set {i : ℕ} {w w' : Option (Worker T)} (h : s.workers[i]? = some w)
    (hw : inHand w = []) (hw' : inHand w' = []) (j : ℕ) :
    inHand ((s.workers.set i w').getD j none) = inHand (s.workerAt j) := by
  by_cases hij : j = i
  case pos =>
    subst hij
    rw [getD_set_self h, workerAt_of_getElem? h, hw, hw']
  case neg => rw [getD_set_ne hij, workerAt]

theorem inHand_wake (w : Option (Worker T)) : inHand (wake w) = inHand w := by
  cases w with
  | none => rfl
  | some pc => cases pc <;> rfl

/-- Whatever is not a step of a worker leaves the tasks in hand alone. -/
theorem inHand_step {a : PoolAction T} (ha : ∀ i, a ≠ .worker i)
    (hstep : s.poolStep a = .ok ((), s')) (j : ℕ) :
    inHand (s'.workerAt j) = inHand (s.workerAt j) := by
  cases a with
  | worker i => exact absurd rfl (ha i)
  | owner =>
      rcases owner_eq_ok hstep with ⟨i, -, hnone, rfl⟩ | ⟨i, -, -, rfl⟩ | ⟨-, rfl⟩ |
        ⟨i, -, -, rfl⟩ | ⟨i, -, hdone, rfl⟩ | ⟨i, -, -, rfl⟩
      · exact inHand_set hnone rfl rfl j
      · rfl
      · rw [← inHand_wake (s.workerAt j), workerAt, workerAt, List.getD_eq_getElem?_getD,
          List.getD_eq_getElem?_getD, List.getElem?_map]
        cases s.workers[j]? <;> rfl
      · rfl
      · exact inHand_set hdone rfl rfl j
      · rfl
  | callStart =>
      obtain ⟨-, ⟨-, rfl⟩ | ⟨-, rfl⟩⟩ := callStart_eq_ok hstep <;> rfl
  | callStop =>
      obtain ⟨-, ⟨-, rfl⟩ | ⟨-, rfl⟩⟩ := callStop_eq_ok hstep <;> rfl
  | push task =>
      cases hstep
      rfl
  | notifyOne target =>
      obtain ⟨-, ⟨-, -, rfl⟩ | ⟨i, -, hi, rfl⟩⟩ := notifyOne_eq_ok hstep
      · rfl
      · exact inHand_set hi rfl rfl j

/-- A step that is neither a push nor one of a worker leaves the queue alone. -/
theorem queue_step {a : PoolAction T} (ha : ∀ i, a ≠ .worker i)
    (hstep : s.poolStep a = .ok ((), s')) :
    s'.q.capacity = s.q.capacity ∧ s'.q.items = s.q.items ++ s.acceptedBy a ∧
      (s.q.items.length ≤ s.q.capacity → s'.q.items.length ≤ s.q.capacity) := by
  cases a with
  | worker i => exact absurd rfl (ha i)
  | owner =>
      have hnone : s.acceptedBy .owner = [] := rfl
      rw [hnone, List.append_nil]
      rcases owner_eq_ok hstep with ⟨i, -, -, rfl⟩ | ⟨i, -, -, rfl⟩ | ⟨-, rfl⟩ |
        ⟨i, -, -, rfl⟩ | ⟨i, -, -, rfl⟩ | ⟨i, -, -, rfl⟩ <;> exact ⟨rfl, rfl, id⟩
  | callStart =>
      have hnone : s.acceptedBy .callStart = [] := rfl
      rw [hnone, List.append_nil]
      obtain ⟨-, ⟨-, rfl⟩ | ⟨-, rfl⟩⟩ := callStart_eq_ok hstep <;> exact ⟨rfl, rfl, id⟩
  | callStop =>
      have hnone : s.acceptedBy .callStop = [] := rfl
      rw [hnone, List.append_nil]
      obtain ⟨-, ⟨-, rfl⟩ | ⟨-, rfl⟩⟩ := callStop_eq_ok hstep <;> exact ⟨rfl, rfl, id⟩
  | push task =>
      cases hstep
      rw [acceptedBy, SafeQueue.push]
      split
      case isTrue => exact ⟨rfl, (List.append_nil _).symm, id⟩
      case isFalse hroom =>
        refine ⟨rfl, rfl, fun hle => ?_⟩
        rw [List.length_append, List.length_singleton]
        omega
  | notifyOne target =>
      have hnone : s.acceptedBy (.notifyOne target) = [] := rfl
      rw [hnone, List.append_nil]
      obtain ⟨-, ⟨-, -, rfl⟩ | ⟨i, -, -, rfl⟩⟩ := notifyOne_eq_ok hstep <;>
        exact ⟨rfl, rfl, id⟩

end ThreadPool

/-! ### The invariant -/

namespace PoolLog

open ThreadPool

variable {T : Type} {s s' : PoolLog T} {queueCapacity : ℕ}

theorem logStep_eq_ok {a : PoolAction T} {b : Unit} (h : s.logStep a = .ok (b, s')) :
    ∃ pool, s.pool.poolStep a = .ok ((), pool) ∧
      s' = ⟨pool, s.accepted ++ s.pool.acceptedBy a, s.popped ++ s.pool.poppedBy a,
        s.called ++ s.pool.calledBy a⟩ := by
  rw [logStep, bind_eq_ok] at h
  obtain ⟨⟨⟨⟩, pool⟩, hpool, h⟩ := h
  injection h with h
  exact ⟨pool, hpool, (Prod.mk.inj h).2.symm⟩

theorem tasksOf_append (i : ℕ) (log log' : List (ℕ × T)) :
    tasksOf i (log ++ log') = tasksOf i log ++ tasksOf i log' := by
  rw [tasksOf, List.filter_append, List.map_append]
  rfl

theorem tasksOf_self (i : ℕ) (tasks : List T) :
    tasksOf i (tasks.map fun task => (i, task)) = tasks := by
  simp [tasksOf, List.filter_map, Function.comp_def]

theorem tasksOf_ne {i j : ℕ} (h : j ≠ i) (tasks : List T) :
    tasksOf j (tasks.map fun task => (i, task)) = [] := by
  simp [tasksOf, List.filter_map, Function.comp_def, Ne.symm h]

theorem start_accounted (capacity queueCapacity hardwareConcurrency : ℕ) :
    Accounted queueCapacity (start T capacity queueCapacity hardwareConcurrency) where
  order := rfl
  once i := by
    have hnone : (start T capacity queueCapacity hardwareConcurrency).pool.workerAt i = none := by
      rw [workerAt, List.getD_eq_getElem?_getD]
      cases hw : (start T capacity queueCapacity hardwareConcurrency).pool.workers[i]? with
      | none => rfl
      | some w => exact List.eq_of_mem_replicate (List.mem_of_getElem? hw)
    rw [hnone]
    rfl
  capacity_eq := rfl
  length_le := Nat.zero_le queueCapacity

theorem Accounted.step {a : PoolAction T} {b : Unit} (h : s.Accounted queueCapacity)
    (hstep : s.logStep a = .ok (b, s')) : s'.Accounted queueCapacity := by
  obtain ⟨pool, hpool, rfl⟩ := logStep_eq_ok hstep
  by_cases ha : ∀ i, a ≠ .worker i
  case pos =>
    obtain ⟨hcapacity, hitems, hlength⟩ := queue_step ha hpool
    have hpopped : s.pool.poppedBy a = [] := by
      cases a with
      | worker i => exact absurd rfl (ha i)
      | _ => rfl
    have hcalled : s.pool.calledBy a = [] := by
      cases a with
      | worker i => exact absurd rfl (ha i)
      | _ => rfl
    refine ⟨?_, fun i => ?_, hcapacity.trans h.capacity_eq, ?_⟩
    · dsimp only
      rw [hpopped, List.append_nil, hitems, ← List.append_assoc, ← h.order]
    · dsimp only
      rw [hpopped, hcalled, List.append_nil, List.append_nil, inHand_step ha hpool, h.once i]
    · rw [h.capacity_eq] at hlength
      exact hlength h.length_le
  case neg =>
    rw [not_forall] at ha
    obtain ⟨i, hi⟩ := ha
    obtain rfl := not_not.mp hi
    obtain ⟨pc, pc', locked, q, hpc, hwork, rfl⟩ := worker_eq_ok hpool
    obtain ⟨htaken, hitems, hcapacity⟩ := taken_of_work hwork
    have hat := workerAt_of_getElem? hpc
    refine ⟨?_, fun j => ?_, hcapacity.trans h.capacity_eq, ?_⟩
    · dsimp only [poppedBy, acceptedBy]
      rw [hat, List.append_nil, List.map_append, List.append_assoc, List.map_map, h.order, hitems]
      simp [Function.comp_def]
    · dsimp only [poppedBy, calledBy]
      show _ = _ ++ inHand ((s.pool.workers.set i (some pc')).getD j none)
      rw [tasksOf_append, tasksOf_append, h.once j, hat]
      by_cases hij : j = i
      case pos =>
        -- it called what it had in hand, and has what it took
        subst hij
        rw [tasksOf_self, tasksOf_self, getD_set_self hpc, hat, htaken]
      case neg =>
        rw [tasksOf_ne hij, tasksOf_ne hij, getD_set_ne hij, List.append_nil, List.append_nil]
        rfl
    · have hle := h.length_le
      rw [hitems, List.length_append] at hle
      exact Nat.le_trans (Nat.le_add_left _ _) hle

/-- In every state, the tasks that were accepted are those that were popped, each by one worker
that calls it once, and then those that are queued, in order; and the queue is never longer
than its capacity. -/
theorem tasks_accounted (capacity queueCapacity hardwareConcurrency : ℕ)
    (as : List (PoolAction T)) :
    AlongStates logStep (Accounted queueCapacity)
      (start T capacity queueCapacity hardwareConcurrency) as :=
  alongStates_of_along (fun _ _ _ _ h _ hstep => h.step hstep) (fun _ h => h)
    (start_accounted capacity queueCapacity hardwareConcurrency)
    (along_of_forall_mem (P := fun _ => True) fun _ _ => trivial)

end PoolLog

end LpNet
