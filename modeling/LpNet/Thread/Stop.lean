import LpNet.Thread.Pool
import Mathlib.Order.RelClasses

/-!
Whether `stop()` of a `ThreadPool` returns.

`running_` is set to false after the threads were joined, so that the predicate of the
wait stays false for a thread that `notify_all` wakes while there is no task, and a
thread that runs a task comes back for the next one. `Stopping` says that `stop()` waits
for such a thread and is never left. Every step but a submit then takes the pool
closer to the state in which nobody can go on, as `stop_blocks_exactly` says.
-/

namespace LpNet.ThreadPool

open Transition

variable {T : Type} {s s' : ThreadPool T}

/-- `stop()` waits for a thread, the threads wait for a notification, and nobody goes on unless
a task is submitted. -/
structure Stuck (s : ThreadPool T) : Prop where
  joins : ∃ i w, s.owner = .join i ∧ s.workers[i]? = some w ∧ InLoop w
  asleep : ∀ w ∈ s.workers, InLoop w → w = some .blocked
  notified : s.notifying = 0
  still : ∀ a s', s.poolStep a = .ok ((), s') → ∃ task, a = .push task

/-- `stop()` is not called on a pool that runs and has a thread in its loop. -/
def StopsFinished (s : ThreadPool T) : PoolAction T → Prop
  | .callStop => s.running = true → ∀ w ∈ s.workers, ¬ InLoop w
  | _ => True

/-! ### Stopping a pool without threads -/

/-- Once `stop()` has begun, no thread is in its loop. -/
def Finished (s : ThreadPool T) : Prop :=
  (s.owner = .notifyAll ∨ ∃ i, s.owner = .join i) → ∀ w ∈ s.workers, ¬ InLoop w

theorem new_finished (capacity queueCapacity hardwareConcurrency : ℕ) :
    (new T capacity queueCapacity hardwareConcurrency).Finished := by
  rintro (h | ⟨i, h⟩) <;> cases h

theorem Finished.not_stuck (h : s.Finished) : ¬ s.Stuck := by
  intro hstuck
  obtain ⟨i, w, howner, hw, hloop⟩ := hstuck.joins
  exact h (.inr ⟨i, howner⟩) w (List.mem_of_getElem? hw) hloop

theorem Finished.step {a : PoolAction T} (h : s.Finished) (hstops : s.StopsFinished a)
    (hstep : s.poolStep a = .ok ((), s')) : s'.Finished := by
  cases a with
  | worker i =>
      obtain ⟨pc, pc', locked, q, hpc, hwork, rfl⟩ := worker_eq_ok hstep
      intro howner
      have hdone : pc = .done := Classical.by_contradiction fun hne =>
        h howner _ (List.mem_of_getElem? hpc) ⟨pc, rfl, hne⟩
      rw [hdone] at hwork
      cases hwork
  | owner =>
      rcases owner_eq_ok hstep with ⟨i, -, -, rfl⟩ | ⟨i, -, -, rfl⟩ | ⟨howner, rfl⟩ |
        ⟨i, howner, -, rfl⟩ | ⟨i, howner, -, rfl⟩ | ⟨i, -, -, rfl⟩
      · rintro (h | ⟨j, h⟩) <;> cases h
      · rintro (h | ⟨j, h⟩) <;> cases h
      · rintro - w hw ⟨pc, rfl, hne⟩
        obtain ⟨w, hmem, hwake⟩ := List.mem_map.mp hw
        cases w with
        | none => cases hwake
        | some pc' =>
            refine h (.inl howner) _ hmem ⟨pc', rfl, ?_⟩
            rintro rfl
            cases hwake
            exact hne rfl
      · exact fun _ => h (.inr ⟨i, howner⟩)
      · intro _ w hw
        rcases List.mem_or_eq_of_mem_set hw with hw | rfl
        · exact h (.inr ⟨i, howner⟩) w hw
        · rintro ⟨pc, hpc, -⟩
          cases hpc
      · rintro (h | ⟨j, h⟩) <;> cases h
  | callStart =>
      obtain ⟨-, ⟨-, rfl⟩ | ⟨-, rfl⟩⟩ := callStart_eq_ok hstep
      · exact h
      · rintro (h | ⟨j, h⟩) <;> cases h
  | callStop =>
      obtain ⟨-, ⟨hrunning, rfl⟩ | ⟨-, rfl⟩⟩ := callStop_eq_ok hstep
      · exact fun _ => hstops hrunning
      · exact h
  | push task =>
      cases hstep
      exact h
  | notifyOne target =>
      obtain ⟨-, ⟨-, -, rfl⟩ | ⟨i, -, hi, rfl⟩⟩ := notifyOne_eq_ok hstep
      · exact h
      · intro howner
        exact absurd ⟨_, rfl, by simp⟩ (h howner _ (List.mem_of_getElem? hi))

/-! ### Stopping a pool with a thread -/

/-- `stop()` has not come past a thread that is in its loop. -/
structure Stopping (s : ThreadPool T) : Prop where
  running_eq : s.running = true
  waits : ∃ i k w, s.owner = .join i ∧ i ≤ k ∧ s.workers[k]? = some w ∧ InLoop w

/-- No step, a submit included, leads out of `stop()`. -/
theorem Stopping.step {a : PoolAction T} (h : s.Stopping)
    (hstep : s.poolStep a = .ok ((), s')) : s'.Stopping := by
  obtain ⟨hrunning, i, k, w, howner, hik, hw, hloop⟩ := h
  have hk := (List.getElem?_eq_some_iff.mp hw).1
  cases a with
  | worker j =>
      obtain ⟨pc, pc', locked, q, hpc, hwork, rfl⟩ := worker_eq_ok hstep
      by_cases hjk : j = k
      case pos =>
        subst hjk
        refine ⟨hrunning, i, j, some pc', howner, hik, List.getElem?_set_self hk, pc', rfl, ?_⟩
        rintro rfl
        rw [(left_of_work hwork).2] at hrunning
        cases hrunning
      case neg =>
        refine ⟨hrunning, i, k, w, howner, hik, ?_, hloop⟩
        rwa [List.getElem?_set_ne hjk]
  | owner =>
      rcases owner_join_eq_ok howner hstep with ⟨hj, rfl⟩ | ⟨hj, rfl⟩ | ⟨hend, rfl⟩
      -- the thread that is passed is not the one in its loop
      · refine ⟨hrunning, i + 1, k, w, rfl, Nat.lt_of_le_of_ne hik ?_, hw, hloop⟩
        rintro rfl
        obtain ⟨pc, rfl, -⟩ := hloop
        rw [hj] at hw
        cases hw
      · have hne : i ≠ k := by
          rintro rfl
          obtain ⟨pc, rfl, hne⟩ := hloop
          rw [hj] at hw
          cases hw
          exact hne rfl
        refine ⟨hrunning, i + 1, k, w, rfl, Nat.lt_of_le_of_ne hik hne, ?_, hloop⟩
        rwa [List.getElem?_set_ne hne]
      · omega
  | callStart =>
      rw [(callStart_eq_ok hstep).1] at howner
      cases howner
  | callStop =>
      rw [(callStop_eq_ok hstep).1] at howner
      cases howner
  | push task =>
      cases hstep
      exact ⟨hrunning, i, k, w, howner, hik, hw, hloop⟩
  | notifyOne target =>
      obtain ⟨-, ⟨-, -, rfl⟩ | ⟨j, -, hj, rfl⟩⟩ := notifyOne_eq_ok hstep
      · exact ⟨hrunning, i, k, w, howner, hik, hw, hloop⟩
      · by_cases hjk : j = k
        case pos =>
          subst hjk
          exact ⟨hrunning, i, j, _, howner, hik, List.getElem?_set_self hk, _, rfl, by simp⟩
        case neg =>
          refine ⟨hrunning, i, k, w, howner, hik, ?_, hloop⟩
          rwa [List.getElem?_set_ne hjk]

/-- How far a worker is from blocking, without or with a task in the queue. -/
def rank : Bool → Worker T → ℕ
  | true, .checkFlag | false, .run _ => 8
  | true, .unlock | false, .test => 7
  | true, .pop | false, .lock => 6
  | true, .run _ | false, .check => 5
  | true, .test | false, .checkFlag => 4
  | true, .lock | false, .unlock => 3
  | true, .check | false, .pop => 2
  | _, .block => 1
  | _, .blocked | _, .done => 0

def rankAt (empty : Bool) : Option (Worker T) → ℕ
  | none => 0
  | some pc => rank empty pc

/-- How far all the workers are from blocking. -/
def ranks (empty : Bool) : List (Option (Worker T)) → ℕ
  | [] => 0
  | w :: rest => rankAt empty w + ranks empty rest

theorem ranks_set_lt {empty : Bool} {workers : List (Option (Worker T))} {i : ℕ}
    {w w' : Option (Worker T)} (hw : workers[i]? = some w)
    (hlt : rankAt empty w' < rankAt empty w) :
    ranks empty (workers.set i w') < ranks empty workers := by
  induction workers generalizing i with
  | nil => cases hw
  | cons v rest ih =>
      cases i with
      | zero =>
          cases hw
          exact Nat.add_lt_add_right hlt _
      | succ i => exact Nat.add_lt_add_left (ih hw) _

/-- The number of threads that `stop()` has yet to join. -/
def toJoin (s : ThreadPool T) : ℕ :=
  match s.owner with
  | .join i => s.workers.length - i
  | _ => 0

/-- What a step other than a submit makes smaller. -/
def distance (s : ThreadPool T) : ℕ × ℕ :=
  (s.toJoin + s.q.items.length + s.notifying, ranks s.q.empty s.workers)

/-- While the pool runs, a worker that takes no task comes closer to blocking. -/
theorem rank_of_work {pc pc' : Worker T} {locked : Bool}
    (hwork : s.work pc = .ok (pc', locked, s.q)) (hrunning : s.running = true) :
    rank s.q.empty pc' < rank s.q.empty pc := by
  cases pc with
  | test =>
      rw [work, hrunning] at hwork
      cases hwork
      cases s.q.empty <;> simp [rank]
  | lock =>
      rw [work] at hwork
      split at hwork <;> cases hwork
      cases s.q.empty <;> simp [rank]
  | check =>
      rw [work] at hwork
      cases hempty : s.q.empty <;> rw [hempty] at hwork <;> cases hwork <;> simp [rank]
  | checkFlag =>
      rw [work, hrunning] at hwork
      cases hwork
      cases s.q.empty <;> simp [rank]
  | pop =>
      cases hitems : s.q.items with
      | nil =>
          rw [work, SafeQueue.pop, hitems] at hwork
          cases hwork
          simp [SafeQueue.empty, hitems, rank]
      | cons task rest =>
          -- the queue would have become shorter
          rw [work, SafeQueue.pop, hitems] at hwork
          injection hwork with hwork
          rw [Prod.mk.injEq, Prod.mk.injEq] at hwork
          rw [← congrArg SafeQueue.items hwork.2.2] at hitems
          exact absurd hitems (List.ne_cons_self)
  | blocked => cases hwork
  | done => cases hwork
  | block | unlock | run =>
      cases hwork
      cases s.q.empty <;> simp [rank]

/-- Every step but a submit takes the pool closer to rest. -/
theorem Stopping.distance_lt {a : PoolAction T} (h : s.Stopping) (hpush : ∀ task, a ≠ .push task)
    (hstep : s.poolStep a = .ok ((), s')) :
    Prod.Lex (· < ·) (· < ·) s'.distance s.distance := by
  obtain ⟨hrunning, i, k, w, howner, hik, hw, hloop⟩ := h
  have hk := (List.getElem?_eq_some_iff.mp hw).1
  cases a with
  | worker j =>
      obtain ⟨pc, pc', locked, q, hpc, hwork, rfl⟩ := worker_eq_ok hstep
      rcases queue_of_work hwork with rfl | ⟨task, -, -, hitems⟩
      · have hlt := rank_of_work hwork hrunning
        rw [distance, distance, toJoin, toJoin, List.length_set]
        exact .right _ (ranks_set_lt hpc hlt)
      · refine .left _ _ ?_
        rw [toJoin, toJoin, List.length_set, hitems, List.length_cons]
        dsimp only
        omega
  | owner =>
      rcases owner_join_eq_ok howner hstep with ⟨hj, rfl⟩ | ⟨hj, rfl⟩ | ⟨hend, rfl⟩
      · refine .left _ _ ?_
        simp only [toJoin, howner]
        omega
      · refine .left _ _ ?_
        simp only [toJoin, howner, List.length_set]
        omega
      · omega
  | callStart =>
      rw [(callStart_eq_ok hstep).1] at howner
      cases howner
  | callStop =>
      rw [(callStop_eq_ok hstep).1] at howner
      cases howner
  | push task => exact absurd rfl (hpush task)
  | notifyOne target =>
      obtain ⟨hpos, ⟨-, -, rfl⟩ | ⟨j, -, hj, rfl⟩⟩ := notifyOne_eq_ok hstep
      · refine .left _ _ ?_
        rw [toJoin, toJoin]
        dsimp only
        omega
      · refine .left _ _ ?_
        rw [toJoin, toJoin, List.length_set]
        dsimp only
        omega

/-! ### Until nobody goes on -/

/-- A worker goes on unless it is blocked, done, or waits for the mutex. -/
theorem exists_work {pc : Worker T} (hblocked : pc ≠ .blocked) (hdone : pc ≠ .done)
    (hlock : pc = .lock → s.locked = false) : ∃ r, s.work pc = .ok r := by
  cases pc with
  | lock =>
      rw [work, hlock rfl]
      exact ⟨_, rfl⟩
  | pop =>
      rw [work]
      split <;> exact ⟨_, rfl⟩
  | blocked => exact absurd rfl hblocked
  | done => exact absurd rfl hdone
  | test | check | checkFlag | block | unlock | run => exact ⟨_, rfl⟩

theorem exists_worker {pc : Worker T} (hmem : some pc ∈ s.workers)
    (hwork : ∃ r, s.work pc = .ok r) : ∃ i s', s.poolStep (.worker i) = .ok ((), s') := by
  obtain ⟨i, hi⟩ := List.getElem?_of_mem hmem
  obtain ⟨⟨pc', locked, q⟩, hr⟩ := hwork
  refine ⟨i, { s with workers := s.workers.set i (some pc'), locked := locked, q := q }, ?_⟩
  rw [poolStep, hi]
  dsimp only
  rw [hr, ok_bind]

theorem Threads.exists_worker (h : s.Threads) {w : Option (Worker T)} (hw : w ∈ s.workers)
    (hloop : InLoop w) (hne : w ≠ some .blocked) :
    ∃ i s', s.poolStep (.worker i) = .ok ((), s') := by
  obtain ⟨pc, rfl, hdone⟩ := hloop
  by_cases hlock : pc = .lock ∧ s.locked = true
  case neg =>
    refine ThreadPool.exists_worker hw (exists_work (fun heq => hne (heq ▸ rfl)) hdone ?_)
    exact fun heq => Bool.eq_false_iff.mpr fun hlocked => hlock ⟨heq, hlocked⟩
  case pos =>
    have hcount := h.exclusive
    rw [hlock.2] at hcount
    obtain ⟨holder, hmem, hholds⟩ : ∃ holder ∈ s.workers, holds holder = true := by
      rw [← List.countP_pos_iff, hcount]
      exact Nat.one_pos
    cases holder with
    | none => cases hholds
    | some pc =>
        refine ThreadPool.exists_worker hmem (exists_work ?_ ?_ ?_)
        all_goals
          rintro rfl
          cases hholds

theorem exists_notifyOne (hpos : 0 < s.notifying) :
    ∃ target s', s.poolStep (.notifyOne target) = .ok ((), s') := by
  by_cases hblocked : ∃ w ∈ s.workers, w = some .blocked
  case pos =>
    obtain ⟨w, hw, rfl⟩ := hblocked
    obtain ⟨i, hi⟩ := List.getElem?_of_mem hw
    refine ⟨some i, { s with workers := s.workers.set i (some .lock),
                             notifying := s.notifying - 1 }, ?_⟩
    rw [poolStep, if_neg (Nat.pos_iff_ne_zero.mp hpos), List.getD_eq_getElem?_getD, hi]
    rfl
  case neg =>
    refine ⟨none, { s with notifying := s.notifying - 1 }, ?_⟩
    have hnone : s.workers.any isBlocked = false := by
      rw [List.any_eq_false]
      exact fun w hw hbl => hblocked ⟨w, hw, isBlocked_iff.mp hbl⟩
    rw [poolStep, if_neg (Nat.pos_iff_ne_zero.mp hpos), hnone]
    rfl

/-- `stop()` goes on past a thread that is not in its loop. -/
theorem exists_owner {i : ℕ} {w : Option (Worker T)} (howner : s.owner = .join i)
    (hw : s.workers[i]? = some w) (hloop : ¬ InLoop w) :
    ∃ s', s.poolStep .owner = .ok ((), s') := by
  cases w with
  | none =>
      refine ⟨{ s with owner := .join (i + 1) }, ?_⟩
      rw [poolStep, own, howner]
      dsimp only
      rw [hw]
      rfl
  | some pc =>
      have hdone : pc = .done := Classical.by_contradiction fun hne => hloop ⟨pc, rfl, hne⟩
      refine ⟨{ s with workers := s.workers.set i none, owner := .join (i + 1) }, ?_⟩
      rw [poolStep, own, howner]
      dsimp only
      rw [hw, hdone]
      rfl

/-- When `stop()` waits for a thread and everybody else sleeps, only a submit is possible. -/
theorem stuck_of_asleep (hjoins : ∃ i w, s.owner = .join i ∧ s.workers[i]? = some w ∧ InLoop w)
    (hasleep : ∀ w ∈ s.workers, InLoop w → w = some .blocked) (hnotified : s.notifying = 0) :
    s.Stuck := by
  refine ⟨hjoins, hasleep, hnotified, fun a s' hstep => ?_⟩
  obtain ⟨i, w, howner, hw, pc, rfl, hne⟩ := hjoins
  cases a with
  | worker j =>
      obtain ⟨pc, pc', locked, q, hpc, hwork, -⟩ := worker_eq_ok hstep
      by_cases hdone : pc = .done
      case pos =>
        rw [hdone] at hwork
        cases hwork
      case neg =>
        cases hasleep _ (List.mem_of_getElem? hpc) ⟨pc, rfl, hdone⟩
        cases hwork
  | owner =>
      rcases owner_join_eq_ok howner hstep with ⟨hj, -⟩ | ⟨hj, -⟩ | ⟨hend, -⟩
      · rw [hw] at hj
        cases hj
      · rw [hw] at hj
        cases hj
        exact absurd rfl hne
      · rw [List.getElem?_eq_none hend] at hw
        cases hw
  | callStart =>
      rw [(callStart_eq_ok hstep).1] at howner
      cases howner
  | callStop =>
      rw [(callStop_eq_ok hstep).1] at howner
      cases howner
  | push task => exact ⟨task, rfl⟩
  | notifyOne target =>
      have hpos := (notifyOne_eq_ok hstep).1
      omega

/-- Until it is stuck, somebody goes on without a further submit. -/
theorem Stopping.exists_step (h : s.Stopping) (hthreads : s.Threads) (hstuck : ¬ s.Stuck) :
    ∃ a s', (∀ task, a ≠ .push task) ∧ s.poolStep a = .ok ((), s') := by
  obtain ⟨hrunning, i, k, w, howner, hik, hw, hloop⟩ := h
  rcases Nat.eq_zero_or_pos s.notifying with hzero | hpos
  case inr =>
    obtain ⟨target, s', hstep⟩ := exists_notifyOne hpos
    exact ⟨_, s', by simp, hstep⟩
  by_cases hasleep : ∀ w ∈ s.workers, InLoop w → w = some .blocked
  case neg =>
    obtain ⟨w, hawake⟩ := not_forall.mp hasleep
    rw [Classical.not_imp, Classical.not_imp] at hawake
    obtain ⟨j, s', hstep⟩ := hthreads.exists_worker hawake.1 hawake.2.1 hawake.2.2
    exact ⟨_, s', by simp, hstep⟩
  case pos =>
    have hi : i < s.workers.length := Nat.lt_of_le_of_lt hik (List.getElem?_eq_some_iff.mp hw).1
    have hwi : s.workers[i]? = some s.workers[i] := List.getElem?_eq_getElem hi
    have hpassed : ¬ InLoop s.workers[i] := fun hin =>
      hstuck (stuck_of_asleep ⟨i, _, howner, hwi, hin⟩ hasleep hzero)
    obtain ⟨s', hstep⟩ := exists_owner howner hwi hpassed
    exact ⟨_, s', by simp, hstep⟩

theorem Stopping.reaches_stuck (h : s.Stopping) (hthreads : s.Threads) :
    ∃ t, Reaches poolStep s t ∧ t.Stuck := by
  have hlt : WellFounded fun a b : ℕ => a < b := wellFounded_lt
  have hwf := hlt.prod_lex hlt
  have hprogress : ∀ s : ThreadPool T, s.Stopping ∧ s.Threads → ¬ s.Stuck →
      ∃ a b s', s.poolStep a = .ok (b, s') ∧ (s'.Stopping ∧ s'.Threads) ∧
        Prod.Lex (· < ·) (· < ·) s'.distance s.distance := by
    rintro s ⟨hstopping, hthreads⟩ hnot
    obtain ⟨a, s', hpush, hstep⟩ := hstopping.exists_step hthreads hnot
    exact ⟨a, (), s', hstep, ⟨hstopping.step hstep, hthreads.step hstep⟩,
      hstopping.distance_lt hpush hstep⟩
  obtain ⟨t, hreach, -, hstuck⟩ := Reaches.goal hwf hprogress ⟨h, hthreads⟩
  exact ⟨t, hreach, hstuck⟩

/-- `stop()` goes to wait for its threads. -/
theorem reaches_stopping (hidle : s.owner = .idle) (hrunning : s.running = true)
    {w : Option (Worker T)} (hw : w ∈ s.workers) (hloop : InLoop w) :
    ∃ t, Reaches poolStep s t ∧ t.Stopping := by
  obtain ⟨k, hk⟩ := List.getElem?_of_mem hw
  obtain ⟨pc, rfl, hdone⟩ := hloop
  have hcall : s.poolStep .callStop = .ok ((), { s with owner := .notifyAll }) := by
    rw [poolStep, hidle, hrunning]
    rfl
  refine ⟨{ s with workers := s.workers.map wake, owner := .join 0 },
    .head hcall (.single (a := .owner) rfl), hrunning, 0, k, wake (some pc), rfl, Nat.zero_le k, ?_⟩
  refine ⟨by rw [List.getElem?_map, hk]; rfl, ?_⟩
  cases pc with
  | blocked => exact ⟨.lock, rfl, by simp⟩
  | _ => exact ⟨_, rfl, hdone⟩

/-- While `stop()` is only called when no thread is in its loop, no state is stuck. Whenever it
is called otherwise, a stuck state can follow. -/
theorem stop_blocks_exactly (capacity queueCapacity hardwareConcurrency : ℕ) :
    (∀ as, Along poolStep StopsFinished (new T capacity queueCapacity hardwareConcurrency) as →
        AlongStates poolStep (fun s => ¬ s.Stuck)
          (new T capacity queueCapacity hardwareConcurrency) as) ∧
      ∀ s, Reaches poolStep (new T capacity queueCapacity hardwareConcurrency) s →
        s.owner = .idle → ¬ s.StopsFinished .callStop → ∃ t, Reaches poolStep s t ∧ t.Stuck := by
  refine ⟨fun as halong => ?_, fun s hreach hidle hstops => ?_⟩
  · exact alongStates_of_along (fun _ _ _ _ h hstops hstep => h.step hstops hstep)
      (fun _ h => h.not_stuck) (new_finished capacity queueCapacity hardwareConcurrency) halong
  · have hthreads : s.Threads := hreach.inv (fun _ _ _ _ h hstep => h.step hstep)
      (new_threads capacity queueCapacity hardwareConcurrency)
    rw [StopsFinished, Classical.not_imp, not_forall] at hstops
    obtain ⟨hrunning, w, hw⟩ := hstops
    rw [Classical.not_imp, not_not] at hw
    obtain ⟨t, hst, hstopping⟩ := reaches_stopping hidle hrunning hw.1 hw.2
    have hthreads' : t.Threads := hst.inv (fun _ _ _ _ h hstep => h.step hstep) hthreads
    obtain ⟨u, htu, hstuck⟩ := hstopping.reaches_stuck hthreads'
    exact ⟨u, hst.trans htu, hstuck⟩

/-- A pool of one thread, which has just started, and is stopped. -/
theorem stop_blocks_exactly_started :
    ∃ t : ThreadPool Unit,
      Reaches poolStep ⟨true, [some .test], ⟨1, []⟩, false, .idle, 0⟩ t ∧ t.Stuck :=
  (stop_blocks_exactly 1 1 1).2 _ ⟨[.owner, .owner], _, rfl⟩ rfl fun h =>
    h rfl _ (List.mem_singleton.mpr rfl) ⟨.test, rfl, by simp⟩

/-- The only worker is blocked when `stop()` is called, and blocks again when it is woken. -/
theorem stop_waits_for_sleeper :
    ∃ s : ThreadPool Unit,
      run poolStep (new Unit 1 1 1)
          [.owner, .owner, .worker 0, .worker 0, .worker 0, .worker 0, .callStop, .owner,
            .worker 0, .worker 0, .worker 0] =
        .ok ([(), (), (), (), (), (), (), (), (), (), ()], s) ∧ s.Stuck := by
  refine ⟨_, rfl, stuck_of_asleep ⟨0, some .blocked, rfl, rfl, .blocked, rfl, by simp⟩ ?_ rfl⟩
  exact fun w hw _ => List.mem_singleton.mp hw

end LpNet.ThreadPool
