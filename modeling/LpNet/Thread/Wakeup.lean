import LpNet.Thread.Pool

/-!
Which notifications of a `ThreadPool` are lost.

A worker evaluates the predicate under `mutex_`, but `submit()` pushes and notifies
without it. A notification that comes after the predicate was false and before the
worker blocks wakes nobody, and the worker sleeps over the task. With two workers one
of them is always elsewhere, because only one can be between locking `mutex_` and
blocking, and `wakeups_kept_iff` says that this is what it takes.
-/

namespace LpNet.ThreadPool

open Transition

variable {T : Type} {s s' : ThreadPool T}

/-- There is a task, everybody sleeps, and nobody is about to notify. -/
structure Lost (s : ThreadPool T) : Prop where
  queued : s.q.items ≠ []
  running_eq : s.running = true
  asleep : ∀ w ∈ s.workers, w = some .blocked
  notified : s.notifying = 0

/-- A notification that wakes nobody finds no task, or a worker that is not about to block. -/
def Heard (s : ThreadPool T) : PoolAction T → Prop
  | .notifyOne none => s.q.items = [] ∨ ∃ w ∈ s.workers, w ≠ some .block
  | _ => True

/-- The worker has yet to evaluate the predicate, or is not in the loop. -/
def Awake (w : Option (Worker T)) : Prop := w ≠ some .blocked ∧ w ≠ some .block

/-- While there is a task, a notification is pending or a worker is awake. -/
def Attended (s : ThreadPool T) : Prop :=
  s.q.items ≠ [] → 0 < s.notifying ∨ ∃ w ∈ s.workers, Awake w

theorem new_attended (capacity queueCapacity hardwareConcurrency : ℕ) :
    (new T capacity queueCapacity hardwareConcurrency).Attended := fun hqueued =>
  absurd rfl hqueued

theorem Attended.not_lost (h : s.Attended) : ¬ s.Lost := by
  intro hlost
  rcases h hlost.queued with hpos | ⟨w, hw, hawake⟩
  · rw [hlost.notified] at hpos
    exact absurd hpos (Nat.lt_irrefl 0)
  · exact hawake.1 (hlost.asleep w hw)

/-- While the pool runs and there is a task, a worker that is awake does not go to sleep. -/
theorem awake_of_work {pc pc' : Worker T} {locked : Bool} {q : SafeQueue T}
    (hwork : s.work pc = .ok (pc', locked, q)) (hqueued : s.q.items ≠ [])
    (hrunning : pc = .checkFlag → s.running = true) (hawake : Awake (some pc)) :
    Awake (some pc') := by
  cases pc with
  | test =>
      cases hwork
      cases s.running <;> exact ⟨by simp, by simp⟩
  | lock =>
      rw [work] at hwork
      split at hwork
      · cases hwork
      · cases hwork
        exact ⟨by simp, by simp⟩
  | check =>
      rw [work, SafeQueue.empty, List.isEmpty_eq_false_iff.mpr hqueued] at hwork
      cases hwork
      exact ⟨by simp, by simp⟩
  | checkFlag =>
      rw [work, hrunning rfl] at hwork
      cases hwork
      exact ⟨by simp, by simp⟩
  | block => exact absurd rfl hawake.2
  | pop =>
      rw [work] at hwork
      split at hwork <;> cases hwork <;> exact ⟨by simp, by simp⟩
  | blocked => cases hwork
  | done => cases hwork
  | unlock | run =>
      cases hwork
      exact ⟨by simp, by simp⟩

theorem Threads.running_of_checkFlag (h : s.Threads) (hmem : some .checkFlag ∈ s.workers) :
    s.running = true := by
  cases hrunning : s.running with
  | true => rfl
  | false => rcases h.early hrunning _ hmem with hw | hw | hw <;> cases hw

/-- A notification that is heard leaves no task unattended, and neither does any other step. -/
theorem Attended.step {a : PoolAction T} (h : s.Attended) (hthreads : s.Threads)
    (hheard : s.Heard a) (hstep : s.poolStep a = .ok ((), s')) : s'.Attended := by
  intro hqueued
  cases a with
  | worker i =>
      obtain ⟨pc, pc', locked, q, hpc, hwork, rfl⟩ := worker_eq_ok hstep
      have hbefore : s.q.items ≠ [] := by
        rcases queue_of_work hwork with rfl | ⟨task, -, -, hitems⟩
        · exact hqueued
        · rw [hitems]
          exact List.cons_ne_nil task q.items
      refine (h hbefore).imp_right fun ⟨w, hw, hawake⟩ => ?_
      by_cases heq : w = some pc
      case neg => exact ⟨w, mem_set_of_ne hpc _ hw heq, hawake⟩
      case pos =>
        subst heq
        refine ⟨some pc', List.mem_set (List.getElem?_eq_some_iff.mp hpc).1 _, ?_⟩
        refine awake_of_work hwork hbefore (fun hflag => ?_) hawake
        exact hthreads.running_of_checkFlag (hflag ▸ List.mem_of_getElem? hpc)
  | owner =>
      rcases owner_eq_ok hstep with ⟨i, -, hnone, rfl⟩ | ⟨i, -, -, rfl⟩ | ⟨-, rfl⟩ |
        ⟨i, -, -, rfl⟩ | ⟨i, -, hdone, rfl⟩ | ⟨i, -, -, rfl⟩
      · exact .inr ⟨_, List.mem_set (List.getElem?_eq_some_iff.mp hnone).1 _, by simp, by simp⟩
      · exact h hqueued
      · refine (h hqueued).imp_right fun ⟨w, hw, hawake⟩ => ⟨wake w, List.mem_map_of_mem hw, ?_⟩
        cases w with
        | none => exact hawake
        | some pc =>
            cases pc with
            | blocked => exact ⟨by simp [wake], by simp [wake]⟩
            | _ => exact hawake
      · exact h hqueued
      · exact .inr ⟨none, List.mem_set (List.getElem?_eq_some_iff.mp hdone).1 _, by simp, by simp⟩
      · exact h hqueued
  | callStart =>
      obtain ⟨-, ⟨-, rfl⟩ | ⟨-, rfl⟩⟩ := callStart_eq_ok hstep <;> exact h hqueued
  | callStop =>
      obtain ⟨-, ⟨-, rfl⟩ | ⟨-, rfl⟩⟩ := callStop_eq_ok hstep <;> exact h hqueued
  | push task =>
      cases hstep
      exact .inl (Nat.succ_pos s.notifying)
  | notifyOne target =>
      obtain ⟨-, ⟨rfl, hnone, rfl⟩ | ⟨i, -, hi, rfl⟩⟩ := notifyOne_eq_ok hstep
      · -- nobody was blocked, so the worker that is not about to block is awake
        obtain ⟨w, hw, hne⟩ := hheard.resolve_left hqueued
        refine .inr ⟨w, hw, fun hblocked => ?_, hne⟩
        exact absurd (hnone w hw) (by rw [hblocked]; exact Bool.noConfusion)
      · exact .inr ⟨_, List.mem_set (List.getElem?_eq_some_iff.mp hi).1 _, by simp, by simp⟩

/-- With two workers a notification is heard, because only one of them is about to block. -/
theorem Threads.heard (h : s.Threads) (htwo : 2 ≤ s.workers.length) (a : PoolAction T) :
    s.Heard a := by
  cases a with
  | notifyOne target =>
      cases target with
      | some i => trivial
      | none =>
          refine .inr (Classical.by_contradiction fun hnot => ?_)
          have hall : ∀ w ∈ s.workers, holds w = true := by
            intro w hw
            have heq : w = some .block := Classical.by_contradiction fun hne => hnot ⟨w, hw, hne⟩
            rw [heq]
            rfl
          have hcount := h.exclusive
          rw [List.countP_eq_length.mpr hall] at hcount
          have hle : s.locked.toNat ≤ 1 := Bool.toNat_le s.locked
          omega
  | worker i => trivial
  | owner => trivial
  | callStart => trivial
  | callStop => trivial
  | push task => trivial

theorem length_workers_step {a : PoolAction T} (hstep : s.poolStep a = .ok ((), s')) :
    s'.workers.length = s.workers.length := by
  cases a with
  | worker i =>
      obtain ⟨pc, pc', locked, q, -, -, rfl⟩ := worker_eq_ok hstep
      exact List.length_set
  | owner =>
      rcases owner_eq_ok hstep with ⟨i, -, -, rfl⟩ | ⟨i, -, -, rfl⟩ | ⟨-, rfl⟩ |
        ⟨i, -, -, rfl⟩ | ⟨i, -, -, rfl⟩ | ⟨i, -, -, rfl⟩
      · exact List.length_set
      · rfl
      · exact List.length_map _
      · rfl
      · exact List.length_set
      · rfl
  | callStart =>
      obtain ⟨-, ⟨-, rfl⟩ | ⟨-, rfl⟩⟩ := callStart_eq_ok hstep <;> rfl
  | callStop =>
      obtain ⟨-, ⟨-, rfl⟩ | ⟨-, rfl⟩⟩ := callStop_eq_ok hstep <;> rfl
  | push task =>
      cases hstep
      rfl
  | notifyOne target =>
      obtain ⟨-, ⟨-, -, rfl⟩ | ⟨i, -, -, rfl⟩⟩ := notifyOne_eq_ok hstep
      · rfl
      · exact List.length_set

/-- The number of threads that the constructor decides on. -/
theorem capacity_eq_min (capacity hardwareConcurrency : ℕ) :
    (if capacity > hardwareConcurrency then hardwareConcurrency else capacity) =
      min capacity hardwareConcurrency := by
  split <;> omega

theorem length_new (capacity queueCapacity hardwareConcurrency : ℕ) :
    (new T capacity queueCapacity hardwareConcurrency).workers.length =
      min capacity hardwareConcurrency := by
  rw [new, List.length_replicate, capacity_eq_min]

/-- With a single thread or none, a task can be slept over. -/
theorem lost_of_le_one [Inhabited T] {capacity queueCapacity hardwareConcurrency : ℕ}
    (hone : min capacity hardwareConcurrency ≤ 1) (hqueue : queueCapacity ≠ 0) :
    ∃ s, Reaches poolStep (new T capacity queueCapacity hardwareConcurrency) s ∧ s.Lost := by
  obtain ⟨room, rfl⟩ := Nat.exists_eq_succ_of_ne_zero hqueue
  have hnew : new T capacity (room + 1) hardwareConcurrency =
      ⟨false, List.replicate (min capacity hardwareConcurrency) none, ⟨room + 1, []⟩, false,
        .spawn 0, 0⟩ := by
    rw [new, capacity_eq_min]
  rw [Nat.succ_eq_add_one, hnew]
  rcases Nat.le_one_iff_eq_zero_or_eq_one.mp hone with h | h <;> rw [h]
  · refine ⟨_, ⟨[.owner, .push default, .notifyOne none], _, rfl⟩, ?_, rfl, ?_, rfl⟩
    · exact List.cons_ne_nil default []
    · exact fun w hw => by cases hw
  · -- the predicate is false, then the task comes and nobody is blocked yet
    refine ⟨_, ⟨[.owner, .owner, .worker 0, .worker 0, .worker 0, .push default, .notifyOne none,
      .worker 0], _, rfl⟩, ?_, rfl, ?_, rfl⟩
    · exact List.cons_ne_nil default []
    · exact fun w hw => List.mem_singleton.mp hw

/-- A queue without any room stays empty. -/
theorem no_room_step {a : PoolAction T} (h : s.q = ⟨0, []⟩)
    (hstep : s.poolStep a = .ok ((), s')) : s'.q = ⟨0, []⟩ := by
  cases a with
  | worker i =>
      obtain ⟨pc, pc', locked, q, -, hwork, rfl⟩ := worker_eq_ok hstep
      rcases queue_of_work hwork with rfl | ⟨task, -, -, hitems⟩
      · exact h
      · rw [h] at hitems
        cases hitems
  | owner =>
      rcases owner_eq_ok hstep with ⟨i, -, -, rfl⟩ | ⟨i, -, -, rfl⟩ | ⟨-, rfl⟩ |
        ⟨i, -, -, rfl⟩ | ⟨i, -, -, rfl⟩ | ⟨i, -, -, rfl⟩ <;> exact h
  | callStart =>
      obtain ⟨-, ⟨-, rfl⟩ | ⟨-, rfl⟩⟩ := callStart_eq_ok hstep <;> exact h
  | callStop =>
      obtain ⟨-, ⟨-, rfl⟩ | ⟨-, rfl⟩⟩ := callStop_eq_ok hstep <;> exact h
  | push task =>
      cases hstep
      show (s.q.push task).2 = ⟨0, []⟩
      rw [h]
      rfl
  | notifyOne target =>
      obtain ⟨-, ⟨-, -, rfl⟩ | ⟨i, -, -, rfl⟩⟩ := notifyOne_eq_ok hstep <;> exact h

/-- No task is slept over while every notification is heard. They all are, whatever the threads
do, exactly with two threads or more, or with a queue that takes no task. -/
theorem wakeups_kept_iff [Inhabited T] (capacity queueCapacity hardwareConcurrency : ℕ) :
    (∀ as, Along poolStep Heard (new T capacity queueCapacity hardwareConcurrency) as →
        AlongStates poolStep (fun s => ¬ s.Lost)
          (new T capacity queueCapacity hardwareConcurrency) as) ∧
      ((∀ s, Reaches poolStep (new T capacity queueCapacity hardwareConcurrency) s → ¬ s.Lost) ↔
        2 ≤ min capacity hardwareConcurrency ∨ queueCapacity = 0) := by
  have hthreads := new_threads (T := T) capacity queueCapacity hardwareConcurrency
  have hattended := new_attended (T := T) capacity queueCapacity hardwareConcurrency
  refine ⟨fun as halong => ?_, ⟨fun hnever => ?_, ?_⟩⟩
  · have hinv : ∀ (s : ThreadPool T) (a : PoolAction T) (b : Unit) (s' : ThreadPool T),
        s.Threads ∧ s.Attended → s.Heard a → s.poolStep a = .ok (b, s') →
          s'.Threads ∧ s'.Attended := fun s a b s' h hheard hstep =>
      ⟨h.1.step hstep, h.2.step h.1 hheard hstep⟩
    exact alongStates_of_along hinv (fun s h => h.2.not_lost) ⟨hthreads, hattended⟩ halong
  · by_contra hnot
    rw [not_or, Nat.not_le, Nat.lt_succ_iff] at hnot
    obtain ⟨s, hreach, hlost⟩ := lost_of_le_one (T := T) hnot.1 hnot.2
    exact hnever s hreach hlost
  · rintro (htwo | rfl) s hreach
    · have hlength := length_new (T := T) capacity queueCapacity hardwareConcurrency
      have hinv : s.Threads ∧ s.Attended ∧ 2 ≤ s.workers.length := by
        refine hreach.inv (I := fun s => s.Threads ∧ s.Attended ∧ 2 ≤ s.workers.length)
          (fun s a b s' h hstep => ?_) ⟨hthreads, hattended, hlength ▸ htwo⟩
        have hheard := h.1.heard h.2.2 a
        exact ⟨h.1.step hstep, h.2.1.step h.1 hheard hstep, length_workers_step hstep ▸ h.2.2⟩
      exact hinv.2.1.not_lost
    · have hempty : s.q = ⟨0, []⟩ := hreach.inv (I := fun s => s.q = ⟨0, []⟩)
        (fun s a b s' h hstep => no_room_step h hstep) rfl
      exact fun hlost => hlost.queued (by rw [hempty])

/-- Two threads lose no wakeup. -/
theorem wakeups_kept_iff_two :
    ∀ s : ThreadPool Unit, Reaches poolStep (new Unit 2 1 2) s → ¬ s.Lost :=
  (wakeups_kept_iff 2 1 2).2.mpr (.inl (by decide))

/-- The only worker finds no task, the task and its notification come, the worker blocks. -/
theorem worker_sleeps_over_task :
    ∃ s : ThreadPool Unit,
      run poolStep (new Unit 1 1 1)
          [.owner, .owner, .worker 0, .worker 0, .worker 0, .push (), .notifyOne none, .worker 0] =
        .ok ([(), (), (), (), (), (), (), ()], s) ∧ s.Lost :=
  ⟨_, rfl, by decide, rfl, fun _ hw => List.mem_singleton.mp hw, rfl⟩

end LpNet.ThreadPool
