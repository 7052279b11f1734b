import LpNet.Thread.Pool

/-!
Which threads of a `ThreadPool` are left when it has started.

`running_` is set after all threads were created, and a thread that tests it before
that is gone. `workers_kept_iff` says that this is the only way to lose one, for the
constructor as well as for `start()`.
-/

namespace LpNet.ThreadPool

open Transition

variable {T : Type} {s s' : ThreadPool T}

/-- No worker tests `running_` while it is false. -/
def TestsRunning (s : ThreadPool T) : PoolAction T → Prop
  | .worker i => s.workers[i]? = some (some .test) → s.running = true
  | _ => True

/-- Whenever the owner is about to create the first thread there is none. -/
theorem Threads.eq_none (h : s.Threads) (howner : s.owner = .spawn 0) :
    ∀ w ∈ s.workers, w = none := by
  intro w hw
  obtain ⟨j, hj⟩ := List.getElem?_of_mem hw
  rw [← Option.not_isSome_iff_eq_none, h.present j w hj]
  simp [hasThread, howner]

/-- The owner is in the constructor or in `start()`, or has returned from it. -/
def Starts (s : ThreadPool T) : Prop :=
  (∃ i, s.owner = .spawn i) ∨ s.owner = .idle ∧ s.running = true

theorem Starts.step {a : PoolAction T} (h : s.Starts) (ha : a ≠ .callStop)
    (hstep : s.poolStep a = .ok ((), s')) : s'.Starts := by
  cases a with
  | worker i =>
      obtain ⟨pc, pc', locked, q, hpc, hwork, rfl⟩ := worker_eq_ok hstep
      exact h
  | owner =>
      rcases h with ⟨i, howner⟩ | ⟨howner, -⟩
      · rcases owner_eq_ok hstep with ⟨j, -, -, rfl⟩ | ⟨j, -, -, rfl⟩ | ⟨hown, -⟩ |
          ⟨j, hown, -⟩ | ⟨j, hown, -⟩ | ⟨j, hown, -⟩
        · exact .inl ⟨j + 1, rfl⟩
        · exact .inr ⟨rfl, rfl⟩
        all_goals
          rw [howner] at hown
          cases hown
      · exact absurd howner (owner_ne_idle hstep)
  | callStart =>
      obtain ⟨-, ⟨-, rfl⟩ | ⟨-, rfl⟩⟩ := callStart_eq_ok hstep
      · exact h
      · exact .inl ⟨0, rfl⟩
  | callStop => exact absurd rfl ha
  | push task =>
      cases hstep
      exact h
  | notifyOne target =>
      obtain ⟨-, ⟨-, -, rfl⟩ | ⟨i, -, -, rfl⟩⟩ := notifyOne_eq_ok hstep
      · exact h
      · exact h

def Left (s : ThreadPool T) : Prop := some .done ∈ s.workers

/-- While the pool starts and runs, a worker that has left stays where it is. -/
theorem Left.step {a : PoolAction T} (h : s.Left) (hstarts : s.Starts) (ha : a ≠ .callStop)
    (hstep : s.poolStep a = .ok ((), s')) : s'.Left := by
  cases a with
  | worker i =>
      obtain ⟨pc, pc', locked, q, hpc, hwork, rfl⟩ := worker_eq_ok hstep
      refine mem_set_of_ne hpc _ h ?_
      rintro heq
      cases heq
      cases hwork
  | owner =>
      rcases owner_eq_ok hstep with ⟨j, -, hnone, rfl⟩ | ⟨j, -, -, rfl⟩ | ⟨hown, -⟩ |
        ⟨j, hown, -⟩ | ⟨j, hown, -⟩ | ⟨j, hown, -⟩
      · exact mem_set_of_ne hnone _ h (Option.some_ne_none _)
      · exact h
      all_goals
        rcases hstarts with ⟨i, howner⟩ | ⟨howner, -⟩ <;> rw [howner] at hown <;> cases hown
  | callStart =>
      obtain ⟨-, ⟨-, rfl⟩ | ⟨-, rfl⟩⟩ := callStart_eq_ok hstep
      · exact h
      · exact h
  | callStop => exact absurd rfl ha
  | push task =>
      cases hstep
      exact h
  | notifyOne target =>
      obtain ⟨-, ⟨-, -, rfl⟩ | ⟨i, -, hi, rfl⟩⟩ := notifyOne_eq_ok hstep
      · exact h
      · exact mem_set_of_ne hi _ h (by simp)

/-- No other step makes a worker leave than a test of `running_` while it is false. -/
theorem not_left_step {a : PoolAction T} (h : ¬ s.Left) (htests : s.TestsRunning a)
    (hstep : s.poolStep a = .ok ((), s')) : ¬ s'.Left := by
  intro hleft
  cases a with
  | worker i =>
      obtain ⟨pc, pc', locked, q, hpc, hwork, rfl⟩ := worker_eq_ok hstep
      rcases List.mem_or_eq_of_mem_set hleft with hmem | heq
      · exact h hmem
      · cases heq
        obtain ⟨rfl, hrunning⟩ := left_of_work hwork
        rw [htests hpc] at hrunning
        cases hrunning
  | owner =>
      rcases owner_eq_ok hstep with ⟨j, -, -, rfl⟩ | ⟨j, -, -, rfl⟩ | ⟨-, rfl⟩ |
        ⟨j, -, -, rfl⟩ | ⟨j, -, -, rfl⟩ | ⟨j, -, -, rfl⟩
      · rcases List.mem_or_eq_of_mem_set hleft with hmem | heq
        · exact h hmem
        · cases heq
      · exact h hleft
      · obtain ⟨w, hw, hwake⟩ := List.mem_map.mp hleft
        cases w with
        | none => cases hwake
        | some pc =>
            cases pc <;> cases hwake
            exact h hw
      · exact h hleft
      · rcases List.mem_or_eq_of_mem_set hleft with hmem | heq
        · exact h hmem
        · cases heq
      · exact h hleft
  | callStart =>
      obtain ⟨-, ⟨-, rfl⟩ | ⟨-, rfl⟩⟩ := callStart_eq_ok hstep <;> exact h hleft
  | callStop =>
      obtain ⟨-, ⟨-, rfl⟩ | ⟨-, rfl⟩⟩ := callStop_eq_ok hstep <;> exact h hleft
  | push task =>
      cases hstep
      exact h hleft
  | notifyOne target =>
      obtain ⟨-, ⟨-, -, rfl⟩ | ⟨i, -, hi, rfl⟩⟩ := notifyOne_eq_ok hstep
      · exact h hleft
      · rcases List.mem_or_eq_of_mem_set hleft with hmem | heq
        · exact h hmem
        · cases heq

/-- A worker that tests `running_` while it is false leaves. -/
theorem left_of_not_testsRunning {a : PoolAction T} (htests : ¬ s.TestsRunning a)
    (hstep : s.poolStep a = .ok ((), s')) : s'.Left := by
  cases a with
  | worker i =>
      rw [TestsRunning, Classical.not_imp, Bool.not_eq_true] at htests
      obtain ⟨pc, pc', locked, q, hpc, hwork, rfl⟩ := worker_eq_ok hstep
      rw [htests.1] at hpc
      cases hpc
      rw [work, htests.2] at hwork
      cases hwork
      exact List.mem_set (List.getElem?_eq_some_iff.mp htests.1).1 _
  | owner => exact absurd trivial htests
  | callStart => exact absurd trivial htests
  | callStop => exact absurd trivial htests
  | push task => exact absurd trivial htests
  | notifyOne target => exact absurd trivial htests

/-- When the constructor or `start()` has returned and `stop()` was not called, all threads are
in their loops exactly when none of them tested `running_` while it was false. -/
theorem workers_kept_iff (capacity queueCapacity hardwareConcurrency : ℕ) (s₀ s : ThreadPool T)
    (hreach : Reaches poolStep (new T capacity queueCapacity hardwareConcurrency) s₀)
    (hspawn : s₀.owner = .spawn 0) (as : List (PoolAction T)) (hstop : ∀ a ∈ as, a ≠ .callStop)
    (answers : List Unit) (hrun : run poolStep s₀ as = .ok (answers, s)) (hidle : s.owner = .idle) :
    (∀ w ∈ s.workers, InLoop w) ↔ Along poolStep TestsRunning s₀ as := by
  have hthreads₀ : s₀.Threads := hreach.inv (fun _ _ _ _ h hstep => h.step hstep)
    (new_threads capacity queueCapacity hardwareConcurrency)
  have hstops : Along poolStep (fun _ a => a ≠ .callStop) s₀ as := along_of_forall_mem hstop
  have hstarts₀ : s₀.Starts := .inl ⟨0, hspawn⟩
  have hends : s.Threads ∧ s.Starts := inv_of_run (I := fun s => s.Threads ∧ s.Starts)
    (fun _ _ _ _ h ha hstep => ⟨h.1.step hstep, h.2.step ha hstep⟩) ⟨hthreads₀, hstarts₀⟩ hstops
    hrun
  have hleft : ¬ s.Left ↔ Along poolStep TestsRunning s₀ as :=
    holds_iff_along (E := fun s => s.Starts ∧ ¬ s.Left) (L := fun s => s.Starts ∧ s.Left)
      (Q := fun s => ¬ s.Left)
      (fun _ _ _ _ h ha htests hstep => ⟨h.1.step ha hstep, not_left_step h.2 htests hstep⟩)
      (fun _ _ _ _ h ha htests hstep => ⟨h.1.step ha hstep, left_of_not_testsRunning htests hstep⟩)
      (fun _ _ _ _ h ha hstep => ⟨h.1.step ha hstep, h.2.step h.1 ha hstep⟩)
      (fun _ h => h.2) (fun _ h hnot => hnot h.2)
      ⟨hstarts₀, fun hmem => by cases hthreads₀.eq_none hspawn _ hmem⟩ hstops hrun
  rw [← hleft]
  constructor
  · intro hall hmem
    obtain ⟨pc, heq, hne⟩ := hall _ hmem
    cases heq
    exact hne rfl
  · intro hnot w hw
    -- the pool is running, so that there is a thread in every place
    obtain ⟨j, hj⟩ := List.getElem?_of_mem hw
    have hrunning : s.running = true := by
      rcases hends.2 with ⟨i, howner⟩ | ⟨-, hrunning⟩
      · rw [hidle] at howner
        cases howner
      · exact hrunning
    have hsome := hends.1.present j w hj
    rw [hasThread, hidle] at hsome
    obtain ⟨pc, rfl⟩ := Option.isSome_iff_exists.mp (hsome.trans hrunning)
    refine ⟨pc, rfl, ?_⟩
    rintro rfl
    exact hnot hw

/-- Two threads are created, and test `running_` after it is set. -/
theorem workers_kept_iff_two :
    ∃ s : ThreadPool Unit,
      run poolStep (new Unit 2 1 2) [.owner, .owner, .owner, .worker 0, .worker 1] =
          .ok ([(), (), (), (), ()], s) ∧
        ((∀ w ∈ s.workers, InLoop w) ↔
          Along poolStep TestsRunning (new Unit 2 1 2)
            [.owner, .owner, .owner, .worker 0, .worker 1]) :=
  ⟨_, rfl, workers_kept_iff 2 1 2 (new Unit 2 1 2) _ (.refl _) rfl
    [.owner, .owner, .owner, .worker 0, .worker 1] (by decide) _ rfl rfl⟩

/-- The only thread tests `running_` before the constructor sets it. -/
theorem pool_starts_empty :
    ∃ s : ThreadPool Unit,
      run poolStep (new Unit 1 1 1) [.owner, .worker 0, .owner] = .ok ([(), (), ()], s) ∧
        s.owner = .idle ∧ ¬ ∀ w ∈ s.workers, InLoop w := by
  refine ⟨_, rfl, rfl, fun hall => ?_⟩
  obtain ⟨pc, heq, hne⟩ := hall (some .done) (List.mem_singleton.mpr rfl)
  cases heq
  exact hne rfl

end LpNet.ThreadPool
