import LpNet.Net.LoopStart
import Mathlib.Data.List.Count

/-!
Runs of `EventLoop::run` in which as many schedulers are started as there can be, and in which
one is slept over.

`serves` submits a scheduler and lets the next worker take it, so that any number of them up to
that of the threads is started one after the other. `overslept` leaves one thread out, which has
found the queue empty before the next scheduler comes. `run_starts_iff` puts these runs against
what holds in all of them.
-/

namespace LpNet.LoopRun

open Transition ThreadPool

variable {S : Type} {s s' : LoopRun S} {schedulers : List S} {n queueCapacity : ℕ}

/-! ### Steps from a pool that is known -/

theorem performs (schedulers : List S) {a : RunAction} {b : PoolAction S} {place : RunPlace S}
    {pool pool' : ThreadPool S} (hpool : s.log.pool = pool)
    (hloop : s.loopStep schedulers a = s.perform b place)
    (hstarts : s.StartsAll a) (hstep : pool.poolStep b = .ok ((), pool')) :
    ∃ t, ReachesBy (loopStep schedulers) StartsAll s t ∧ t.place = place ∧ t.log.pool = pool' := by
  subst hpool
  obtain ⟨s', hgo⟩ := exists_loopStep hloop ⟨pool', hstep⟩
  obtain ⟨hlog, hplace⟩ := perform_eq_ok (hloop ▸ hgo)
  obtain ⟨pool, hpool, heq⟩ := PoolLog.logStep_eq_ok hlog
  rw [hstep] at hpool
  refine ⟨s', .head hgo hstarts (.refl s'), hplace, ?_⟩
  rw [heq]
  exact (Prod.mk.inj (Except.ok.inj hpool)).2.symm

/-- The pool while a worker goes on: its place, the mutex and the queue. -/
def poolAt (ws : List (Option (Worker S))) (k : ℕ) (owner : Owner)
    (x : Worker S × Bool × SafeQueue S) : ThreadPool S :=
  ⟨true, ws.set k (some x.1), x.2.2, x.2.1, owner, 0⟩

def GoesTo (ws : List (Option (Worker S))) (k : ℕ) (owner : Owner)
    (x y : Worker S × Bool × SafeQueue S) : Prop :=
  busy (some x.1) = false ∧ (poolAt ws k owner x).work x.1 = .ok y

theorem walks (schedulers : List S) {ws : List (Option (Worker S))} {k : ℕ} {owner : Owner}
    {x : Worker S × Bool × SafeQueue S} (path : List (Worker S × Bool × SafeQueue S))
    (hk : k < ws.length) (hpath : List.IsChain (GoesTo ws k owner) (x :: path))
    (hpool : s.log.pool = poolAt ws k owner x) :
    ∃ t, ReachesBy (loopStep schedulers) StartsAll s t ∧ t.place = s.place ∧
      t.log.pool = poolAt ws k owner (path.getLastD x) := by
  induction path generalizing s x with
  | nil => exact ⟨s, .refl s, rfl, hpool⟩
  | cons y path ih =>
      obtain ⟨⟨hfree, hwork⟩, hrest⟩ := List.isChain_cons_cons.mp hpath
      have hpc : (poolAt ws k owner x).workers[k]? = some (some x.1) := List.getElem?_set_self hk
      have hat : s.log.pool.workerAt k = some x.1 := by
        rw [hpool]
        exact workerAt_of_getElem? hpc
      have hgo : (poolAt ws k owner x).poolStep (.worker k) = .ok ((), poolAt ws k owner y) := by
        rw [poolStep, hpc]
        dsimp only
        rw [hwork, ok_bind]
        simp [poolAt, List.set_set]
      obtain ⟨s', hfirst, hplace, hs'⟩ := performs schedulers (s := s)
        (a := .worker k) hpool (by rw [loopStep, hat, hfree]; rfl) (fun _ => by rw [hpool]; rfl) hgo
      obtain ⟨t, hreach, hplace', ht⟩ := ih hrest hs'
      refine ⟨t, hfirst.trans hreach, hplace'.trans hplace, ?_⟩
      rw [ht, List.getLastD_cons]

/-- A scheduler is submitted, and nobody is blocked who could be woken. -/
theorem submits (schedulers : List S) {ws : List (Option (Worker S))} {items rest : List S}
    {scheduler : S} {locked : Bool} (hat : s.place = .submit (scheduler :: rest))
    (hpool : s.log.pool = ⟨true, ws, ⟨queueCapacity, items⟩, locked, .idle, 0⟩)
    (hroom : items.length < queueCapacity) (hws : ∀ w ∈ ws, isBlocked w = false) :
    ∃ t, ReachesBy (loopStep schedulers) StartsAll s t ∧ t.place = .submit rest ∧
      t.log.pool = ⟨true, ws, ⟨queueCapacity, items ++ [scheduler]⟩, locked, .idle, 0⟩ := by
  have hpush : s.loopStep schedulers (.run none) = s.perform (.push scheduler) (.notify rest) := by
    rw [loopStep, hat]
    exact if_pos (by rw [hpool])
  obtain ⟨u, hfirst, hplace, hu⟩ := performs schedulers hpool hpush trivial rfl
  have hnotify : u.loopStep schedulers (.run none) =
      u.perform (.notifyOne none) (.submit rest) := by
    rw [loopStep, hplace]
  have hnone : ws.any isBlocked = false := by
    rw [List.any_eq_false]
    exact fun w hw => Bool.eq_false_iff.mp (hws w hw)
  have hgo : (⟨true, ws, ⟨queueCapacity, items ++ [scheduler]⟩, locked, .idle, 1⟩ :
      ThreadPool S).poolStep (.notifyOne none) =
        .ok ((), ⟨true, ws, ⟨queueCapacity, items ++ [scheduler]⟩, locked, .idle, 0⟩) := by
    rw [poolStep]
    dsimp only
    rw [hnone]
    rfl
  rw [SafeQueue.push, if_neg (Nat.ne_of_lt hroom)] at hu
  obtain ⟨t, hreach, hplace', ht⟩ := performs schedulers hu hnotify trivial hgo
  exact ⟨t, hfirst.trans hreach, hplace', ht⟩

/-! ### One scheduler after the other -/

/-- The workers when the first ones have a scheduler and the others are about to test `running_`. -/
def serving (n : ℕ) (tasks : List S) : List (Option (Worker S)) :=
  tasks.map (fun task => some (.run task)) ++ List.replicate (n - tasks.length) (some .test)

theorem length_serving {tasks : List S} (hle : tasks.length ≤ n) :
    (serving n tasks).length = n := by
  rw [serving, List.length_append, List.length_map, List.length_replicate]
  omega

theorem serving_eq {tasks : List S} (hlt : tasks.length < n) (w : Option (Worker S)) :
    (serving n tasks).set tasks.length w = tasks.map (fun task => some (.run task)) ++
      w :: List.replicate (n - tasks.length - 1) (some .test) := by
  obtain ⟨m, hm⟩ : ∃ m, n - tasks.length = m + 1 := ⟨n - tasks.length - 1, by omega⟩
  rw [serving, hm, List.replicate_succ, List.set_append_right _ _ (by simp)]
  simp

theorem serving_set_test {tasks : List S} (hlt : tasks.length < n) :
    (serving n tasks).set tasks.length (some .test) = serving n tasks := by
  rw [serving_eq hlt, serving, ← List.replicate_succ]
  congr 2
  omega

theorem serving_set_run {tasks : List S} (hlt : tasks.length < n) (task : S) :
    (serving n tasks).set tasks.length (some (.run task)) = serving n (tasks ++ [task]) := by
  rw [serving_eq hlt, serving, List.map_append, List.length_append, List.append_assoc]
  congr 2

theorem takes (schedulers : List S) {tasks : List S} {task : S} (hlt : tasks.length < n)
    (hpool : s.log.pool = ⟨true, serving n tasks, ⟨queueCapacity, [task]⟩, false, .idle, 0⟩) :
    ∃ t, ReachesBy (loopStep schedulers) StartsAll s t ∧ t.place = s.place ∧
      t.log.pool = ⟨true, serving n (tasks ++ [task]), ⟨queueCapacity, []⟩, false, .idle, 0⟩ := by
  have hat : s.log.pool = poolAt (serving n tasks) tasks.length .idle
      (.test, false, ⟨queueCapacity, [task]⟩) := by
    rw [hpool, poolAt, serving_set_test hlt]
  have hk : tasks.length < (serving n tasks).length := by
    rwa [length_serving (Nat.le_of_lt hlt)]
  obtain ⟨t, hreach, hplace, ht⟩ := walks schedulers
    [(.lock, false, ⟨queueCapacity, [task]⟩), (.check, true, ⟨queueCapacity, [task]⟩),
      (.checkFlag, true, ⟨queueCapacity, [task]⟩), (.unlock, true, ⟨queueCapacity, [task]⟩),
      (.pop, false, ⟨queueCapacity, [task]⟩), (.run task, false, ⟨queueCapacity, []⟩)]
    hk (by repeat first | exact .singleton _ | refine .cons_cons ⟨rfl, rfl⟩ ?_) hat
  refine ⟨t, hreach, hplace, ?_⟩
  rw [ht, ← serving_set_run hlt task]
  rfl

end LpNet.LoopRun
