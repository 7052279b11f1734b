import LpNet.Lib.Transition
import Mathlib.Data.List.Perm.Basic

/-!
The class `ThreadPool`, and the `SafeQueue` that holds its tasks.

A step is what one thread does without being interrupted: a worker between two points of
`work()` where another thread may come in, the thread that constructs, starts and stops
the pool, and a thread that submits a task, which pushes it first and notifies one
worker later. A step that has to wait is not possible, which is the fault `blocked`.
Waiting on the condition is `while (!pred()) wait()`: a worker holds `mutex_` while it
evaluates the predicate, gives it up in the same step in which it blocks, and evaluates
the predicate again after a notification.

`Threads` is what holds in every reachable state: which threads there are while the
pool is started and stopped, and that `mutex_` is held by the one worker that is
between locking it and blocking or going on.
-/

namespace LpNet

open Transition

structure SafeQueue (T : Type) where
  capacity : ℕ
  items : List T
  deriving DecidableEq, Repr

namespace SafeQueue

variable {T : Type}

def push (q : SafeQueue T) (x : T) : Bool × SafeQueue T :=
  if q.items.length = q.capacity then (false, q)
  else (true, { q with items := q.items ++ [x] })

/-- `pop(x)`. Answers what is stored in `x`, or `none` for false. -/
def pop (q : SafeQueue T) : Option T × SafeQueue T :=
  match q.items with
  | [] => (none, q)
  | x :: rest => (some x, { q with items := rest })

def empty (q : SafeQueue T) : Bool := q.items.isEmpty

end SafeQueue

inductive Worker (T : Type)
  /-- Before the test of `running_`. -/
  | test
  /-- Before `mutex_` is locked, for the first time or after a notification. -/
  | lock
  /-- Before `!q_.empty()` in the predicate. -/
  | check
  /-- Before `running_` in the predicate. -/
  | checkFlag
  /-- After a predicate that is false. -/
  | block
  /-- In `cond_.wait`. -/
  | blocked
  /-- After a predicate that is true. -/
  | unlock
  /-- Before `q_.pop(task)`. -/
  | pop
  | run (task : T)
  /-- After the loop. -/
  | done
  deriving DecidableEq, Repr

/-- Where the thread that owns the pool is. -/
inductive Owner
  | idle
  /-- In the loop of the constructor or of `start()`, before the thread `i`. -/
  | spawn (i : ℕ)
  /-- In `stop()`, after the test of `running_`. -/
  | notifyAll
  /-- In the loop of `stop()`, before the thread `i`. -/
  | join (i : ℕ)
  deriving DecidableEq, Repr

inductive PoolFault
  | blocked
  /-- A joinable thread is assigned to, which calls `std::terminate`. -/
  | terminated
  deriving DecidableEq, Repr

structure ThreadPool (T : Type) where
  running : Bool
  /-- `threads_`, with the place of each thread there is. -/
  workers : List (Option (Worker T))
  q : SafeQueue T
  /-- Whether `mutex_` is locked. -/
  locked : Bool
  owner : Owner
  /-- The number of submits that have pushed and are to notify. -/
  notifying : ℕ
  deriving DecidableEq, Repr

inductive PoolAction (T : Type)
  | worker (i : ℕ)
  | owner
  | callStart
  | callStop
  /-- A submit pushes its task. -/
  | push (task : T)
  /-- A submit notifies, and wakes a worker if one is blocked. -/
  | notifyOne (i : Option ℕ)
  deriving DecidableEq, Repr

namespace ThreadPool

variable {T : Type}

def new (T : Type) (capacity queueCapacity hardwareConcurrency : ℕ) : ThreadPool T where
  running := false
  workers := List.replicate
    (if capacity > hardwareConcurrency then hardwareConcurrency else capacity) none
  q := ⟨queueCapacity, []⟩
  locked := false
  owner := .spawn 0
  notifying := 0

/-- What a worker does next in `work()`: its new place, the mutex and the queue. -/
def work (s : ThreadPool T) : Worker T → Except PoolFault (Worker T × Bool × SafeQueue T)
  | .test => .ok (if s.running then .lock else .done, s.locked, s.q)
  | .lock => if s.locked then .error .blocked else .ok (.check, true, s.q)
  | .check => .ok (if s.q.empty then .block else .checkFlag, s.locked, s.q)
  | .checkFlag => .ok (if s.running then .unlock else .block, s.locked, s.q)
  | .block => .ok (.blocked, false, s.q)
  | .blocked => .error .blocked
  | .unlock => .ok (.pop, false, s.q)
  | .pop =>
      match s.q.pop with
      | (some task, q) => .ok (.run task, s.locked, q)
      | (none, q) => .ok (.test, s.locked, q)
  | .run _ => .ok (.test, s.locked, s.q)
  | .done => .error .blocked

def isBlocked : Option (Worker T) → Bool
  | some .blocked => true
  | _ => false

theorem isBlocked_iff {w : Option (Worker T)} : isBlocked w = true ↔ w = some .blocked := by
  cases w with
  | none => simp [isBlocked]
  | some pc => cases pc <;> simp [isBlocked]

/-- A notification. -/
def wake : Option (Worker T) → Option (Worker T)
  | some .blocked => some .lock
  | w => w

/-- What the owner does next in the constructor, `start()` or `stop()`. -/
def own (s : ThreadPool T) : Except PoolFault (ThreadPool T) :=
  match s.owner with
  | .idle => .error .blocked
  | .spawn i =>
      match s.workers[i]? with
      | some none => .ok { s with workers := s.workers.set i (some .test), owner := .spawn (i + 1) }
      | some (some _) => .error .terminated
      | none => .ok { s with running := true, owner := .idle }
  | .notifyAll => .ok { s with workers := s.workers.map wake, owner := .join 0 }
  | .join i =>
      match s.workers[i]? with
      | some none => .ok { s with owner := .join (i + 1) }
      | some (some .done) =>
          .ok { s with workers := s.workers.set i none, owner := .join (i + 1) }
      | some (some _) => .error .blocked
      | none => .ok { s with running := false, owner := .idle }

def poolStep (s : ThreadPool T) : PoolAction T → Except PoolFault (Unit × ThreadPool T)
  | .worker i =>
      match s.workers[i]? with
      | some (some pc) => do
          let (pc, locked, q) ← s.work pc
          .ok ((), { s with workers := s.workers.set i (some pc), locked := locked, q := q })
      | _ => .error .blocked
  | .owner => do
      let s ← s.own
      .ok ((), s)
  | .callStart =>
      if s.owner ≠ .idle then .error .blocked
      else if s.running then .ok ((), s)
      else .ok ((), { s with owner := .spawn 0 })
  | .callStop =>
      if s.owner ≠ .idle then .error .blocked
      else if s.running then .ok ((), { s with owner := .notifyAll })
      else .ok ((), s)
  | .push task => .ok ((), { s with q := (s.q.push task).2, notifying := s.notifying + 1 })
  | .notifyOne target =>
      if s.notifying = 0 then .error .blocked
      else
        match target with
        | none =>
            if s.workers.any isBlocked then .error .blocked
            else .ok ((), { s with notifying := s.notifying - 1 })
        | some i =>
            if isBlocked (s.workers.getD i none) then
              .ok ((), { s with workers := s.workers.set i (some .lock),
                                notifying := s.notifying - 1 })
            else .error .blocked

/-! ### What a step can do -/

variable {s s' : ThreadPool T}

theorem perm_cons_of_getElem? {α : Type} {l : List α} {i : ℕ} {a : α} (h : l[i]? = some a) :
    ∃ rest, l.Perm (a :: rest) ∧ ∀ b, (l.set i b).Perm (b :: rest) := by
  obtain ⟨hi, rfl⟩ := List.getElem?_eq_some_iff.mp h
  exact ⟨l.eraseIdx i, (List.getElem_cons_eraseIdx_perm hi).symm,
    fun b => List.set_perm_cons_eraseIdx hi b⟩

theorem mem_set_of_ne {α : Type} {l : List α} {i : ℕ} {a w : α} (h : l[i]? = some a) (b : α)
    (hw : w ∈ l) (hne : w ≠ a) : w ∈ l.set i b := by
  obtain ⟨rest, hperm, hset⟩ := perm_cons_of_getElem? h
  refine (hset b).mem_iff.mpr (List.mem_cons_of_mem b ?_)
  exact (List.mem_cons.mp (hperm.mem_iff.mp hw)).resolve_left hne

theorem worker_eq_ok {i : ℕ} (h : s.poolStep (.worker i) = .ok ((), s')) :
    ∃ pc pc' locked q, s.workers[i]? = some (some pc) ∧ s.work pc = .ok (pc', locked, q) ∧
      s' = { s with workers := s.workers.set i (some pc'), locked := locked, q := q } := by
  rw [poolStep] at h
  split at h
  case h_1 pc hpc =>
    rw [bind_eq_ok] at h
    obtain ⟨⟨pc', locked, q⟩, hwork, h⟩ := h
    cases h
    exact ⟨pc, pc', locked, q, hpc, hwork, rfl⟩
  case h_2 => cases h

theorem notifyOne_eq_ok {target : Option ℕ} (h : s.poolStep (.notifyOne target) = .ok ((), s')) :
    0 < s.notifying ∧
      ((target = none ∧ (∀ w ∈ s.workers, isBlocked w = false) ∧
          s' = { s with notifying := s.notifying - 1 }) ∨
        ∃ i, target = some i ∧ s.workers[i]? = some (some .blocked) ∧
          s' = { s with workers := s.workers.set i (some .lock),
                        notifying := s.notifying - 1 }) := by
  cases target with
  | none =>
      rw [poolStep] at h
      split at h
      case isTrue => cases h
      case isFalse hpos =>
        split at h
        case isTrue => cases h
        case isFalse hnone =>
          cases h
          refine ⟨Nat.pos_of_ne_zero hpos, .inl ⟨rfl, fun w hw => ?_, rfl⟩⟩
          rw [List.any_eq_true, not_exists] at hnone
          exact Bool.eq_false_iff.mpr fun hblocked => hnone w ⟨hw, hblocked⟩
  | some i =>
      rw [poolStep] at h
      split at h
      case isTrue => cases h
      case isFalse hpos =>
        split at h
        case isTrue hblocked =>
          cases h
          refine ⟨Nat.pos_of_ne_zero hpos, .inr ⟨i, rfl, ?_, rfl⟩⟩
          rw [List.getD_eq_getElem?_getD] at hblocked
          cases hw : s.workers[i]? with
          | none =>
              rw [hw] at hblocked
              cases hblocked
          | some w =>
              rw [hw, Option.getD_some] at hblocked
              rw [isBlocked_iff.mp hblocked]
        case isFalse => cases h

theorem call_eq_ok {a b : ThreadPool T}
    (h : (if s.owner ≠ .idle then .error .blocked
      else if s.running then .ok ((), a) else .ok ((), b) :
        Except PoolFault (Unit × ThreadPool T)) = .ok ((), s')) :
    s.owner = .idle ∧ (s.running = true ∧ s' = a ∨ s.running = false ∧ s' = b) := by
  split at h
  case isTrue => cases h
  case isFalse hidle =>
    refine ⟨not_not.mp hidle, ?_⟩
    split at h
    case isTrue hrunning =>
      cases h
      exact .inl ⟨hrunning, rfl⟩
    case isFalse hrunning =>
      cases h
      exact .inr ⟨Bool.eq_false_iff.mpr hrunning, rfl⟩

theorem callStart_eq_ok (h : s.poolStep .callStart = .ok ((), s')) :
    s.owner = .idle ∧ (s.running = true ∧ s' = s ∨
      s.running = false ∧ s' = { s with owner := .spawn 0 }) := call_eq_ok h

theorem callStop_eq_ok (h : s.poolStep .callStop = .ok ((), s')) :
    s.owner = .idle ∧ (s.running = true ∧ s' = { s with owner := .notifyAll } ∨
      s.running = false ∧ s' = s) := call_eq_ok h

theorem owner_eq_ok (h : s.poolStep .owner = .ok ((), s')) :
    (∃ i, s.owner = .spawn i ∧ s.workers[i]? = some none ∧
        s' = { s with workers := s.workers.set i (some .test), owner := .spawn (i + 1) }) ∨
      (∃ i, s.owner = .spawn i ∧ s.workers.length ≤ i ∧
        s' = { s with running := true, owner := .idle }) ∨
      (s.owner = .notifyAll ∧ s' = { s with workers := s.workers.map wake, owner := .join 0 }) ∨
      (∃ i, s.owner = .join i ∧ s.workers[i]? = some none ∧
        s' = { s with owner := .join (i + 1) }) ∨
      (∃ i, s.owner = .join i ∧ s.workers[i]? = some (some .done) ∧
        s' = { s with workers := s.workers.set i none, owner := .join (i + 1) }) ∨
      ∃ i, s.owner = .join i ∧ s.workers.length ≤ i ∧
        s' = { s with running := false, owner := .idle } := by
  rw [poolStep, bind_eq_ok] at h
  obtain ⟨t, hown, h⟩ := h
  cases h
  rw [own] at hown
  split at hown
  case h_1 => cases hown
  case h_2 i howner =>
    split at hown
    case h_1 hnone =>
      cases hown
      exact .inl ⟨i, howner, hnone, rfl⟩
    case h_2 => cases hown
    case h_3 hend =>
      cases hown
      exact .inr (.inl ⟨i, howner, List.getElem?_eq_none_iff.mp hend, rfl⟩)
  case h_3 howner =>
    cases hown
    exact .inr (.inr (.inl ⟨howner, rfl⟩))
  case h_4 i howner =>
    split at hown
    case h_1 hnone =>
      cases hown
      exact .inr (.inr (.inr (.inl ⟨i, howner, hnone, rfl⟩)))
    case h_2 hdone =>
      cases hown
      exact .inr (.inr (.inr (.inr (.inl ⟨i, howner, hdone, rfl⟩))))
    case h_3 => cases hown
    case h_4 hend =>
      cases hown
      exact .inr (.inr (.inr (.inr (.inr ⟨i, howner, List.getElem?_eq_none_iff.mp hend, rfl⟩))))

theorem owner_join_eq_ok {i : ℕ} (howner : s.owner = .join i)
    (h : s.poolStep .owner = .ok ((), s')) :
    (s.workers[i]? = some none ∧ s' = { s with owner := .join (i + 1) }) ∨
      (s.workers[i]? = some (some .done) ∧
        s' = { s with workers := s.workers.set i none, owner := .join (i + 1) }) ∨
      s.workers.length ≤ i ∧ s' = { s with running := false, owner := .idle } := by
  rcases owner_eq_ok h with ⟨j, hown, -⟩ | ⟨j, hown, -⟩ | ⟨hown, -⟩ | ⟨j, hown, hnone, rfl⟩ |
    ⟨j, hown, hdone, rfl⟩ | ⟨j, hown, hend, rfl⟩
  all_goals
    rw [howner] at hown
    cases hown
  · exact .inl ⟨hnone, rfl⟩
  · exact .inr (.inl ⟨hdone, rfl⟩)
  · exact .inr (.inr ⟨hend, rfl⟩)

theorem owner_ne_idle (h : s.poolStep .owner = .ok ((), s')) : s.owner ≠ .idle := by
  intro hidle
  rw [poolStep, own, hidle] at h
  cases h

/-! ### What holds in every state -/

def InLoop (w : Option (Worker T)) : Prop := ∃ pc, w = some pc ∧ pc ≠ .done

def holds : Option (Worker T) → Bool
  | some .check | some .checkFlag | some .block | some .unlock => true
  | _ => false

/-- There is a thread at `j`, as far as the owner has come. -/
def hasThread (s : ThreadPool T) (j : ℕ) : Bool :=
  match s.owner with
  | .idle => s.running
  | .spawn i => j < i
  | .notifyAll => true
  | .join i => i ≤ j

/-- What `running_` says while the owner is in a call. -/
def FlagOf (s : ThreadPool T) : Owner → Prop
  | .idle => True
  | .spawn _ => s.running = false
  | .notifyAll | .join _ => s.running = true

/-- While `running_` is false a worker gets nowhere but to the end. -/
def Early (w : Option (Worker T)) : Prop := w = none ∨ w = some .test ∨ w = some .done

structure Threads (s : ThreadPool T) : Prop where
  present : ∀ j w, s.workers[j]? = some w → w.isSome = s.hasThread j
  flag : s.FlagOf s.owner
  early : s.running = false → ∀ w ∈ s.workers, Early w
  exclusive : s.workers.countP holds = s.locked.toNat

theorem new_threads (capacity queueCapacity hardwareConcurrency : ℕ) :
    (new T capacity queueCapacity hardwareConcurrency).Threads where
  present j w hw := by
    have hnone := List.eq_of_mem_replicate (List.mem_of_getElem? hw)
    rw [hnone]
    rfl
  flag := rfl
  early _ w hw := .inl (List.eq_of_mem_replicate hw)
  exclusive := by
    rw [new, List.countP_replicate]
    rfl

theorem Threads.moved (h : s.Threads) {i : ℕ} {w w' : Option (Worker T)} {locked : Bool}
    (hw : s.workers[i]? = some w)
    (hholds : (holds w).toNat + locked.toNat = (holds w').toNat + s.locked.toNat) :
    (s.workers.set i w').countP holds = locked.toNat := by
  obtain ⟨rest, hperm, hset⟩ := perm_cons_of_getElem? hw
  have hcount := h.exclusive
  rw [hperm.countP_eq, List.countP_cons] at hcount
  rw [(hset w').countP_eq, List.countP_cons]
  cases hold : holds w <;> cases hnew : holds w' <;> simp [hold, hnew] at hcount hholds ⊢ <;> omega

/-- A worker takes the mutex or gives it up together with its place. -/
theorem holds_of_work {pc pc' : Worker T} {locked : Bool} {q : SafeQueue T}
    (hwork : s.work pc = .ok (pc', locked, q))
    (hheld : holds (some pc) = true → s.locked = true) :
    (holds (some pc)).toNat + locked.toNat = (holds (some pc')).toNat + s.locked.toNat := by
  cases pc with
  | test =>
      cases hwork
      cases s.running <;> rfl
  | lock =>
      rw [work] at hwork
      split at hwork
      case isTrue => cases hwork
      case isFalse hfree =>
        cases hwork
        rw [Bool.eq_false_iff.mpr hfree]
        rfl
  | check =>
      cases hwork
      cases s.q.empty <;> rfl
  | checkFlag =>
      cases hwork
      cases s.running <;> rfl
  | block =>
      cases hwork
      rw [hheld rfl]
      rfl
  | blocked => cases hwork
  | unlock =>
      cases hwork
      rw [hheld rfl]
      rfl
  | pop =>
      rw [work] at hwork
      split at hwork <;> cases hwork <;> rfl
  | run task =>
      cases hwork
      rfl
  | done => cases hwork

theorem queue_of_work {pc pc' : Worker T} {locked : Bool} {q : SafeQueue T}
    (hwork : s.work pc = .ok (pc', locked, q)) :
    q = s.q ∨ ∃ task, pc = .pop ∧ pc' = .run task ∧ s.q.items = task :: q.items := by
  cases pc with
  | lock =>
      rw [work] at hwork
      split at hwork <;> cases hwork
      exact .inl rfl
  | pop =>
      cases hitems : s.q.items with
      | nil =>
          rw [work, SafeQueue.pop, hitems] at hwork
          cases hwork
          exact .inl rfl
      | cons task rest =>
          rw [work, SafeQueue.pop, hitems] at hwork
          cases hwork
          exact .inr ⟨task, rfl, rfl, rfl⟩
  | blocked => cases hwork
  | done => cases hwork
  | test | check | checkFlag | block | unlock | run =>
      cases hwork
      exact .inl rfl

theorem done_of_work {pc pc' : Worker T} {locked : Bool} {q : SafeQueue T}
    (hwork : s.work pc = .ok (pc', locked, q)) (hrunning : s.running = false)
    (hearly : Early (some pc)) : pc' = .done := by
  rcases hearly with h | h | h
  · cases h
  · cases h
    rw [work, hrunning] at hwork
    cases hwork
    rfl
  · cases h
    cases hwork

theorem left_of_work {pc : Worker T} {locked : Bool} {q : SafeQueue T}
    (hwork : s.work pc = .ok (.done, locked, q)) : pc = .test ∧ s.running = false := by
  cases pc with
  | test =>
      refine ⟨rfl, ?_⟩
      rw [work] at hwork
      cases hrunning : s.running with
      | true =>
          rw [hrunning] at hwork
          cases hwork
      | false => rfl
  | lock =>
      rw [work] at hwork
      split at hwork <;> cases hwork
  | check =>
      rw [work] at hwork
      cases hempty : s.q.empty <;> rw [hempty] at hwork <;> cases hwork
  | checkFlag =>
      rw [work] at hwork
      cases hrunning : s.running <;> rw [hrunning] at hwork <;> cases hwork
  | block => cases hwork
  | blocked => cases hwork
  | unlock => cases hwork
  | pop =>
      rw [work] at hwork
      split at hwork <;> cases hwork
  | run task => cases hwork
  | done => cases hwork

theorem Threads.locked_of_holds (h : s.Threads) {w : Option (Worker T)} (hw : w ∈ s.workers)
    (hholds : holds w = true) : s.locked = true := by
  have hpos : 0 < s.workers.countP holds := List.countP_pos_iff.mpr ⟨w, hw, hholds⟩
  rw [h.exclusive] at hpos
  cases hlocked : s.locked with
  | true => rfl
  | false =>
      rw [hlocked] at hpos
      exact absurd hpos (Nat.lt_irrefl 0)

theorem holds_wake (w : Option (Worker T)) : holds (wake w) = holds w := by
  cases w with
  | none => rfl
  | some pc => cases pc <;> rfl

theorem isSome_wake (w : Option (Worker T)) : (wake w).isSome = w.isSome := by
  cases w with
  | none => rfl
  | some pc => cases pc <;> rfl

/-- Putting a place in for another, where the owner expects a thread or not as before. -/
theorem present_set {workers : List (Option (Worker T))} {i : ℕ} {w' : Option (Worker T)}
    {t : ThreadPool T}
    (hself : i < workers.length → w'.isSome = t.hasThread i)
    (hrest : ∀ j w, j ≠ i → workers[j]? = some w → w.isSome = t.hasThread j) :
    ∀ j w, (workers.set i w')[j]? = some w → w.isSome = t.hasThread j := by
  intro j w hw
  by_cases hij : j = i
  case pos =>
    subst hij
    have hlt : j < workers.length := by
      have := (List.getElem?_eq_some_iff.mp hw).1
      rwa [List.length_set] at this
    rw [List.getElem?_set_self hlt] at hw
    cases hw
    exact hself hlt
  case neg =>
    rw [List.getElem?_set_ne (Ne.symm hij)] at hw
    exact hrest j w hij hw

theorem early_set {workers : List (Option (Worker T))} {i : ℕ} {w' : Option (Worker T)}
    (hself : Early w') (hrest : ∀ w ∈ workers, Early w) : ∀ w ∈ workers.set i w', Early w := by
  intro w hw
  rcases List.mem_or_eq_of_mem_set hw with hw | rfl
  · exact hrest w hw
  · exact hself

theorem Threads.owner (h : s.Threads) (hstep : s.poolStep .owner = .ok ((), s')) :
    s'.Threads := by
  have hpresent := h.present
  have hflag := h.flag
  rcases owner_eq_ok hstep with ⟨i, howner, hnone, rfl⟩ | ⟨i, howner, hend, rfl⟩ | ⟨howner, rfl⟩ |
    ⟨i, howner, hnone, rfl⟩ | ⟨i, howner, hdone, rfl⟩ | ⟨i, howner, hend, rfl⟩
  all_goals
    rw [howner] at hflag
    simp only [hasThread, howner] at hpresent
  · refine ⟨present_set (fun _ => by simp [hasThread]) fun j w hij hw => ?_, hflag,
      fun hrunning => early_set (.inr (.inl rfl)) (h.early hrunning),
      h.moved hnone (by rfl)⟩
    rw [hpresent j w hw]
    simp only [hasThread, decide_eq_decide]
    omega
  · refine ⟨fun j w hw => ?_, trivial, fun hrunning => ?_, h.exclusive⟩
    · have hw' : s.workers[j]? = some w := hw
      have hlt := (List.getElem?_eq_some_iff.mp hw').1
      rw [hpresent j w hw']
      simp only [hasThread, decide_eq_true_eq]
      omega
    · cases hrunning
  · refine ⟨fun j w hw => ?_, hflag, fun hrunning => ?_, ?_⟩
    · rw [List.getElem?_map, Option.map_eq_some_iff] at hw
      obtain ⟨w, hw, rfl⟩ := hw
      rw [isSome_wake, hpresent j w hw]
      simp [hasThread]
    · exact absurd (hrunning.symm.trans hflag) (by decide)
    · rw [← h.exclusive, List.countP_map]
      exact List.countP_congr fun w _ => by rw [Function.comp_apply, holds_wake]
  · -- the threads from `i` on are not joined yet
    exact absurd (hpresent i none hnone) (by simp)
  · refine ⟨present_set (fun _ => by simp [hasThread]) fun j w hij hw => ?_, hflag,
      fun hrunning => early_set (.inl rfl) (h.early hrunning), h.moved hdone (by rfl)⟩
    rw [hpresent j w hw]
    simp only [hasThread, decide_eq_decide]
    omega
  · have hnone : ∀ (j : ℕ) (w : Option (Worker T)), s.workers[j]? = some w → w = none := by
      intro j w hw
      have hlt := (List.getElem?_eq_some_iff.mp hw).1
      rw [← Option.not_isSome_iff_eq_none, hpresent j w hw]
      simp only [decide_eq_true_eq]
      omega
    refine ⟨fun j w hw => ?_, trivial, fun _ w hw => ?_, h.exclusive⟩
    · rw [hnone j w hw]
      rfl
    · obtain ⟨j, hj⟩ := List.getElem?_of_mem hw
      exact .inl (hnone j w hj)

theorem Threads.step (h : s.Threads) {a : PoolAction T} (hstep : s.poolStep a = .ok ((), s')) :
    s'.Threads := by
  cases a with
  | worker i =>
      obtain ⟨pc, pc', locked, q, hpc, hwork, rfl⟩ := worker_eq_ok hstep
      have hmem := List.mem_of_getElem? hpc
      refine ⟨present_set (fun _ => (h.present i (some pc) hpc).symm ▸ rfl)
        fun j w _ hw => h.present j w hw, h.flag, fun hrunning => ?_,
        h.moved hpc (holds_of_work hwork fun hholds => h.locked_of_holds hmem hholds)⟩
      have hdone := done_of_work hwork hrunning (h.early hrunning _ hmem)
      exact early_set (.inr (.inr (congrArg some hdone))) (h.early hrunning)
  | owner => exact h.owner hstep
  | callStart =>
      obtain ⟨hidle, ⟨-, rfl⟩ | ⟨hrunning, rfl⟩⟩ := callStart_eq_ok hstep
      · exact h
      · refine ⟨fun j w hw => ?_, hrunning, h.early, h.exclusive⟩
        rw [h.present j w hw]
        simp [hasThread, hidle, hrunning]
  | callStop =>
      obtain ⟨hidle, ⟨hrunning, rfl⟩ | ⟨-, rfl⟩⟩ := callStop_eq_ok hstep
      · refine ⟨fun j w hw => ?_, hrunning, h.early, h.exclusive⟩
        rw [h.present j w hw]
        simp [hasThread, hidle, hrunning]
      · exact h
  | push task =>
      cases hstep
      exact ⟨h.present, h.flag, h.early, h.exclusive⟩
  | notifyOne target =>
      obtain ⟨-, ⟨-, -, rfl⟩ | ⟨i, -, hi, rfl⟩⟩ := notifyOne_eq_ok hstep
      · exact ⟨h.present, h.flag, h.early, h.exclusive⟩
      · refine ⟨present_set (fun _ => (h.present i _ hi).symm ▸ rfl)
          fun j w _ hw => h.present j w hw, h.flag, fun hrunning => ?_, h.moved hi (by rfl)⟩
        rcases h.early hrunning _ (List.mem_of_getElem? hi) with hw | hw | hw <;> cases hw

end ThreadPool

end LpNet
