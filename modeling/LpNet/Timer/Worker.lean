import LpNet.Timer.Firing

/-!
The thread of a scheduler's timer.

In each round of `TaskScheduler::start` the timer is started, and stopped after the wait for
events. `start` creates the thread before it sets `running_`, and a thread that tests it
earlier returns at once; any other sleeps until the first task expires, pops it and calls it. It
sleeps with the mutex held, so that no task that is added or removed comes in between.
`timers_fire_once` says what becomes of every task, in any order of these steps, and
`passed_over` that nothing may become of one for any number of rounds.
-/

namespace LpNet

open Transition

inductive StarterPc
  /-- Before `timers_.start()`. -/
  | idle
  /-- In `start`, at the assignment of `worker_`. -/
  | create
  /-- In `start`, at `running_ = true`. -/
  | store
  /-- Between `start` and `stop`. -/
  | started
  /-- In `stop`, at the join. -/
  | join
  /-- In `stop`, at `running_ = false`. -/
  | clear
  deriving DecidableEq, Repr

inductive TimerWorkerPc (Cb : Type)
  /-- At `if (running_)`. -/
  | test
  | lock
  /-- Asleep with the mutex, before `pop`. -/
  | sleep (wake : ℕ)
  /-- At `task()`, with the task that was popped. -/
  | call (task : Option (TimerTask Cb))
  | done
  deriving DecidableEq, Repr

structure TimerCall (Cb : Type) where
  task : TimerTask Cb
  time : ℕ
  result : Option Cb
  deriving DecidableEq, Repr

/-- The timer of a scheduler with its thread, and what was done with its tasks so far. -/
structure TimerRounds (Cb : Type) where
  timers : TimerTaskMap Cb
  running : Bool
  /-- The thread of `worker_`, if that is joinable. -/
  worker : Option (TimerWorkerPc Cb)
  starter : StarterPc
  /-- What the clock says. -/
  clock : ℕ
  /-- How many threads were created, tested `running_` before it was set, and found no task. -/
  created : ℕ
  early : ℕ
  vain : ℕ
  accepted : TaskSet Cb
  removed : TaskSet Cb
  popped : TaskSet Cb
  calls : List (TimerCall Cb)
  deriving DecidableEq, Repr

/-- A step of the loop or of the thread, a call of another thread, or that time passes. -/
inductive TimerAction (Cb : Type)
  | starter
  | worker
  | addTimer (task : TimerTask Cb)
  | removeTimer (id : ℕ)
  | tick (ms : ℕ)

namespace TimerRounds

variable {Cb : Type}

/-- The constructor of `TaskScheduler`. -/
def new (Cb : Type) (now : ℕ) : TimerRounds Cb where
  timers := .new Cb (2 ^ 64 - 1)
  running := false
  worker := none
  starter := .idle
  clock := now
  created := 0
  early := 0
  vain := 0
  accepted := []
  removed := []
  popped := []
  calls := []

def timer (s : TimerRounds Cb) : Timer Cb := ⟨.map s.timers, s.running⟩

def starterStep (s : TimerRounds Cb) : Except Fault (TimerRounds Cb) :=
  match s.starter with
  | .idle => .ok { s with starter := if s.running then .started else .create }
  | .create =>
      match s.worker with
      | none =>
          .ok { s with worker := some .test, created := s.created + 1, starter := .store }
      -- a joinable thread is assigned to
      | some _ => .error .terminated
  | .store => .ok { s with running := true, starter := .started }
  | .started => .ok { s with starter := if s.running then .join else .idle }
  | .join =>
      match s.worker with
      | none => .ok { s with starter := .clear }
      | some .done => .ok { s with worker := none, starter := .clear }
      | some _ => .ok s
  | .clear => .ok { s with running := false, starter := .idle }

def timeout (s : TimerRounds Cb) : ℕ :=
  let timestamp := s.timer.nextTimestamp s.clock
  if timestamp = Clock.infinity then 100 else timestamp

/-- `tasks_->pop(task)`, after which the mutex is free. -/
def popFirst (s : TimerRounds Cb) : Except Fault (TimerRounds Cb) := do
  let (task, timers) ← s.timers.popTask s.clock
  .ok { s with timers := timers
               worker := some (.call task)
               popped := s.popped ++ task.toList
               vain := if task.isNone then s.vain + 1 else s.vain }

def callTask (s : TimerRounds Cb) (task : Option (TimerTask Cb)) : TimerRounds Cb :=
  { s with worker := some .done
           calls := s.calls ++ task.toList.map fun task => ⟨task, s.clock, task.fire s.clock⟩ }

def workerStep (s : TimerRounds Cb) : Except Fault (TimerRounds Cb) :=
  match s.worker with
  | none => .ok s
  | some .test =>
      if s.running then .ok { s with worker := some .lock }
      else .ok { s with worker := some .done, early := s.early + 1 }
  | some .lock => .ok { s with worker := some (.sleep (s.clock + s.timeout)) }
  | some (.sleep wake) => if wake ≤ s.clock then s.popFirst else .ok s
  | some (.call task) => .ok (s.callTask task)
  | some .done => .ok s

def Locked (s : TimerRounds Cb) : Prop := ∃ wake, s.worker = some (.sleep wake)

instance (s : TimerRounds Cb) : Decidable s.Locked :=
  match h : s.worker with
  | some (.sleep wake) => .isTrue ⟨wake, h⟩
  | none => .isFalse fun ⟨_, hw⟩ => by cases h.symm.trans hw
  | some .test => .isFalse fun ⟨_, hw⟩ => by cases h.symm.trans hw
  | some .lock => .isFalse fun ⟨_, hw⟩ => by cases h.symm.trans hw
  | some (.call _) => .isFalse fun ⟨_, hw⟩ => by cases h.symm.trans hw
  | some .done => .isFalse fun ⟨_, hw⟩ => by cases h.symm.trans hw

/-- `addTimer(task)` of another thread, which waits while the mutex is held. -/
def addTimer (s : TimerRounds Cb) (task : TimerTask Cb) : Except Fault (TimerRounds Cb) :=
  if s.Locked then .ok s
  else do
    let (_, timers) ← s.timers.add task
    .ok { s with timers := timers, accepted := s.accepted ++ [task] }

/-- `removeTimer(id)` of another thread, which waits while the mutex is held. -/
def removeTimer (s : TimerRounds Cb) (id : ℕ) : TimerRounds Cb :=
  if s.Locked then s
  else
    { s with timers := (s.timers.remove id).2
             removed := s.removed ++
               (s.timers.data.find? (TimerTaskMap.hasId id)).toList.map Prod.snd }

def timerStep (s : TimerRounds Cb) : TimerAction Cb → Except Fault (Unit × TimerRounds Cb)
  | .starter => do
      let s ← s.starterStep
      .ok ((), s)
  | .worker => do
      let s ← s.workerStep
      .ok ((), s)
  | .addTimer task => do
      let s ← s.addTimer task
      .ok ((), s)
  | .removeTimer id => .ok ((), s.removeTimer id)
  | .tick ms => .ok ((), { s with clock := s.clock + ms })

/-! ### Where the tasks are -/

/-- The task that was popped and is about to be called. A cyclic one is stored as well. -/
def pending (s : TimerRounds Cb) : TaskSet Cb :=
  match s.worker with
  | some (.call (some task)) => if task.cycled then [] else [task]
  | _ => []

def finished (s : TimerRounds Cb) : TaskSet Cb :=
  (s.calls.map TimerCall.task).filter fun task => !task.cycled

/-- All tasks, by what became of them. -/
def settled (s : TimerRounds Cb) : TaskSet Cb :=
  s.pending ++ s.timers.stored ++ s.removed ++ s.finished

end TimerRounds

/-- A task but for what a cyclic one is given anew. -/
def TimerTask.plan {Cb : Type} (task : TimerTask Cb) : TimerTask Cb :=
  if task.cycled then { task with expiredTime := 0 } else task

/-- The callback is not called before its deadline, and that of a task that is not cyclic is
called. -/
structure TimerCall.Right {Cb : Type} (call : TimerCall Cb) : Prop where
  due : call.result ≠ none → call.task.expiredTime ≤ call.time
  once : call.task.cycled = false →
    call.task.expiredTime ≤ call.time ∧ call.result = call.task.callback

namespace TimerRounds

/-- The first task with its next deadline, when the thread is to pop it and it is cyclic. -/
def rearming {Cb : Type} (s : TimerRounds Cb) : Option (TimerTask Cb) :=
  match s.worker with
  | some (.sleep wake) =>
      if wake ≤ s.clock ∧ s.timers.top.cycled then
        some (s.timers.top.setExpiredTime s.clock s.timers.top.duration)
      else none
  | _ => none

/-- An added task has a new id and a deadline of 64 bits, and no task is given a deadline that
another stored one has. -/
def Apart {Cb : Type} (s : TimerRounds Cb) : TimerAction Cb → Prop
  | .addTimer task =>
      (∀ u ∈ s.accepted, u.id ≠ task.id) ∧ task.expiredTime < 2 ^ 64 ∧
        ∀ u ∈ s.timers.stored, u.expiredTime ≠ task.expiredTime
  | .worker =>
      ∀ task ∈ s.rearming, ∀ u ∈ s.timers.stored, u.id ≠ task.id →
        u.expiredTime ≠ task.expiredTime
  | _ => True

instance {Cb : Type} (s : TimerRounds Cb) (a : TimerAction Cb) : Decidable (s.Apart a) :=
  match a with
  | .addTimer _ => inferInstanceAs (Decidable (_ ∧ _))
  | .worker => inferInstanceAs (Decidable (∀ _ ∈ s.rearming, _))
  | .starter => .isTrue trivial
  | .removeTimer _ => .isTrue trivial
  | .tick _ => .isTrue trivial

variable {Cb : Type} {s s' : TimerRounds Cb} {task : TimerTask Cb}

/-- How often the thread may still pop. -/
def toPop : Option (TimerWorkerPc Cb) → ℕ
  | some .test => 1
  | some .lock => 1
  | some (.sleep _) => 1
  | _ => 0

/-- The thread has no task in its hands and does not hold the mutex. -/
def Resting : Option (TimerWorkerPc Cb) → Prop
  | some (.sleep _) => False
  | some (.call _) => False
  | _ => True

def Phase (s : TimerRounds Cb) : Prop :=
  match s.starter with
  | .idle => s.worker = none ∧ s.running = false
  | .create => s.worker = none ∧ s.running = false
  | .store => s.worker ≠ none ∧ s.running = false
  | .started => s.worker ≠ none ∧ s.running = true
  | .join => s.worker ≠ none ∧ s.running = true
  | .clear => s.worker = none ∧ s.running = true

structure Rounds (s : TimerRounds Cb) : Prop where
  phase : s.Phase
  kept : s.timers.Kept
  clock_pos : 0 < s.clock
  bounded : ∀ task ∈ s.timers.stored, task.expiredTime < 2 ^ 64
  /-- The thread sleeps past the first deadline. -/
  waits : ∀ wake, s.worker = some (.sleep wake) →
    ∀ entry ∈ s.timers.data.head?, entry.2.expiredTime ≤ wake
  due : ∀ task, s.worker = some (.call (some task)) → task.cycled = false →
    task.expiredTime ≤ s.clock
  settled : (s.accepted.map TimerTask.plan).Perm (s.settled.map TimerTask.plan)
  ids : (s.accepted.map TimerTask.id).Nodup
  right : ∀ call ∈ s.calls, call.Right
  pops : s.created = s.popped.length + s.early + s.vain + toPop s.worker

theorem pending_of_resting (h : Resting s.worker) : s.pending = [] := by
  rw [pending]
  cases hworker : s.worker with
  | none => rfl
  | some pc =>
      rw [hworker] at h
      cases pc with
      | call _ => exact h.elim
      | _ => rfl

theorem settled_of_resting (h : Resting s.worker) :
    s.settled = s.timers.stored ++ s.removed ++ s.finished := by
  rw [settled, pending_of_resting h, List.nil_append]

theorem Rounds.goes (h : s.Rounds) {worker : Option (TimerWorkerPc Cb)} {starter : StarterPc}
    {running : Bool} {created early : ℕ}
    (hworker : worker = s.worker ∨ Resting worker ∧ Resting s.worker)
    (hphase : ({ s with worker := worker, starter := starter, running := running,
                        created := created, early := early } : TimerRounds Cb).Phase)
    (hpops : created = s.popped.length + early + s.vain + toPop worker) :
    ({ s with worker := worker, starter := starter, running := running,
              created := created, early := early } : TimerRounds Cb).Rounds := by
  refine ⟨hphase, h.kept, h.clock_pos, h.bounded, ?_, ?_, ?_, h.ids, h.right, hpops⟩
  · rcases hworker with rfl | ⟨hrest, -⟩
    · exact h.waits
    · rintro wake rfl
      exact hrest.elim
  · rcases hworker with rfl | ⟨hrest, -⟩
    · exact h.due
    · rintro task rfl
      exact hrest.elim
  · rcases hworker with rfl | ⟨hrest, hrest'⟩
    · exact h.settled
    · have hsettled := h.settled
      rw [settled_of_resting hrest'] at hsettled
      rw [settled_of_resting hrest]
      exact hsettled

/-! ### The steps -/

theorem Rounds.starterStep (h : s.Rounds) : ∃ s', s.starterStep = .ok s' ∧ s'.Rounds := by
  have hphase := h.phase
  rw [Phase] at hphase
  rw [TimerRounds.starterStep]
  cases hpc : s.starter <;> rw [hpc] at hphase <;> obtain ⟨hworker, hrunning⟩ := hphase
  case idle =>
    have hnext : (if s.running then StarterPc.started else .create) = .create := by
      rw [hrunning]
      rfl
    rw [hnext]
    exact ⟨_, rfl, h.goes (.inl rfl) ⟨hworker, hrunning⟩ h.pops⟩
  case create =>
    have hpops := h.pops
    rw [hworker] at hpops ⊢
    refine ⟨_, rfl, h.goes (.inr ⟨trivial, ?_⟩) ⟨Option.some_ne_none _, hrunning⟩ ?_⟩
    · rw [hworker]
      trivial
    · exact congrArg Nat.succ hpops
  case store => exact ⟨_, rfl, h.goes (.inl rfl) ⟨hworker, rfl⟩ h.pops⟩
  case started =>
    have hnext : (if s.running then StarterPc.join else .idle) = .join := by
      rw [hrunning]
      rfl
    rw [hnext]
    exact ⟨_, rfl, h.goes (.inl rfl) ⟨hworker, hrunning⟩ h.pops⟩
  case join =>
    dsimp only
    split
    case h_1 hnone => exact absurd hnone hworker
    case h_2 hdone =>
      have hpops := h.pops
      rw [hdone] at hpops
      refine ⟨_, rfl, h.goes (.inr ⟨trivial, ?_⟩) ⟨rfl, hrunning⟩ hpops⟩
      rw [hdone]
      trivial
    case h_3 => exact ⟨s, rfl, h⟩
  case clear => exact ⟨_, rfl, h.goes (.inl rfl) ⟨hworker, rfl⟩ h.pops⟩

theorem Phase.worker (h : s.Phase) (hworker : s.worker ≠ none) (pc : TimerWorkerPc Cb) :
    ({ s with worker := some pc } : TimerRounds Cb).Phase := by
  rw [Phase] at h ⊢
  cases hpc : s.starter <;> rw [hpc] at h
  case idle => exact absurd h.1 hworker
  case create => exact absurd h.1 hworker
  case clear => exact absurd h.1 hworker
  all_goals exact ⟨Option.some_ne_none _, h.2⟩

/-- The thread wakes up past the first deadline. -/
theorem Rounds.le_timeout (h : s.Rounds) {entry : IdTimestampPair × TimerTask Cb}
    (hentry : entry ∈ s.timers.data.head?) : entry.2.expiredTime ≤ s.clock + s.timeout := by
  have hpos := h.clock_pos
  have hbound : entry.2.expiredTime < 2 ^ 64 :=
    h.bounded entry.2 (List.mem_map_of_mem (List.mem_of_mem_head? hentry))
  have htop : s.timer.tasks.top.expiredTime = entry.2.expiredTime := by
    show s.timers.top.expiredTime = entry.2.expiredTime
    rw [TimerTaskMap.top]
    cases hdata : s.timers.data with
    | nil =>
        rw [hdata] at hentry
        cases hentry
    | cons first rest =>
        rw [hdata] at hentry
        cases hentry
        rfl
  have hinf : Clock.infinity = 2 ^ 64 - 1 := rfl
  rw [timeout, Timer.nextTimestamp, htop]
  by_cases hzero : entry.2.expiredTime = 0
  case pos => omega
  case neg =>
    rw [if_neg hzero]
    by_cases hlate : entry.2.expiredTime ≥ s.clock
    case pos =>
      have hne : entry.2.expiredTime - s.clock ≠ Clock.infinity := by omega
      rw [if_pos hlate, if_neg hne]
      omega
    case neg => omega

theorem plan_setExpiredTime {now : ℕ} (hcycled : task.cycled = true) :
    (task.setExpiredTime now task.duration).plan = task.plan := by
  have hcycled' : (task.setExpiredTime now task.duration).cycled = true := hcycled
  rw [TimerTask.plan, TimerTask.plan, if_pos hcycled, if_pos hcycled']
  rfl

/-- A task that is popped is in the hands of the thread, or stored again. -/
theorem Rounds.popFirst (h : s.Rounds) {wake : ℕ} (hworker : s.worker = some (.sleep wake))
    (hwake : wake ≤ s.clock) (hapart : s.Apart .worker) :
    ∃ s', s.popFirst = .ok s' ∧ s'.Rounds := by
  have hphase := h.phase.worker (by rw [hworker]; exact Option.some_ne_none _)
  have hpending : s.pending = [] := by rw [pending, hworker]
  have hsettled := h.settled
  have hpops := h.pops
  rw [TimerRounds.settled, hpending, List.nil_append] at hsettled
  rw [hworker] at hpops
  rw [TimerRounds.popFirst]
  cases hdata : s.timers.data with
  | nil =>
      have hpop : s.timers.popTask s.clock = .ok (none, s.timers) := by
        rw [TimerTaskMap.popTask, hdata]
      rw [hpop]
      refine ⟨_, rfl, hphase (.call none), h.kept, h.clock_pos, h.bounded, fun _ hw => ?_,
        fun _ hw => ?_, hsettled, h.ids, h.right, ?_⟩
      · cases hw
      · cases hw
      · show s.created = (s.popped ++ []).length + s.early + (s.vain + 1) + 0
        rw [List.append_nil, hpops]
        rfl
  | cons entry rest =>
      have hhead : entry ∈ s.timers.data.head? := by
        rw [hdata]
        rfl
      have hdue : entry.2.expiredTime ≤ s.clock := (h.waits wake hworker entry hhead).trans hwake
      obtain ⟨-, hstored, hother⟩ := h.kept.rest hdata
      have htimes : entry.2.cycled = true →
          ∀ u ∈ rest.map Prod.snd, u.expiredTime ≠ SizeT.add s.clock entry.2.duration := by
        intro hcycled u hu
        have htop : s.timers.top = entry.2 := by rw [TimerTaskMap.top, hdata]
        have hrearming : s.rearming =
            some (entry.2.setExpiredTime s.clock entry.2.duration) := by
          rw [rearming, hworker]
          dsimp only
          rw [htop, if_pos ⟨hwake, hcycled⟩]
        refine hapart _ hrearming u ?_ (hother u hu)
        rw [hstored]
        exact List.mem_cons_of_mem _ hu
      have hbounded := h.bounded
      rw [hstored, List.forall_mem_cons] at hbounded
      rw [hstored] at hsettled
      obtain ⟨popped, m', hpop⟩ := (h.kept.popTask_ok_iff hdata s.clock).mpr htimes
      obtain ⟨hkept, hcases⟩ := h.kept.popTask hdata hpop
      rw [hpop]
      refine ⟨_, rfl, ?_⟩
      have hlength : ∀ task : TimerTask Cb,
          s.created = (s.popped ++ [task]).length + s.early + s.vain + 0 := fun task => by
        rw [List.length_append, List.length_singleton, hpops, toPop]
        omega
      have hhands : ∀ (t : TimerRounds Cb) task, t.worker = some (.call (some task)) →
          t.pending = if task.cycled then [] else [task] := fun t task ht => by rw [pending, ht]
      rcases hcases with ⟨hcycled, rfl, heq⟩ | ⟨hcycled, rfl, hperm⟩
      · -- the task goes from the map into the hands of the thread
        refine ⟨hphase _, hkept, h.clock_pos, ?_, fun _ hw => ?_, fun task hw _ => ?_, ?_, h.ids,
          h.right, hlength _⟩
        · rw [heq]
          exact hbounded.2
        · cases hw
        · cases hw
          exact hdue
        · rw [TimerRounds.settled, hhands _ _ rfl, hcycled, if_neg Bool.false_ne_true, heq]
          exact hsettled
      · -- the task is stored again
        have hcycled' : (entry.2.setExpiredTime s.clock entry.2.duration).cycled = true := hcycled
        refine ⟨hphase _, hkept, h.clock_pos, fun task htask => ?_, fun _ hw => ?_,
          fun task hw hnot => ?_, hsettled.trans ?_, h.ids, h.right, hlength _⟩
        · rcases List.mem_cons.mp (hperm.mem_iff.mp htask) with rfl | hold
          · exact Nat.mod_lt _ (by decide)
          · exact hbounded.2 task hold
        · cases hw
        · cases hw
          exact absurd (hcycled'.symm.trans hnot) (by decide)
        · rw [TimerRounds.settled, hhands _ _ rfl, hcycled', if_pos rfl, List.nil_append,
            List.map_append, List.map_append, List.map_append, List.map_append]
          have hmap := hperm.map TimerTask.plan
          rw [List.map_cons, plan_setExpiredTime hcycled] at hmap
          exact (hmap.symm.append_right _).append_right _

/-- The task that was popped is called, unless it is cyclic and was given a later deadline. -/
theorem Rounds.callTask (h : s.Rounds) {task : Option (TimerTask Cb)}
    (hworker : s.worker = some (.call task)) : (s.callTask task).Rounds := by
  have hphase := h.phase.worker (by rw [hworker]; exact Option.some_ne_none _) .done
  have hpops := h.pops
  rw [hworker] at hpops
  refine ⟨hphase, h.kept, h.clock_pos, h.bounded, fun _ hw => ?_, fun _ hw => ?_, ?_, h.ids, ?_,
    hpops⟩
  · cases hw
  · cases hw
  · have hfinished : (s.callTask task).finished = s.finished ++ s.pending := by
      rw [pending, hworker, finished, TimerRounds.callTask, List.map_append, List.filter_append]
      cases task with
      | none => rfl
      | some task => cases hcycled : task.cycled <;> simp [finished, hcycled]
    have hsettled : (s.callTask task).settled =
        s.timers.stored ++ s.removed ++ s.finished ++ s.pending := by
      rw [settled_of_resting (s := s.callTask task) trivial, hfinished,
        List.append_assoc _ _ s.pending]
      rfl
    refine h.settled.trans (.map _ ?_)
    rw [hsettled, TimerRounds.settled, List.append_assoc, List.append_assoc,
      ← List.append_assoc _ _ s.finished]
    exact List.perm_append_comm
  · intro call hcall
    rcases List.mem_append.mp hcall with hold | hnew
    · exact h.right call hold
    · cases task with
      | none => cases hnew
      | some task =>
          obtain rfl := List.mem_singleton.mp hnew
          refine ⟨fun hresult => ?_, fun hcycled => ?_⟩
          · by_contra hlate
            refine hresult ?_
            show task.fire s.clock = none
            rw [TimerTask.fire, if_neg (by simpa [TimerTask.isExpired] using hlate)]
          · have hle := h.due task hworker hcycled
            refine ⟨hle, ?_⟩
            show task.fire s.clock = task.callback
            rw [TimerTask.fire, if_pos (by simpa [TimerTask.isExpired] using hle)]

theorem Rounds.workerStep (h : s.Rounds) (hapart : s.Apart .worker) :
    ∃ s', s.workerStep = .ok s' ∧ s'.Rounds := by
  rw [TimerRounds.workerStep]
  split
  case h_1 => exact ⟨s, rfl, h⟩
  case h_2 hworker =>
    have hpops := h.pops
    have hrest : Resting s.worker := by
      rw [hworker]
      trivial
    have hphase := h.phase.worker (by rw [hworker]; exact Option.some_ne_none _)
    rw [hworker] at hpops
    split
    case isTrue => exact ⟨_, rfl, h.goes (.inr ⟨trivial, hrest⟩) (hphase .lock) hpops⟩
    case isFalse =>
      refine ⟨_, rfl, h.goes (.inr ⟨trivial, hrest⟩) (hphase .done) ?_⟩
      show s.created = s.popped.length + (s.early + 1) + s.vain
      rw [hpops, toPop]
      omega
  case h_3 hworker =>
    have hpops := h.pops
    have hsettled := h.settled
    rw [hworker] at hpops
    rw [settled_of_resting (by rw [hworker]; trivial)] at hsettled
    refine ⟨_, rfl, h.phase.worker (by rw [hworker]; exact Option.some_ne_none _) _, h.kept,
      h.clock_pos, h.bounded, fun wake hw entry hentry => ?_, fun _ hw => ?_, hsettled, h.ids,
      h.right, hpops⟩
    · cases hw
      exact h.le_timeout hentry
    · cases hw
  case h_4 wake hworker =>
    split
    case isTrue hwake => exact h.popFirst hworker hwake hapart
    case isFalse => exact ⟨s, rfl, h⟩
  case h_5 task hworker => exact ⟨_, rfl, h.callTask hworker⟩
  case h_6 => exact ⟨s, rfl, h⟩

theorem Rounds.settled_ids (h : s.Rounds) :
    (s.accepted.map TimerTask.id).Perm (s.settled.map TimerTask.id) := by
  have hplan : ∀ task : TimerTask Cb, task.plan.id = task.id := fun task => by
    rw [TimerTask.plan]
    split <;> rfl
  have hmap := h.settled.map TimerTask.id
  rw [List.map_map, List.map_map] at hmap
  simpa only [Function.comp_def, hplan] using hmap

theorem Rounds.addTimer (h : s.Rounds) (hnew : s.Apart (.addTimer task)) :
    ∃ s', s.addTimer task = .ok s' ∧ s'.Rounds := by
  rw [TimerRounds.addTimer]
  split
  case isTrue => exact ⟨s, rfl, h⟩
  case isFalse hfree =>
    have hfresh : ∀ u ∈ s.timers.stored, u.id ≠ task.id := by
      intro u hu heq
      have hmem : u.id ∈ s.settled.map TimerTask.id := by
        refine List.mem_map_of_mem ?_
        simp [TimerRounds.settled, hu]
      obtain ⟨v, hv, hid⟩ := List.mem_map.mp (h.settled_ids.mem_iff.mpr hmem)
      exact hnew.1 v hv (hid.trans heq)
    obtain ⟨m', hadd, hkept, hperm⟩ := (h.kept.add hfresh).mp hnew.2.2
    rw [hadd]
    refine ⟨_, rfl, h.phase, hkept, h.clock_pos, fun t ht => ?_, fun wake hw => ?_, h.due, ?_, ?_,
      h.right, h.pops⟩
    · rcases List.mem_cons.mp (hperm.mem_iff.mp ht) with rfl | hold
      · exact hnew.2.1
      · exact h.bounded t hold
    · exact absurd ⟨wake, hw⟩ hfree
    · have hpush : (s.accepted ++ [task]).Perm (task :: s.accepted) := List.perm_append_singleton ..
      have hmiddle : (s.pending ++ (task :: s.timers.stored) ++ s.removed ++ s.finished).Perm
          (task :: s.settled) := by
        rw [TimerRounds.settled]
        simp
      refine (hpush.map _).trans ?_
      rw [List.map_cons]
      refine (h.settled.cons _).trans ?_
      rw [← List.map_cons]
      refine .map _ (hmiddle.symm.trans ?_)
      exact ((hperm.symm.append_left _).append_right _).append_right _
    · rw [List.map_append, List.map_singleton]
      exact List.nodup_append_comm.mp (TaskSet.nodup_map_cons hnew.1 h.ids)

theorem Rounds.removeTimer (h : s.Rounds) (id : ℕ) : (s.removeTimer id).Rounds := by
  rw [TimerRounds.removeTimer]
  split
  case isTrue => exact h
  case isFalse hfree =>
    cases hfind : s.timers.data.find? (TimerTaskMap.hasId id) with
    | none =>
        rw [TimerTaskMap.remove, hfind]
        dsimp only
        rw [Option.toList_none, List.map_nil, List.append_nil]
        exact h
    | some entry =>
        obtain ⟨m', hremove, hkept, hperm⟩ := h.kept.remove hfind
        rw [hremove]
        refine ⟨h.phase, hkept, h.clock_pos, fun t ht => ?_, fun wake hw => ?_, h.due, ?_, h.ids,
          h.right, h.pops⟩
        · exact h.bounded t (hperm.mem_iff.mpr (List.mem_cons_of_mem _ ht))
        · exact absurd ⟨wake, hw⟩ hfree
        · refine h.settled.trans (.map _ ?_)
          have hmoved : (s.timers.stored ++ s.removed).Perm
              (m'.stored ++ (s.removed ++ [entry.2])) := by
            refine (hperm.append_right _).trans ?_
            rw [← List.append_assoc]
            exact (List.perm_append_singleton ..).symm
          rw [TimerRounds.settled, TimerRounds.settled, List.append_assoc _ s.timers.stored,
            List.append_assoc _ m'.stored]
          exact (hmoved.append_left _).append_right _

/-- Every step keeps the rounds, and none ends the program. -/
theorem Rounds.step (h : s.Rounds) (a : TimerAction Cb) (hapart : s.Apart a) :
    ∃ s', timerStep s a = .ok ((), s') ∧ s'.Rounds := by
  cases a with
  | starter =>
      obtain ⟨s', hstep, hs'⟩ := h.starterStep
      exact ⟨s', by rw [timerStep, hstep, ok_bind], hs'⟩
  | worker =>
      obtain ⟨s', hstep, hs'⟩ := h.workerStep hapart
      exact ⟨s', by rw [timerStep, hstep, ok_bind], hs'⟩
  | addTimer task =>
      obtain ⟨s', hstep, hs'⟩ := h.addTimer hapart
      exact ⟨s', by rw [timerStep, hstep, ok_bind], hs'⟩
  | removeTimer id => exact ⟨_, rfl, h.removeTimer id⟩
  | tick ms =>
      refine ⟨_, rfl, h.phase, h.kept, Nat.add_pos_left h.clock_pos ms, h.bounded, h.waits,
        fun task hw hcycled => ?_, h.settled, h.ids, h.right, h.pops⟩
      exact (h.due task hw hcycled).trans (Nat.le_add_right ..)

/-! ### Whole rounds -/

theorem Rounds.idle (h : s.Rounds) (hidle : s.starter = .idle) :
    s.worker = none ∧ s.running = false := by
  have hphase := h.phase
  rwa [Phase, hidle] at hphase

/-- Nothing may become of the tasks for any number of rounds: every thread tests `running_` before
it is set. -/
theorem passed_over (h : s.Rounds) (hidle : s.starter = .idle) (n : ℕ) :
    Reaches timerStep s { s with created := s.created + n, early := s.early + n } := by
  obtain ⟨hworker, hrunning⟩ := h.idle hidle
  have hround : ∀ n, Reaches timerStep
      { s with created := s.created + n, early := s.early + n }
      { s with created := s.created + (n + 1), early := s.early + (n + 1) } := by
    obtain ⟨timers, running, worker, starter, clock, created, early, vain, accepted, removed,
      popped, calls⟩ := s
    obtain rfl : worker = none := hworker
    obtain rfl : running = false := hrunning
    obtain rfl : starter = .idle := hidle
    exact fun n => ⟨[.starter, .starter, .worker, .starter, .starter, .starter, .starter], _, rfl⟩
  induction n with
  | zero => exact .refl s
  | succ n ih => exact ih.trans (hround n)

/-- In a round whose thread tests `running_` afterwards, the first task is called, if it is not
cyclic. -/
theorem called_next (h : s.Rounds) (hidle : s.starter = .idle)
    {entry : IdTimestampPair × TimerTask Cb} {rest : List (IdTimestampPair × TimerTask Cb)}
    (hdata : s.timers.data = entry :: rest) (hcycled : entry.2.cycled = false) :
    ∃ s', Reaches timerStep s s' ∧ s'.starter = .idle ∧ s'.timers.data = rest ∧
      s'.calls = s.calls ++ [⟨entry.2, s.clock + s.timeout, entry.2.callback⟩] := by
  obtain ⟨hworker, hrunning⟩ := h.idle hidle
  have hfire : entry.2.fire (s.clock + s.timeout) = entry.2.callback := by
    have hle : entry.2.expiredTime ≤ s.clock + s.timeout := h.le_timeout (by rw [hdata]; rfl)
    rw [TimerTask.fire, if_pos (by simpa [TimerTask.isExpired] using hle)]
  have hpop : s.timers.popTask (s.clock + s.timeout) =
      .ok (some entry.2, { s.timers with data := rest }) := by
    rw [TimerTaskMap.popTask, hdata]
    dsimp only
    rw [hcycled, if_neg Bool.false_ne_true]
  -- the thread sleeps until it is time
  have hasleep : Reaches timerStep s
      { s with running := true, worker := some (.sleep (s.clock + s.timeout)),
               starter := .started, clock := s.clock + s.timeout, created := s.created + 1 } := by
    obtain ⟨timers, running, worker, starter, clock, created, early, vain, accepted, removed,
      popped, calls⟩ := s
    obtain rfl : worker = none := hworker
    obtain rfl : running = false := hrunning
    obtain rfl : starter = .idle := hidle
    exact ⟨[.starter, .starter, .starter, .worker, .worker, .tick _], _, rfl⟩
  have hpopped : Reaches timerStep
      { s with running := true, worker := some (.sleep (s.clock + s.timeout)),
               starter := .started, clock := s.clock + s.timeout, created := s.created + 1 }
      { s with timers := { s.timers with data := rest }, running := true,
               worker := some (.call (some entry.2)), starter := .started,
               clock := s.clock + s.timeout, created := s.created + 1,
               popped := s.popped ++ [entry.2] } := by
    refine .single (a := .worker) (b := ()) ?_
    rw [timerStep, workerStep]
    dsimp only
    rw [if_pos (le_refl _), popFirst]
    dsimp only
    rw [hpop]
    rfl
  refine ⟨_, hasleep.trans (hpopped.trans ⟨[.worker, .starter, .starter, .starter], _, rfl⟩), rfl,
    rfl, ?_⟩
  show s.calls ++ [⟨entry.2, s.clock + s.timeout, entry.2.fire (s.clock + s.timeout)⟩] = _
  rw [hfire]

end TimerRounds

end LpNet
