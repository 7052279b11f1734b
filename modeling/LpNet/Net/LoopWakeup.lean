import LpNet.Net.Pipe
import LpNet.Net.Trigger

/-!
How the loop of a `TaskScheduler` is woken up.

`TaskScheduler::start` handles the trigger events and then waits in `handleEvent`. Other
threads post events and stop the loop, and write a byte to the wakeup pipe to end its wait.
`loopStep` is one step of the loop or of one of these threads. The pipe stays empty
(`Working.step`), and `woken_iff_undisturbed` says on which runs that does not matter.
-/

namespace LpNet

open Transition TaskScheduler

/-! ### The loop and the threads -/

inductive LoopPc
  /-- Before `start`, or after it has returned. -/
  | idle
  /-- At `while (running_)`. -/
  | test
  /-- In `handleTriggerEvent`, before a round. -/
  | round
  /-- In `handleTriggerEvent`, at `while (!trigger_events_->empty())`. -/
  | empty
  /-- At `timers_.start()` and `timers_.nextTimestamp()`. -/
  | timers
  /-- About to wait in `handleEvent`. -/
  | wait
  /-- In `wake`, before it reads. -/
  | wake
  /-- At `timers_.stop()`. -/
  | stopTimers
  deriving DecidableEq, Repr

inductive PosterPc (Ev : Type)
  | idle
  /-- At `trigger_events_->size() < kMaxTriggetEvents`; what to do otherwise. -/
  | size (cb : TriggerEvent Ev) (force : Option ℤ)
  /-- At the lock of `mutex_`. -/
  | lock (cb : TriggerEvent Ev)
  | push (cb : TriggerEvent Ev)
  | write
  /-- In `addTimer`, at the lock of `mutex_`. -/
  | lockTimer (cb : TriggerEvent Ev) (msTimeout : ℤ)
  | addTimer (cb : TriggerEvent Ev) (msTimeout : ℤ)
  /-- In `stop`, at `if (!running_)`. -/
  | stop
  /-- In `stop`, at `running_ = false`. -/
  | stopStore
  /-- In `stop`, before it writes. -/
  | stopWrite

inductive PosterCall (Ev : Type)
  | addTriggerEvent (cb : TriggerEvent Ev)
  | addTriggerEventForce (cb : TriggerEvent Ev) (msTimeout : ℤ)
  | stop

def PosterCall.entry {Ev : Type} : PosterCall Ev → PosterPc Ev
  | .addTriggerEvent cb => .size cb none
  | .addTriggerEventForce cb msTimeout => .size cb (some msTimeout)
  | .stop => .stop

structure LoopState (Ev K : Type) extends TaskScheduler Ev where
  running : Bool
  wakeupPipe : Pipe
  kernel : K
  /-- The thread that holds `mutex_`. -/
  mutex : Option ℕ
  loop : LoopPc
  threads : ℕ → PosterPc Ev

/-- A step of the loop, a call that a thread begins, or a step of a thread. `wakes` says whether
`handleEvent` runs `wake`. -/
inductive LoopAction (Ev : Type)
  | loop (wakes : Bool)
  | call (i : ℕ) (c : PosterCall Ev)
  | thread (i : ℕ)

namespace LoopState

variable {Ev K : Type}

def new (Ev : Type) (kernel : PipeKernel K) (k : K) (clock currTimerId : ℕ) : LoopState Ev K where
  toTaskScheduler := .new Ev clock currTimerId
  running := false
  wakeupPipe := (Pipe.create kernel k).1
  kernel := (Pipe.create kernel k).2
  mutex := none
  loop := .idle
  threads := fun _ => .idle

def kTriggetEvent : Byte := 1

/-- `wakeup_pipe_->write(&event, 1)`. -/
def writeEvent (kernel : PipeKernel K) (s : LoopState Ev K) : LoopState Ev K :=
  { s with kernel := (s.wakeupPipe.write kernel s.kernel [kTriggetEvent]).2 }

def goto (s : LoopState Ev K) (i : ℕ) (pc : PosterPc Ev) : LoopState Ev K :=
  { s with threads := Function.update s.threads i pc }

def loopRound (kernel : PipeKernel K) (s : LoopState Ev K) (wakes : Bool) :
    Except Fault (LoopState Ev K) :=
  match s.loop with
  | .idle => .ok (if s.running then s else { s with running := true, loop := .test })
  | .test => .ok { s with loop := if s.running then .round else .idle }
  | .round => do
      let (_, scheduler) ← s.toTaskScheduler.triggerRound
      .ok { s with toTaskScheduler := scheduler, loop := .empty }
  | .empty => .ok { s with loop := if s.triggerEvents.emptyInternal then .timers else .round }
  | .timers => .ok { s with loop := .wait }
  | .wait => .ok { s with loop := if wakes then .wake else .stopTimers }
  | .wake =>
      let (size, _, k) := s.wakeupPipe.read kernel s.kernel 10
      .ok { s with kernel := k, loop := if 0 < size then .wake else .stopTimers }
  | .stopTimers => .ok { s with loop := .test }

/-- A step of thread `i`. At a lock that is held it waits. -/
def posterStep (kernel : PipeKernel K) (s : LoopState Ev K) (i : ℕ) :
    Except Fault (LoopState Ev K) :=
  match s.threads i with
  | .idle => .ok s
  | .size cb force =>
      if s.triggerEvents.sizeInternal < kMaxTriggetEvents then .ok (s.goto i (.lock cb))
      else
        match force with
        | none => .ok (s.goto i .idle)
        | some msTimeout => .ok (s.goto i (.lockTimer cb msTimeout))
  | .lock cb => .ok (if s.mutex = none then { s with mutex := some i }.goto i (.push cb) else s)
  | .push cb =>
      .ok ({ s with triggerEvents := (s.triggerEvents.push cb).2 }.goto i .write)
  | .write => .ok ({ s.writeEvent kernel with mutex := none }.goto i .idle)
  | .lockTimer cb msTimeout =>
      .ok (if s.mutex = none then { s with mutex := some i }.goto i (.addTimer cb msTimeout) else s)
  | .addTimer cb msTimeout => do
      let task := TimerTask.new (some cb) (ofInt msTimeout) false s.clock s.currTimerId
      let scheduler := { s.toTaskScheduler with currTimerId := s.currTimerId + 1 }
      let (_, scheduler) ← scheduler.addTimer task
      .ok ({ s with toTaskScheduler := scheduler, mutex := none }.goto i .idle)
  | .stop => .ok (s.goto i (if s.running then .stopStore else .idle))
  | .stopStore => .ok ({ s with running := false }.goto i .stopWrite)
  | .stopWrite => .ok ((s.writeEvent kernel).goto i .idle)

def loopStep (kernel : PipeKernel K) (s : LoopState Ev K) :
    LoopAction Ev → Except Fault (Unit × LoopState Ev K)
  | .loop wakes => do
      let s ← s.loopRound kernel wakes
      .ok ((), s)
  | .call i c =>
      match s.threads i with
      | .idle => .ok ((), s.goto i c.entry)
      -- the thread is still in another call
      | _ => .ok ((), s)
  | .thread i => do
      let s ← s.posterStep kernel i
      .ok ((), s)

/-! ### The wakeup -/

/-- When the loop is about to wait although an event is queued or `running_` is false, there is a
byte to read from the descriptor of the wakeup channel. -/
def Woken (kernel : PipeKernel K) (s : LoopState Ev K) : Prop :=
  s.loop = .wait → s.queued ≠ [] ∨ s.running = false →
    0 < kernel.unread s.kernel s.wakeupPipe.readFd

/-- The loop comes to its wait with an empty queue and while it is to run, and no thread adds an
event or clears `running_` while it is there. -/
def Undisturbed (s : LoopState Ev K) : LoopAction Ev → Prop
  | .loop _ => s.loop = .timers → s.queued = [] ∧ s.running = true
  | .call _ _ => True
  | .thread i =>
      s.loop = .wait → (∀ cb, s.threads i ≠ .push cb) ∧ s.threads i ≠ .stopStore

/-- The queue is in order and the pipe is empty. -/
structure Working (kernel : PipeKernel K) (s : LoopState Ev K) : Prop where
  ring : s.triggerEvents.Wf
  capacity_eq : s.triggerEvents.capacity = kMaxTriggetEvents
  pipe : s.wakeupPipe.Idle kernel s.kernel

variable {kernel : PipeKernel K} {s s' : LoopState Ev K}

theorem new_working (k : K) (clock currTimerId : ℕ) :
    (new Ev kernel k clock currTimerId).Working kernel where
  ring := RingBuffer.new_wf (by decide) (by decide)
  capacity_eq := rfl
  pipe := Pipe.create_idle k

/-- Without a byte in the pipe the loop is woken only when nothing asks for it. -/
theorem Working.woken_iff (h : s.Working kernel) :
    s.Woken kernel ↔ (s.loop = .wait → s.queued = [] ∧ s.running = true) := by
  rw [Woken, h.pipe.empty]
  constructor
  · intro hwoken hwait
    refine ⟨?_, ?_⟩
    · by_contra hne
      exact absurd (hwoken hwait (.inl hne)) (Nat.lt_irrefl 0)
    · by_contra hnot
      exact absurd (hwoken hwait (.inr (Bool.eq_false_of_not_eq_true hnot))) (Nat.lt_irrefl 0)
  · rintro hquiet hwait (hne | hfalse)
    · exact absurd (hquiet hwait).1 hne
    · rw [(hquiet hwait).2] at hfalse
      cases hfalse

/-- A round of `handleTriggerEvent` takes from the queue and does nothing else. -/
theorem triggerRound_eq {called : List (TriggerEvent Ev)} {t t' : TaskScheduler Ev}
    (h : t.triggerRound = .ok (called, t')) :
    t' = { t with triggerEvents := t.triggerEvents.pop.2 } := by
  have hpop : t.popTrigger.2 = { t with triggerEvents := t.triggerEvents.pop.2 } := rfl
  rw [triggerRound] at h
  split at h <;> rename_i heq <;> rw [heq] at hpop <;> cases h <;> exact hpop

theorem loopRound_spec {wakes : Bool} (h : s.Working kernel)
    (hstep : s.loopRound kernel wakes = .ok s') :
    s'.Working kernel ∧ (s'.loop = .wait →
      s.loop = .timers ∧ s'.queued = s.queued ∧ s'.running = s.running) := by
  rw [loopRound] at hstep
  cases hloop : s.loop <;> rw [hloop] at hstep
  case idle =>
    injection hstep with hstep
    subst hstep
    split
    · exact ⟨h, fun hwait => by rw [hloop] at hwait; cases hwait⟩
    · exact ⟨⟨h.ring, h.capacity_eq, h.pipe⟩, fun hwait => by cases hwait⟩
  case test =>
    cases hstep
    refine ⟨⟨h.ring, h.capacity_eq, h.pipe⟩, fun hwait => ?_⟩
    dsimp only at hwait
    split at hwait <;> cases hwait
  case round =>
    rw [bind_eq_ok] at hstep
    obtain ⟨⟨called, t⟩, hround, hstep⟩ := hstep
    cases hstep
    rw [triggerRound_eq hround]
    refine ⟨⟨h.ring.pop, ?_, h.pipe⟩, fun hwait => by cases hwait⟩
    show s.triggerEvents.pop.2.capacity = kMaxTriggetEvents
    rw [← h.capacity_eq, RingBuffer.pop]
    split <;> rfl
  case empty =>
    cases hstep
    refine ⟨⟨h.ring, h.capacity_eq, h.pipe⟩, fun hwait => ?_⟩
    dsimp only at hwait
    split at hwait <;> cases hwait
  case timers =>
    cases hstep
    exact ⟨⟨h.ring, h.capacity_eq, h.pipe⟩, fun _ => ⟨rfl, rfl, rfl⟩⟩
  case wait =>
    cases hstep
    refine ⟨⟨h.ring, h.capacity_eq, h.pipe⟩, fun hwait => ?_⟩
    dsimp only at hwait
    split at hwait <;> cases hwait
  case wake =>
    rw [h.pipe.read_eq] at hstep
    cases hstep
    exact ⟨⟨h.ring, h.capacity_eq, h.pipe⟩, fun hwait => by cases hwait⟩
  case stopTimers =>
    cases hstep
    exact ⟨⟨h.ring, h.capacity_eq, h.pipe⟩, fun hwait => by cases hwait⟩

theorem Working.goto (h : s.Working kernel) (i : ℕ) (pc : PosterPc Ev) :
    (s.goto i pc).Working kernel := ⟨h.ring, h.capacity_eq, h.pipe⟩

theorem Working.writeEvent_eq (h : s.Working kernel) : s.writeEvent kernel = s := by
  rw [writeEvent, h.pipe.write_eq]

theorem posterStep_spec {i : ℕ} (h : s.Working kernel) (hstep : s.posterStep kernel i = .ok s') :
    s'.Working kernel ∧ s'.loop = s.loop ∧
      ((∀ cb, s.threads i ≠ .push cb) → s'.queued = s.queued) ∧
      (s.threads i ≠ .stopStore → s'.running = s.running) := by
  rw [posterStep] at hstep
  cases hpc : s.threads i <;> rw [hpc] at hstep
  case idle =>
    cases hstep
    exact ⟨h, rfl, fun _ => rfl, fun _ => rfl⟩
  case size cb force =>
    dsimp only at hstep
    split at hstep
    · cases hstep
      exact ⟨h.goto .., rfl, fun _ => rfl, fun _ => rfl⟩
    · cases force <;> cases hstep <;> exact ⟨h.goto .., rfl, fun _ => rfl, fun _ => rfl⟩
  case lock cb =>
    cases hstep
    split
    · exact ⟨⟨h.ring, h.capacity_eq, h.pipe⟩, rfl, fun _ => rfl, fun _ => rfl⟩
    · exact ⟨h, rfl, fun _ => rfl, fun _ => rfl⟩
  case push cb =>
    cases hstep
    refine ⟨⟨h.ring.push cb, ?_, h.pipe⟩, rfl, fun hne => absurd rfl (hne cb), fun _ => rfl⟩
    show (s.triggerEvents.push cb).2.capacity = kMaxTriggetEvents
    rw [RingBuffer.push_of_wf h.ring]
    exact h.capacity_eq
  case write =>
    rw [h.writeEvent_eq] at hstep
    cases hstep
    exact ⟨⟨h.ring, h.capacity_eq, h.pipe⟩, rfl, fun _ => rfl, fun _ => rfl⟩
  case lockTimer cb msTimeout =>
    cases hstep
    split
    · exact ⟨⟨h.ring, h.capacity_eq, h.pipe⟩, rfl, fun _ => rfl, fun _ => rfl⟩
    · exact ⟨h, rfl, fun _ => rfl, fun _ => rfl⟩
  case addTimer cb msTimeout =>
    obtain ⟨⟨id, scheduler⟩, hadd, hstep⟩ := bind_eq_ok.mp hstep
    obtain ⟨timers, -, -, rfl⟩ := addTimer_eq_ok.mp hadd
    cases hstep
    exact ⟨⟨h.ring, h.capacity_eq, h.pipe⟩, rfl, fun _ => rfl, fun _ => rfl⟩
  case stop =>
    cases hstep
    exact ⟨h.goto .., rfl, fun _ => rfl, fun _ => rfl⟩
  case stopStore =>
    cases hstep
    exact ⟨⟨h.ring, h.capacity_eq, h.pipe⟩, rfl, fun _ => rfl, fun hne => absurd rfl hne⟩
  case stopWrite =>
    rw [h.writeEvent_eq] at hstep
    cases hstep
    exact ⟨h.goto .., rfl, fun _ => rfl, fun _ => rfl⟩

theorem queued_push {i : ℕ} {cb : TriggerEvent Ev} (h : s.Working kernel)
    (hpc : s.threads i = .push cb) (hnil : s.queued = []) :
    ∃ s', s.posterStep kernel i = .ok s' ∧ s'.queued = [cb] := by
  have hsize : s.triggerEvents.sizeInternal = 0 := by
    rw [← RingBuffer.contents_length]
    exact List.length_eq_zero_iff.mpr hnil
  have hcontents := RingBuffer.push_contents h.ring cb
  rw [if_pos (by rw [hsize, h.capacity_eq]; decide)] at hcontents
  rw [posterStep, hpc]
  refine ⟨_, rfl, ?_⟩
  show (s.triggerEvents.push cb).2.contents = [cb]
  rw [hcontents]
  show s.queued ++ [cb] = [cb]
  rw [hnil, List.nil_append]

/-- No step of anyone leaves a byte in the pipe. -/
theorem Working.step {a : LoopAction Ev} (h : s.Working kernel)
    (hstep : loopStep kernel s a = .ok ((), s')) : s'.Working kernel := by
  cases a with
  | loop wakes =>
      rw [loopStep, bind_eq_ok] at hstep
      obtain ⟨t, hround, hstep⟩ := hstep
      cases hstep
      exact (loopRound_spec h hround).1
  | call i c =>
      rw [loopStep] at hstep
      split at hstep <;> cases hstep
      · exact h.goto ..
      · exact h
  | thread i =>
      rw [loopStep, bind_eq_ok] at hstep
      obtain ⟨t, hposter, hstep⟩ := hstep
      cases hstep
      exact (posterStep_spec h hposter).1

/-- The pipe is empty, and nothing asks for a byte. -/
def Asleep (kernel : PipeKernel K) (s : LoopState Ev K) : Prop :=
  s.Working kernel ∧ (s.loop = .wait → s.queued = [] ∧ s.running = true)

theorem Asleep.step {a : LoopAction Ev} (h : s.Asleep kernel) (hfree : s.Undisturbed a)
    (hstep : loopStep kernel s a = .ok ((), s')) : s'.Asleep kernel := by
  refine ⟨h.1.step hstep, fun hwait => ?_⟩
  cases a with
  | loop wakes =>
      rw [loopStep, bind_eq_ok] at hstep
      obtain ⟨t, hround, hstep⟩ := hstep
      cases hstep
      obtain ⟨htimers, hqueued, hrunning⟩ := (loopRound_spec h.1 hround).2 hwait
      rw [hqueued, hrunning]
      exact hfree htimers
  | call i c =>
      rw [loopStep] at hstep
      split at hstep <;> cases hstep <;> exact h.2 hwait
  | thread i =>
      rw [loopStep, bind_eq_ok] at hstep
      obtain ⟨t, hposter, hstep⟩ := hstep
      cases hstep
      obtain ⟨-, hloop, hqueued, hrunning⟩ := posterStep_spec h.1 hposter
      rw [hloop] at hwait
      obtain ⟨hpush, hstore⟩ := hfree hwait
      rw [hqueued hpush, hrunning hstore]
      exact h.2 hwait

/-- Any other step makes the loop wait for a byte that nobody writes. -/
theorem Asleep.broken {a : LoopAction Ev} (h : s.Asleep kernel) (hfree : ¬ s.Undisturbed a) :
    ∃ s', loopStep kernel s a = .ok ((), s') ∧ ¬ s'.Woken kernel := by
  cases a with
  | loop wakes =>
      obtain ⟨htimers, hasks⟩ := Classical.not_imp.mp hfree
      have hround : s.loopRound kernel wakes = .ok { s with loop := .wait } := by
        rw [loopRound, htimers]
      refine ⟨{ s with loop := .wait }, by rw [loopStep, hround, ok_bind], ?_⟩
      rw [((loopRound_spec h.1 hround).1).woken_iff]
      exact fun hquiet => hasks (hquiet rfl)
  | call i c => exact absurd trivial hfree
  | thread i =>
      obtain ⟨hwait, hasks⟩ := Classical.not_imp.mp hfree
      have hstep : ∃ s', s.posterStep kernel i = .ok s' ∧
          ¬ (s'.queued = [] ∧ s'.running = true) := by
        by_cases hpush : ∀ cb, s.threads i ≠ .push cb
        case neg =>
          obtain ⟨cb, hpc⟩ := not_forall_not.mp hpush
          obtain ⟨s', hposter, hqueued⟩ := queued_push h.1 hpc (h.2 hwait).1
          refine ⟨s', hposter, fun hquiet => ?_⟩
          rw [hqueued] at hquiet
          exact absurd hquiet.1 (List.cons_ne_nil cb [])
        case pos =>
          have hpc : s.threads i = .stopStore := by
            by_contra hne
            exact hasks ⟨hpush, hne⟩
          refine ⟨{ s with running := false }.goto i .stopWrite, by rw [posterStep, hpc], ?_⟩
          exact fun hquiet => absurd hquiet.2 Bool.false_ne_true
      obtain ⟨s', hposter, hloud⟩ := hstep
      obtain ⟨hworking, hloop, -⟩ := posterStep_spec h.1 hposter
      refine ⟨s', by rw [loopStep, hposter, ok_bind], ?_⟩
      rw [hworking.woken_iff, hloop]
      exact fun hquiet => hloud (hquiet hwait)

/-- In a run of the loop and any number of threads no wakeup is lost exactly when none is needed:
the loop comes to its wait with an empty queue while it is to run, and no thread adds an event or
clears `running_` while it is there. -/
theorem woken_iff_undisturbed (kernel : PipeKernel K) (k : K) (clock currTimerId : ℕ)
    (actions : List (LoopAction Ev)) :
    AlongStates (loopStep kernel) (Woken kernel) (new Ev kernel k clock currTimerId) actions ↔
      Along (loopStep kernel) Undisturbed (new Ev kernel k clock currTimerId) actions := by
  refine alongStates_iff_along (V := fun _ _ => True) (I := Asleep kernel)
    (fun _ _ _ _ h _ hfree hstep => h.step hfree hstep) (fun s a h _ hfree => ?_)
    (fun _ h => h.1.woken_iff.mpr h.2) ⟨new_working k clock currTimerId, fun h => by cases h⟩
    (along_of_forall_mem fun _ _ => trivial)
  obtain ⟨s', hstep, hnot⟩ := h.broken hfree
  exact ⟨(), s', hstep, hnot⟩

/-- The loop waits, a thread posts an event and returns, and there is nothing to wake the
loop up. -/
theorem posted_event_wakes_nobody : ∃ answers s,
    run (loopStep .onePipe) (new Unit .onePipe () 0 1)
        (List.replicate 5 (.loop false) ++
          [.call 0 (.addTriggerEvent (some ())), .thread 0, .thread 0, .thread 0, .thread 0]) =
      .ok (answers, s) ∧
    s.threads 0 = .idle ∧ s.loop = .wait ∧ ¬ s.Woken .onePipe := by
  refine ⟨_, _, rfl, rfl, rfl, fun hwoken => ?_⟩
  refine absurd (hwoken rfl (.inl fun hnil => ?_)) (Nat.lt_irrefl 0)
  have hlen := congrArg List.length hnil
  rw [queued, RingBuffer.contents_length] at hlen
  exact absurd hlen (by decide)

end LoopState

end LpNet
