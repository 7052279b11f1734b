import LpNet.Buffer.RingBuffer
import LpNet.Net.Channel
import LpNet.Timer.Map
import Mathlib.Data.List.AList

/-!
The class `TaskScheduler` with its trigger queue and its timers, and the channel
table that `SelectManager` adds to it.

A trigger event is an `std::function`, which may be empty. Writing to the wakeup
pipe only shortens the wait for the next event and is left out.
`addTriggerEventForce_eq` says that the timer behind a full queue is never used, since
`size()` stays below the capacity of the ring.
-/

namespace LpNet

/-- An `std::unordered_map` keyed by descriptors. -/
abbrev FdMap (V : Type) := AList fun _ : Sockfd => V

/-- `emplace(fd, v)`, which leaves an entry that is there. -/
def FdMap.emplace {V : Type} (m : FdMap V) (fd : Sockfd) (v : V) : FdMap V :=
  if fd ∈ m then m else m.insert fd v

theorem FdMap.lookup_insert_eq_some {V : Type} {m : FdMap V} {fd fd' : Sockfd} {v x : V}
    (h : (m.insert fd v).lookup fd' = some x) : fd' = fd ∧ x = v ∨ m.lookup fd' = some x := by
  by_cases heq : fd' = fd
  case pos =>
    rw [heq, AList.lookup_insert] at h
    exact .inl ⟨heq, (Option.some.inj h).symm⟩
  case neg =>
    rw [AList.lookup_insert_ne heq] at h
    exact .inr h

theorem FdMap.lookup_erase_eq_some {V : Type} {m : FdMap V} {fd fd' : Sockfd} {x : V}
    (h : (m.erase fd).lookup fd' = some x) : m.lookup fd' = some x := by
  by_cases heq : fd' = fd
  case pos =>
    rw [heq, AList.lookup_erase] at h
    cases h
  case neg => rwa [AList.lookup_erase_ne heq] at h

/-- `std::function<void()>`, by what its call does. -/
abbrev TriggerEvent (Ev : Type) := Option Ev

structure TaskScheduler (Ev : Type) where
  triggerEvents : RingBuffer (TriggerEvent Ev)
  timers : TimerTaskMap (TriggerEvent Ev)
  /-- What the clock says. -/
  clock : ℕ
  /-- `TimerTask::curr_timer_id`. -/
  currTimerId : ℕ

namespace TaskScheduler

variable {Ev : Type}

def kMaxTriggetEvents : ℕ := 50000

def kInvalidTimerId : ℕ := 2 ^ 64 - 1

def new (Ev : Type) (clock currTimerId : ℕ) : TaskScheduler Ev where
  triggerEvents := RingBuffer.new (TriggerEvent Ev) kMaxTriggetEvents
  timers := TimerTaskMap.new (TriggerEvent Ev) (2 ^ 64 - 1)
  clock := clock
  currTimerId := currTimerId

/-- `addTimer(task)`. The id goes through the `bool` that `Timer::addTimer` keeps it in. -/
def addTimer (s : TaskScheduler Ev) (task : TimerTask (TriggerEvent Ev)) :
    Except Fault (ℕ × TaskScheduler Ev) := do
  let (id, timers) ← s.timers.add task
  .ok ((id != 0).toNat, { s with timers := timers })

def removeTimer (s : TaskScheduler Ev) (timerId : ℕ) : TaskScheduler Ev :=
  let (_, timers) := s.timers.remove timerId
  { s with timers := timers }

def addTriggerEvent (s : TaskScheduler Ev) (callback : TriggerEvent Ev) :
    Bool × TaskScheduler Ev :=
  if s.triggerEvents.sizeInternal < kMaxTriggetEvents then
    (true, { s with triggerEvents := (s.triggerEvents.push callback).2 })
  else (false, s)

def addTriggerEventForce (s : TaskScheduler Ev) (cb : TriggerEvent Ev) (msTimeout : ℤ) :
    Bool × TaskScheduler Ev :=
  if s.triggerEvents.sizeInternal < kMaxTriggetEvents then
    (true, { s with triggerEvents := (s.triggerEvents.push cb).2 })
  else
    let task := TimerTask.new (some cb) (ofInt msTimeout) false s.clock s.currTimerId
    let s := { s with currTimerId := s.currTimerId + 1 }
    match s.addTimer task with
    | .ok (id, s) => (id != kInvalidTimerId, s)
    -- what the map does is left open, and the queue is never full
    | .error _ => (false, s)

/-- One round of the loop of `handleTriggerEvent`: the callback it pops, if any. -/
def popTrigger (s : TaskScheduler Ev) : Option (TriggerEvent Ev) × TaskScheduler Ev :=
  let (cb, ring) := s.triggerEvents.pop
  (cb, { s with triggerEvents := ring })

/-- What `Timer::run` does with the timers: it pops a task, and calls it when it has expired. -/
def popTimer (s : TaskScheduler Ev) :
    Except Fault (Option (TriggerEvent Ev) × TaskScheduler Ev) := do
  let (task, timers) ← s.timers.popTask s.clock
  .ok (task.bind fun task => task.fire s.clock, { s with timers := timers })

/-! ### The trigger queue -/

/-- The ring is in order, and no timer was needed. -/
structure Ready (s : TaskScheduler Ev) : Prop where
  ring : s.triggerEvents.Wf
  capacity_eq : s.triggerEvents.capacity = kMaxTriggetEvents
  timers_eq : s.timers.data = []

def queued (s : TaskScheduler Ev) : List (TriggerEvent Ev) := s.triggerEvents.contents

variable {s : TaskScheduler Ev}

theorem addTimer_eq_ok {s' : TaskScheduler Ev} {task : TimerTask (TriggerEvent Ev)} {id : ℕ} :
    s.addTimer task = .ok (id, s') ↔
      ∃ timers, s.timers.add task = .ok (task.id, timers) ∧ id = (task.id != 0).toNat ∧
        s' = { s with timers := timers } := by
  rw [addTimer, Transition.bind_eq_ok]
  constructor
  · rintro ⟨⟨timerId, timers⟩, hadd, hs'⟩
    obtain ⟨data, -, rfl, -⟩ := TimerTaskMap.add_eq_ok.mp hadd
    cases hs'
    exact ⟨timers, hadd, rfl, rfl⟩
  · rintro ⟨timers, hadd, rfl, rfl⟩
    exact ⟨(task.id, timers), hadd, rfl⟩

theorem new_ready (clock currTimerId : ℕ) : (new Ev clock currTimerId).Ready where
  ring := RingBuffer.new_wf (by decide) (by decide)
  capacity_eq := rfl
  timers_eq := rfl

theorem new_queued (clock currTimerId : ℕ) : (new Ev clock currTimerId).queued = [] :=
  RingBuffer.new_contents (by decide) (by decide)

/-- The queue always takes the event: its timer branch is not reached. -/
theorem addTriggerEventForce_eq (h : s.Ready) (cb : TriggerEvent Ev) (msTimeout : ℤ) :
    s.addTriggerEventForce cb msTimeout =
      (true, { s with triggerEvents := (s.triggerEvents.push cb).2 }) := by
  have hsize := h.ring.size_lt
  rw [h.capacity_eq] at hsize
  rw [addTriggerEventForce, if_pos hsize]

theorem Ready.force (h : s.Ready) (cb : TriggerEvent Ev) (msTimeout : ℤ) :
    (s.addTriggerEventForce cb msTimeout).2.Ready := by
  rw [addTriggerEventForce_eq h]
  refine ⟨h.ring.push cb, ?_, h.timers_eq⟩
  rw [RingBuffer.push_of_wf h.ring]
  exact h.capacity_eq

/-- An event is put at the end, unless it fills the ring, which then looks empty. -/
theorem force_queued (h : s.Ready) (cb : TriggerEvent Ev) (msTimeout : ℤ) :
    (s.addTriggerEventForce cb msTimeout).2.queued = s.queued ++ [cb] ∨
      (s.addTriggerEventForce cb msTimeout).2.queued = [] := by
  rw [addTriggerEventForce_eq h]
  simp only [queued, RingBuffer.push_contents h.ring]
  split
  · exact .inl rfl
  · exact .inr rfl

theorem popTrigger_of_nil (h : s.Ready) (hnil : s.queued = []) : s.popTrigger = (none, s) := by
  rw [popTrigger, RingBuffer.pop_of_nil h.ring hnil]

theorem popTrigger_of_cons (h : s.Ready) {cb : TriggerEvent Ev} {rest : List (TriggerEvent Ev)}
    (hcons : s.queued = cb :: rest) :
    ∃ s', s.popTrigger = (some cb, s') ∧ s'.queued = rest ∧ s'.Ready := by
  obtain ⟨ring, hpop, hrest, hwf⟩ := RingBuffer.pop_of_cons h.ring hcons
  refine ⟨{ s with triggerEvents := ring }, ?_, hrest, hwf, ?_, h.timers_eq⟩
  · rw [popTrigger, hpop]
  · have hcap := h.capacity_eq
    rw [RingBuffer.pop] at hpop
    split at hpop
    · cases hpop
    · injection hpop with _ hring
      rw [← hring]
      exact hcap

theorem popTimer_of_ready (h : s.Ready) : s.popTimer = .ok (none, s) := by
  rw [popTimer, TimerTaskMap.popTask, h.timers_eq]
  rfl

end TaskScheduler

/-! ### The channel table -/

/-- `SelectManager`: the scheduler, the flags that have the descriptor sets rebuilt, and the
channels by descriptor. -/
structure SelectManager (Ev Ch : Type) extends TaskScheduler Ev where
  isFdReadReset : Bool
  isFdWriteReset : Bool
  isFdExpReset : Bool
  channels : FdMap Ch

namespace SelectManager

variable {Ev Ch : Type}

def new (Ev Ch : Type) (clock currTimerId : ℕ) : SelectManager Ev Ch where
  toTaskScheduler := .new Ev clock currTimerId
  isFdReadReset := false
  isFdWriteReset := false
  isFdExpReset := false
  channels := ∅

/-- `updateChannel(pChannel)` for the channel `ch` with state `view`. -/
def updateChannel (m : SelectManager Ev Ch) (ch : Ch) (view : Channel) : SelectManager Ev Ch :=
  if view.sockfd ∈ m.channels then
    if view.isNoneEvent then
      { m with isFdReadReset := true, isFdWriteReset := true, isFdExpReset := true,
               channels := m.channels.erase view.sockfd }
    else { m with isFdWriteReset := true }
  else if view.isNoneEvent then m
  else
    { m with isFdReadReset := true, isFdWriteReset := true, isFdExpReset := true,
             channels := m.channels.emplace view.sockfd ch }

def removeChannel (m : SelectManager Ev Ch) (fd : Sockfd) : SelectManager Ev Ch :=
  if fd ∈ m.channels then
    { m with isFdReadReset := true, isFdWriteReset := true, isFdExpReset := true,
             channels := m.channels.erase fd }
  else m

/-! The calls that `SelectManager` inherits. -/

def addTriggerEventForce (m : SelectManager Ev Ch) (cb : TriggerEvent Ev) (msTimeout : ℤ) :
    Bool × SelectManager Ev Ch :=
  let r := m.toTaskScheduler.addTriggerEventForce cb msTimeout
  (r.1, { m with toTaskScheduler := r.2 })

def popTrigger (m : SelectManager Ev Ch) : Option (TriggerEvent Ev) × SelectManager Ev Ch :=
  let r := m.toTaskScheduler.popTrigger
  (r.1, { m with toTaskScheduler := r.2 })

def popTimer (m : SelectManager Ev Ch) :
    Except Fault (Option (TriggerEvent Ev) × SelectManager Ev Ch) := do
  let (task, scheduler) ← m.toTaskScheduler.popTimer
  .ok (task, { m with toTaskScheduler := scheduler })

variable (m : SelectManager Ev Ch)

@[simp] theorem updateChannel_toTaskScheduler (ch : Ch) (view : Channel) :
    (m.updateChannel ch view).toTaskScheduler = m.toTaskScheduler := by
  rw [updateChannel]
  split
  · split <;> rfl
  · split <;> rfl

@[simp] theorem removeChannel_toTaskScheduler (fd : Sockfd) :
    (m.removeChannel fd).toTaskScheduler = m.toTaskScheduler := by
  rw [removeChannel]
  split <;> rfl

@[simp] theorem addTriggerEventForce_toTaskScheduler (cb : TriggerEvent Ev) (msTimeout : ℤ) :
    (m.addTriggerEventForce cb msTimeout).2.toTaskScheduler =
      (m.toTaskScheduler.addTriggerEventForce cb msTimeout).2 := rfl

end SelectManager

end LpNet
