import LpNet.Lib.Transition
import LpNet.Net.TaskScheduler

/-!
What becomes of the trigger events that a `TaskScheduler` accepts.

`triggerStep` performs a call and keeps three logs next to the scheduler: the
callbacks it accepted, those that ran from the queue and those that a timer ran.
`ExactlyOnce` says that every accepted callback is in one place, and in order.
The limit on the queue is the capacity of the ring, which cannot be filled: an
event that takes the last cell empties the queue, and `executedOnce_iff` says that
nothing else loses one.
-/

namespace LpNet

open Transition

namespace TaskScheduler

variable {Ev : Type}

/-- One round of the loop of `handleTriggerEvent`: the callback it calls, if any. -/
def triggerRound (s : TaskScheduler Ev) :
    Except Fault (List (TriggerEvent Ev) × TaskScheduler Ev) :=
  match s.popTrigger with
  | (none, s) => .ok ([], s)
  | (some none, _) => .error .badFunctionCall
  | (some (some ev), s) => .ok ([some ev], s)

/-- `handleTriggerEvent()`, with a number of rounds for its loop: the callbacks it calls. -/
def handleTriggerEvent : ℕ → TaskScheduler Ev →
    Except Fault (List (TriggerEvent Ev) × TaskScheduler Ev)
  | 0, _ => .error .diverges
  | rounds + 1, s => do
      let (called, s) ← s.triggerRound
      if s.triggerEvents.emptyInternal then .ok (called, s)
      else do
        let (rest, s) ← handleTriggerEvent rounds s
        .ok (called ++ rest, s)

/-- The callbacks in the timer set. -/
def timed (s : TaskScheduler Ev) : List (TriggerEvent Ev) :=
  s.timers.data.filterMap fun entry => entry.2.callback

/-! ### What one call does -/

variable {s s' : TaskScheduler Ev} {called : List (TriggerEvent Ev)}

theorem Ready.timed_eq (h : s.Ready) : s.timed = [] := by
  rw [timed, h.timers_eq, List.filterMap_nil]

theorem Ready.queued_lt (h : s.Ready) : s.queued.length < kMaxTriggetEvents := by
  rw [queued, RingBuffer.contents_length, ← h.capacity_eq]
  exact h.ring.size_lt

theorem addTriggerEvent_eq (h : s.Ready) (cb : TriggerEvent Ev) (msTimeout : ℤ) :
    s.addTriggerEvent cb = s.addTriggerEventForce cb msTimeout := by
  have hsize := h.ring.size_lt
  rw [h.capacity_eq] at hsize
  rw [addTriggerEventForce_eq h, addTriggerEvent, if_pos hsize]

/-- An event goes to the end of the queue, or empties it when it takes the last cell. -/
theorem queued_force (h : s.Ready) (cb : TriggerEvent Ev) (msTimeout : ℤ) :
    (s.addTriggerEventForce cb msTimeout).2.queued =
      if s.queued.length + 1 < kMaxTriggetEvents then s.queued ++ [cb] else [] := by
  rw [addTriggerEventForce_eq h]
  simp only [queued, RingBuffer.push_contents h.ring, RingBuffer.contents_length, h.capacity_eq]

theorem triggerRound_spec (h : s.Ready) (hround : s.triggerRound = .ok (called, s')) :
    s'.Ready ∧ s.queued = called ++ s'.queued := by
  rw [triggerRound] at hround
  cases hq : s.queued with
  | nil =>
      rw [popTrigger_of_nil h hq] at hround
      injection hround with hround
      obtain ⟨rfl, rfl⟩ := Prod.mk.inj hround
      exact ⟨h, hq.symm⟩
  | cons cb rest =>
      obtain ⟨t, hpop, hrest, hready⟩ := popTrigger_of_cons h hq
      rw [hpop] at hround
      cases cb with
      | none => cases hround
      | some ev =>
          injection hround with hround
          obtain ⟨rfl, rfl⟩ := Prod.mk.inj hround
          exact ⟨hready, by rw [hrest]; rfl⟩

theorem triggerRound_ne_diverges (s : TaskScheduler Ev) :
    s.triggerRound ≠ .error .diverges := by
  rw [triggerRound]
  split <;> simp

/-- A round that ends has called something unless the queue was empty. -/
theorem triggerRound_called_ne_nil (h : s.Ready) (hround : s.triggerRound = .ok (called, s'))
    (hne : s.queued ≠ []) : called ≠ [] := by
  obtain ⟨cb, rest, hq⟩ := List.exists_cons_of_ne_nil hne
  obtain ⟨t, hpop, -⟩ := popTrigger_of_cons h hq
  rw [triggerRound, hpop] at hround
  cases cb with
  | none => cases hround
  | some ev =>
      injection hround with hround
      rw [← (Prod.mk.inj hround).1]
      exact List.cons_ne_nil _ _

theorem handleTriggerEvent_spec (rounds : ℕ) (h : s.Ready)
    (hhandle : handleTriggerEvent rounds s = .ok (called, s')) :
    s'.Ready ∧ s.queued = called ∧ s'.queued = [] := by
  induction rounds generalizing s called with
  | zero => cases hhandle
  | succ rounds ih =>
      rw [handleTriggerEvent, bind_eq_ok] at hhandle
      obtain ⟨⟨first, t⟩, hround, hhandle⟩ := hhandle
      obtain ⟨hready, hfirst⟩ := triggerRound_spec h hround
      dsimp only at hhandle
      split at hhandle
      case isTrue hempty =>
        injection hhandle with hhandle
        obtain ⟨rfl, rfl⟩ := Prod.mk.inj hhandle
        have hnil : t.queued = [] := (RingBuffer.contents_eq_nil_iff hready.ring).mpr hempty
        rw [hnil, List.append_nil] at hfirst
        exact ⟨hready, hfirst, hnil⟩
      case isFalse =>
        rw [bind_eq_ok] at hhandle
        obtain ⟨⟨rest, t'⟩, hloop, hhandle⟩ := hhandle
        injection hhandle with hhandle
        obtain ⟨rfl, rfl⟩ := Prod.mk.inj hhandle
        obtain ⟨hready', hrest, hnil⟩ := ih hready hloop
        exact ⟨hready', by rw [hfirst, hrest], hnil⟩

theorem handleTriggerEvent_ne_diverges (rounds : ℕ) (h : s.Ready)
    (hrounds : s.queued.length < rounds) : handleTriggerEvent rounds s ≠ .error .diverges := by
  induction rounds generalizing s with
  | zero => exact absurd hrounds (Nat.not_lt_zero _)
  | succ rounds ih =>
      rw [handleTriggerEvent]
      refine bind_ne_error (triggerRound_ne_diverges s) fun r hround => ?_
      obtain ⟨first, t⟩ := r
      obtain ⟨hready, hfirst⟩ := triggerRound_spec h hround
      have hlen : s.queued.length = first.length + t.queued.length := by
        rw [hfirst, List.length_append]
      dsimp only
      split
      case isTrue => simp
      case isFalse hmore =>
        -- the queue is not empty even now, so that the round took an event from it
        have hne : t.queued ≠ [] := fun hnil =>
          hmore ((RingBuffer.contents_eq_nil_iff hready.ring).mp hnil)
        have hcalled := triggerRound_called_ne_nil h hround fun hnil =>
          hne (List.append_eq_nil_iff.mp (hfirst.symm.trans hnil)).2
        have hpos := List.length_pos_of_ne_nil hcalled
        exact bind_ne_error (ih hready (by omega)) fun r _ => by simp

end TaskScheduler

/-! ### Runs with their logs -/

open TaskScheduler

structure TriggerLog (Ev : Type) extends TaskScheduler Ev where
  /-- The callbacks for which a call returned true, in order. -/
  accepted : List (TriggerEvent Ev)
  /-- The callbacks called from the queue, in order. -/
  executed : List (TriggerEvent Ev)
  /-- The callbacks called by a timer. -/
  fired : List (TriggerEvent Ev)

inductive TriggerOp (Ev : Type)
  | addTriggerEvent (cb : TriggerEvent Ev)
  | addTriggerEventForce (cb : TriggerEvent Ev) (msTimeout : ℤ)
  /-- A call of `handleTriggerEvent`. -/
  | handle
  /-- One round of its loop, between whose rounds other threads may add events. -/
  | round
  /-- What `Timer::run` does with the timers at a time. -/
  | timer (now : ℕ)

namespace TriggerLog

variable {Ev : Type}

def new (Ev : Type) (clock currTimerId : ℕ) : TriggerLog Ev where
  toTaskScheduler := .new Ev clock currTimerId
  accepted := []
  executed := []
  fired := []

def record (w : TriggerLog Ev) (cb : TriggerEvent Ev) (r : Bool × TaskScheduler Ev) :
    TriggerLog Ev :=
  { w with toTaskScheduler := r.2, accepted := if r.1 then w.accepted ++ [cb] else w.accepted }

/-- Perform a step. The calls that add an event answer what they return. -/
def triggerStep (w : TriggerLog Ev) :
    TriggerOp Ev → Except Fault (Option Bool × TriggerLog Ev)
  | .addTriggerEvent cb =>
      let r := w.toTaskScheduler.addTriggerEvent cb
      .ok (some r.1, w.record cb r)
  | .addTriggerEventForce cb msTimeout =>
      let r := w.toTaskScheduler.addTriggerEventForce cb msTimeout
      .ok (some r.1, w.record cb r)
  | .handle => do
      let (called, s) ← handleTriggerEvent kMaxTriggetEvents w.toTaskScheduler
      .ok (none, { w with toTaskScheduler := s, executed := w.executed ++ called })
  | .round => do
      let (called, s) ← w.toTaskScheduler.triggerRound
      .ok (none, { w with toTaskScheduler := s, executed := w.executed ++ called })
  | .timer now => do
      let (cb, s) ← { w.toTaskScheduler with clock := now }.popTimer
      .ok (none, { w with toTaskScheduler := s, fired := w.fired ++ cb.toList })

/-- Every accepted callback was executed or is waiting, once, and those from the queue come in
the order they were accepted. -/
structure ExactlyOnce (w : TriggerLog Ev) : Prop where
  perm : w.accepted.Perm ((w.executed ++ w.queued) ++ (w.fired ++ w.timed))
  order : (w.executed ++ w.queued).Sublist w.accepted

/-- The step does not add an event that takes the last cell of the queue. -/
def LeavesSpare (w : TriggerLog Ev) : TriggerOp Ev → Prop
  | .addTriggerEvent _ | .addTriggerEventForce _ _ => w.queued.length + 1 < kMaxTriggetEvents
  | .handle | .round | .timer _ => True

/-- The queue works, and no timer was needed. -/
structure InOrder (w : TriggerLog Ev) : Prop where
  ready : w.Ready
  accepted_eq : w.accepted = w.executed ++ w.queued
  fired_eq : w.fired = []

variable {w w' : TriggerLog Ev}

theorem new_inOrder (clock currTimerId : ℕ) : (new Ev clock currTimerId).InOrder where
  ready := new_ready clock currTimerId
  accepted_eq := (new_queued clock currTimerId).symm
  fired_eq := rfl

theorem InOrder.exactlyOnce (h : w.InOrder) : w.ExactlyOnce where
  perm := by
    rw [h.fired_eq, h.ready.timed_eq, List.append_nil, List.append_nil, h.accepted_eq]
  order := by rw [h.accepted_eq]

/-- Every step leaves the ring in order, also one that empties it. -/
theorem triggerStep_ready {op : TriggerOp Ev} {answer : Option Bool} (h : w.Ready)
    (hstep : w.triggerStep op = .ok (answer, w')) : w'.Ready := by
  cases op with
  | addTriggerEvent cb =>
      rw [triggerStep, addTriggerEvent_eq h cb 0] at hstep
      cases hstep
      exact h.force cb 0
  | addTriggerEventForce cb msTimeout =>
      cases hstep
      exact h.force cb msTimeout
  | handle =>
      rw [triggerStep, bind_eq_ok] at hstep
      obtain ⟨⟨called, s⟩, hhandle, hstep⟩ := hstep
      cases hstep
      exact (handleTriggerEvent_spec _ h hhandle).1
  | round =>
      rw [triggerStep, bind_eq_ok] at hstep
      obtain ⟨⟨called, s⟩, hround, hstep⟩ := hstep
      cases hstep
      exact (triggerRound_spec h hround).1
  | timer now =>
      have h' : ({ w.toTaskScheduler with clock := now } : TaskScheduler Ev).Ready :=
        ⟨h.ring, h.capacity_eq, h.timers_eq⟩
      rw [triggerStep, popTimer_of_ready h'] at hstep
      cases hstep
      exact h'

theorem InOrder.record (h : w.InOrder) {cb : TriggerEvent Ev} {msTimeout : ℤ}
    (hspare : w.queued.length + 1 < kMaxTriggetEvents) :
    (w.record cb (w.toTaskScheduler.addTriggerEventForce cb msTimeout)).InOrder := by
  have hqueued := queued_force h.ready cb msTimeout
  rw [if_pos hspare] at hqueued
  refine ⟨h.ready.force cb msTimeout, ?_, h.fired_eq⟩
  rw [TriggerLog.record, hqueued, addTriggerEventForce_eq h.ready, if_pos rfl, h.accepted_eq,
    List.append_assoc]

/-- A step that leaves a cell of the queue unused keeps the logs in order. -/
theorem InOrder.step {op : TriggerOp Ev} {answer : Option Bool} (h : w.InOrder)
    (hspare : w.LeavesSpare op) (hstep : w.triggerStep op = .ok (answer, w')) : w'.InOrder := by
  cases op with
  | addTriggerEvent cb =>
      rw [triggerStep, addTriggerEvent_eq h.ready cb 0] at hstep
      cases hstep
      exact h.record hspare
  | addTriggerEventForce cb msTimeout =>
      cases hstep
      exact h.record hspare
  | handle =>
      have hready := triggerStep_ready h.ready hstep
      rw [triggerStep, bind_eq_ok] at hstep
      obtain ⟨⟨called, s⟩, hhandle, hstep⟩ := hstep
      cases hstep
      obtain ⟨-, hcalled, hnil⟩ := handleTriggerEvent_spec _ h.ready hhandle
      refine ⟨hready, ?_, h.fired_eq⟩
      rw [hnil, List.append_nil, ← hcalled]
      exact h.accepted_eq
  | round =>
      have hready := triggerStep_ready h.ready hstep
      rw [triggerStep, bind_eq_ok] at hstep
      obtain ⟨⟨called, s⟩, hround, hstep⟩ := hstep
      cases hstep
      obtain ⟨-, hcalled⟩ := triggerRound_spec h.ready hround
      refine ⟨hready, ?_, h.fired_eq⟩
      rw [List.append_assoc, ← hcalled]
      exact h.accepted_eq
  | timer now =>
      have hready := triggerStep_ready h.ready hstep
      have h' : ({ w.toTaskScheduler with clock := now } : TaskScheduler Ev).Ready :=
        ⟨h.ready.ring, h.ready.capacity_eq, h.ready.timers_eq⟩
      rw [triggerStep, popTimer_of_ready h'] at hstep
      cases hstep
      refine ⟨hready, h.accepted_eq, ?_⟩
      rw [h.fired_eq]
      rfl

theorem InOrder.lost (h : w.InOrder) {cb : TriggerEvent Ev} {msTimeout : ℤ}
    (hfull : ¬ w.queued.length + 1 < kMaxTriggetEvents) :
    ¬ (w.record cb (w.toTaskScheduler.addTriggerEventForce cb msTimeout)).ExactlyOnce := by
  have hqueued := queued_force h.ready cb msTimeout
  have htimed := (h.ready.force cb msTimeout).timed_eq
  rw [if_neg hfull] at hqueued
  rintro ⟨hperm, -⟩
  have hlen := hperm.length_eq
  rw [TriggerLog.record, hqueued, htimed, addTriggerEventForce_eq h.ready, if_pos rfl] at hlen
  dsimp only at hlen
  rw [h.accepted_eq, h.fired_eq] at hlen
  simp only [List.length_append, List.length_nil, List.length_cons] at hlen
  omega

/-- A step that takes the last cell loses a callback. -/
theorem InOrder.step_lost {op : TriggerOp Ev} (h : w.InOrder) (hfull : ¬ w.LeavesSpare op) :
    ∃ answer w', w.triggerStep op = .ok (answer, w') ∧ ¬ w'.ExactlyOnce := by
  cases op with
  | addTriggerEvent cb =>
      rw [triggerStep, addTriggerEvent_eq h.ready cb 0]
      exact ⟨_, _, rfl, h.lost hfull⟩
  | addTriggerEventForce cb msTimeout => exact ⟨_, _, rfl, h.lost hfull⟩
  | handle => exact absurd trivial hfull
  | round => exact absurd trivial hfull
  | timer now => exact absurd trivial hfull

theorem InOrder.exactlyOnce_iff (h : w.InOrder) (ops : List (TriggerOp Ev)) :
    AlongStates triggerStep ExactlyOnce w ops ↔ Along triggerStep LeavesSpare w ops :=
  alongStates_iff_along (V := fun _ _ => True)
    (fun _ _ _ _ h _ hspare hstep => h.step hspare hstep)
    (fun _ _ h _ hfull => h.step_lost hfull) (fun _ h => h.exactlyOnce) h
    (along_of_forall_mem fun _ _ => trivial)

/-- No loop over the queue runs forever. -/
theorem triggerStep_ne_diverges (h : w.Ready) (op : TriggerOp Ev) :
    w.triggerStep op ≠ .error .diverges := by
  cases op with
  | addTriggerEvent cb => simp [triggerStep]
  | addTriggerEventForce cb msTimeout => simp [triggerStep]
  | handle =>
      rw [triggerStep]
      exact bind_ne_error (handleTriggerEvent_ne_diverges _ h h.queued_lt) fun r _ => by simp
  | round =>
      rw [triggerStep]
      exact bind_ne_error (triggerRound_ne_diverges _) fun r _ => by simp
  | timer now =>
      have h' : ({ w.toTaskScheduler with clock := now } : TaskScheduler Ev).Ready :=
        ⟨h.ring, h.capacity_eq, h.timers_eq⟩
      simp [triggerStep, popTimer_of_ready h']

/-- Every loop over the queue ends, and in a run every accepted callback is executed or waiting
once, in order, in every state exactly when no event is added to a queue of
`kMaxTriggetEvents - 1`. -/
theorem executedOnce_iff (clock currTimerId : ℕ) (ops : List (TriggerOp Ev)) :
    run triggerStep (new Ev clock currTimerId) ops ≠ .error .diverges ∧
      (AlongStates triggerStep ExactlyOnce (new Ev clock currTimerId) ops ↔
        Along triggerStep LeavesSpare (new Ev clock currTimerId) ops) :=
  ⟨run_ne_error (I := fun w => w.Ready) (fun _ op h => triggerStep_ne_diverges h op)
      (fun _ _ _ _ h hstep => triggerStep_ready h hstep) (new_ready clock currTimerId) ops,
    (new_inOrder clock currTimerId).exactlyOnce_iff ops⟩

theorem InOrder.along_adds (h : w.InOrder) (cb : TriggerEvent Ev) (n : ℕ)
    (halong : Along triggerStep LeavesSpare w (List.replicate n (.addTriggerEvent cb))) :
    w.queued.length + n < kMaxTriggetEvents := by
  induction n generalizing w with
  | zero => exact h.ready.queued_lt
  | succ n ih =>
      rw [List.replicate_succ] at halong
      have hspare : w.queued.length + 1 < kMaxTriggetEvents := halong.1
      have hstep : w.triggerStep (.addTriggerEvent cb) =
          .ok (some true, w.record cb (w.toTaskScheduler.addTriggerEventForce cb 0)) := by
        rw [triggerStep, addTriggerEvent_eq h.ready cb 0, addTriggerEventForce_eq h.ready]
      have hrest := ih (h.record hspare) (halong.2 _ _ hstep)
      have hqueued := queued_force h.ready cb 0
      rw [if_pos hspare] at hqueued
      rw [TriggerLog.record, hqueued, List.length_append] at hrest
      simp only [List.length_cons, List.length_nil] at hrest
      omega

/-- As many events as the limit allows, and none of them is left. -/
theorem full_queue_loses_events :
    ¬ AlongStates triggerStep ExactlyOnce (new Unit 0 1)
      (List.replicate kMaxTriggetEvents (.addTriggerEvent (some ()))) := by
  rw [(new_inOrder 0 1).exactlyOnce_iff]
  intro halong
  have := (new_inOrder 0 1).along_adds (some ()) kMaxTriggetEvents halong
  omega

end TriggerLog

end LpNet
