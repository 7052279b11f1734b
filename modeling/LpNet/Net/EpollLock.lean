import LpNet.Net.EpollManager

/-!
Who locks the `mutex_` of an `EpollManager`.

`control`, `updateChannel`, `removeChannel` and `handleEvent` each hold it until they
return, and `std::mutex` is not recursive. `control` calls `removeChannel` for a `DEL`
that the kernel has granted, and `handleEvent` calls the callbacks of the channels,
which are free to call the manager. Each function is given here with what its thread
holds when it is called; `relock_free_iff` is about all sequences of calls and all
callbacks.
-/

namespace LpNet

open Transition

/-- A call of the manager, by the user or by a callback. -/
inductive ManagerCall (Ch : Type)
  | updateChannel (ch : Ch)
  | removeChannel (sockfd : Sockfd)
  | control (sockfd : Sockfd) (op : EventCTL) (events : EventMask) (granted : Bool)

/-- What the callbacks do during a call of `handleEvent`: for the place of an event in the batch
and a callback of its channel, the calls of the manager that it makes. -/
abbrev Callbacks (Ch : Type) := ℕ → ChannelCallback → List (ManagerCall Ch)

inductive LockOp (Ch : Type)
  | call (c : ManagerCall Ch)
  /-- The descriptor is closed, and the kernel stops watching it. -/
  | close (fd : Sockfd)
  | handleEvent (outcome : WaitOutcome) (callbacks : Callbacks Ch)

namespace EpollManager

variable {Ch : Type}

/-- `Mutex::lock locker(mutex_)`, where `locked` says that the thread holds `mutex_`. -/
def lock (locked : Bool) : Except EpollFault Unit := if locked then .error .deadlock else .ok ()

def perform [DecidableEq Ch] (m : EpollManager Ch) (locked : Bool) :
    ManagerCall Ch → Except EpollFault (EpollManager Ch)
  | .updateChannel ch => do
      lock locked
      .ok (m.updateChannel ch)
  | .removeChannel sockfd => m.removeChannel sockfd locked
  | .control sockfd op events granted => do
      lock locked
      let (_, m) ← m.control sockfd op events granted
      .ok m

def performAll [DecidableEq Ch] (locked : Bool) :
    EpollManager Ch → List (ManagerCall Ch) → Except EpollFault (EpollManager Ch)
  | m, [] => .ok m
  | m, c :: rest => do
      let m ← m.perform locked c
      performAll locked m rest

/-- The loop of `handleEvent` from the event in place `i` on: each channel runs the callbacks for
its events, and `mutex_` is held. -/
def dispatchCalls [DecidableEq Ch] (callbacks : Callbacks Ch) :
    EpollManager Ch → ℕ → List EpollEvent → Except EpollFault (EpollManager Ch)
  | m, _, [] => .ok m
  | m, i, event :: rest =>
      match m.channels.index event.fd with
      | (none, _) => .error .nullChannel
      | (some _, channels) => do
          let m ← performAll true { m with channels := channels }
            ((Channel.handleEvent event.events).flatMap (callbacks i))
          dispatchCalls callbacks m (i + 1) rest

def lockStep [DecidableEq Ch] (m : EpollManager Ch) :
    LockOp Ch → Except EpollFault (Unit × EpollManager Ch)
  | .call c => do
      let m ← m.perform false c
      .ok ((), m)
  | .close fd => .ok ((), { m with interest := m.interest.erase fd })
  | .handleEvent (.failed _) _ => do
      lock false
      .ok ((), m)
  | .handleEvent (.ready batch) callbacks => do
      lock false
      let m ← dispatchCalls callbacks m 0 (m.interest.wait batch)
      .ok ((), m)

/-- The callbacks that the loop gets to leave the manager alone. -/
def Quiet (callbacks : Callbacks Ch) (channels : FdMap (Option Ch)) :
    ℕ → List EpollEvent → Prop
  | _, [] => True
  | i, event :: rest =>
      ((channels.lookup event.fd).join).isSome = true →
        (∀ cb ∈ Channel.handleEvent event.events, callbacks i cb = []) ∧
          Quiet callbacks channels (i + 1) rest

/-- The step is not a `DEL` that the kernel grants, and calls no callback that calls the
manager. -/
def Unlocked (m : EpollManager Ch) : LockOp Ch → Prop
  | .call (.control sockfd .del _ granted) => ¬ (granted = true ∧ sockfd ∈ m.interest)
  | .call _ | .close _ => True
  | .handleEvent (.failed _) _ => True
  | .handleEvent (.ready batch) callbacks =>
      Quiet callbacks m.channels 0 (m.interest.wait batch)

/-! ### What locks a second time -/

variable {m : EpollManager Ch} [DecidableEq Ch]

theorem perform_locked (m : EpollManager Ch) (c : ManagerCall Ch) :
    m.perform true c = .error .deadlock := by
  cases c <;> rfl

theorem performAll_locked_iff {calls : List (ManagerCall Ch)} :
    performAll true m calls = .error .deadlock ↔ calls ≠ [] := by
  cases calls with
  | nil => simp [performAll]
  | cons c rest => simp [performAll, perform_locked]

omit [DecidableEq Ch] in
theorem flatMap_eq_nil_iff {callbacks : List ChannelCallback}
    {calls : ChannelCallback → List (ManagerCall Ch)} :
    callbacks.flatMap calls = [] ↔ ∀ cb ∈ callbacks, calls cb = [] := by
  simp [List.flatMap_eq_nil_iff]

omit [DecidableEq Ch] in
theorem index_of_not_isSome {channels : FdMap (Option Ch)} {fd : Sockfd}
    (h : ¬ ((channels.lookup fd).join).isSome = true) :
    (channels.index fd).1 = none := by
  rw [FdMap.index]
  cases hlookup : channels.lookup fd with
  | none => rfl
  | some p =>
      cases p with
      | none => rfl
      | some ch => simp [hlookup] at h

/-- The loop locks `mutex_` again exactly when a callback that it gets to calls the manager. -/
theorem dispatchCalls_deadlock_iff (callbacks : Callbacks Ch) {i : ℕ} {events : List EpollEvent} :
    dispatchCalls callbacks m i events = .error .deadlock ↔
      ¬ Quiet callbacks m.channels i events := by
  induction events generalizing i with
  | nil => simp [dispatchCalls, Quiet]
  | cons event rest ih =>
      rw [dispatchCalls, Quiet]
      by_cases hfound : ((m.channels.lookup event.fd).join).isSome = true
      case neg =>
        have hnull := index_of_not_isSome hfound
        refine iff_of_false ?_ fun hloud => hloud fun h => absurd h hfound
        split
        · simp
        · rename_i ch channels hindex
          rw [hindex] at hnull
          cases hnull
      case pos =>
        obtain ⟨ch, hch⟩ := Option.isSome_iff_exists.mp hfound
        rw [index_of_some (Option.join_eq_some_iff.mp hch)]
        dsimp only
        by_cases hquiet : ∀ cb ∈ Channel.handleEvent event.events, callbacks i cb = []
        case pos =>
          rw [flatMap_eq_nil_iff.mpr hquiet, performAll, ok_bind, ih]
          exact not_congr ⟨fun hrest _ => ⟨hquiet, hrest⟩, fun h => (h hfound).2⟩
        case neg =>
          have hcalls : (Channel.handleEvent event.events).flatMap (callbacks i) ≠ [] :=
            fun hnil => hquiet (flatMap_eq_nil_iff.mp hnil)
          refine iff_of_true ?_ fun h => hquiet (h hfound).1
          rw [performAll_locked_iff.mpr hcalls, error_bind]

/-- With callbacks that leave the manager alone the loop is the one without them. -/
theorem dispatchCalls_of_quiet (callbacks : Callbacks Ch) {i : ℕ} {events : List EpollEvent}
    {calls : List (Ch × EventMask)} {channels : FdMap (Option Ch)}
    (hquiet : Quiet callbacks m.channels i events)
    (hok : dispatch m.channels events = .ok (calls, channels)) :
    dispatchCalls callbacks m i events = .ok m := by
  induction events generalizing i calls channels with
  | nil => rfl
  | cons event rest ih =>
      obtain ⟨-, hcalls⟩ := dispatch_eq_ok hok
      obtain ⟨call, calls', ⟨hlookup, -⟩, -, rfl⟩ := List.forall₂_cons_left_iff.mp hcalls
      rw [dispatch, index_of_some hlookup] at hok
      dsimp only at hok
      rw [bind_eq_ok] at hok
      obtain ⟨⟨calls'', channels'⟩, hrest, -⟩ := hok
      obtain ⟨hnone, hquiet'⟩ := hquiet (by rw [hlookup]; rfl)
      rw [dispatchCalls, index_of_some hlookup]
      dsimp only
      rw [flatMap_eq_nil_iff.mpr hnone, performAll, ok_bind]
      exact ih hquiet' hrest

theorem control_ne_deadlock {sockfd : Sockfd} {op : EventCTL} {events : EventMask}
    {granted : Bool} (hop : op ≠ .del) :
    m.control sockfd op events granted ≠ .error .deadlock := by
  rw [control]
  split
  · simp
  · dsimp only
    rw [if_neg hop]
    split <;> simp

/-- `control` locks `mutex_` again exactly when the kernel grants a `DEL`. -/
theorem control_del_deadlock_iff {sockfd : Sockfd} {events : EventMask} {granted : Bool} :
    m.control sockfd .del events granted = .error .deadlock ↔
      granted = true ∧ sockfd ∈ m.interest := by
  rw [control, InterestList.ctl]
  by_cases hgrant : granted = true ∧ sockfd ∈ m.interest
  case pos =>
    rw [if_pos hgrant]
    exact iff_of_true rfl hgrant
  case neg =>
    rw [if_neg hgrant]
    exact iff_of_false (by simp) hgrant

theorem bind_ok_eq_error {α β : Type} {x : Except EpollFault α} {f : α → β} {e : EpollFault} :
    (do let a ← x; .ok (f a)) = (.error e : Except EpollFault β) ↔ x = .error e := by
  cases x <;> simp

/-- A call from outside locks `mutex_` a second time exactly when it is a `DEL` that is
granted. -/
theorem perform_deadlock_iff {c : ManagerCall Ch} :
    m.perform false c = .error .deadlock ↔ ¬ m.Unlocked (.call c) := by
  cases c with
  | updateChannel ch => exact iff_of_false (by simp [perform, lock]) (not_not.mpr trivial)
  | removeChannel sockfd =>
      exact iff_of_false (by simp [perform, removeChannel]) (not_not.mpr trivial)
  | control sockfd op events granted =>
      have hcall : m.perform false (.control sockfd op events granted) = .error .deadlock ↔
          m.control sockfd op events granted = .error .deadlock := bind_ok_eq_error
      rw [hcall]
      cases op with
      | del => rw [control_del_deadlock_iff, Unlocked, not_not]
      | add => exact iff_of_false (control_ne_deadlock (by simp)) (not_not.mpr trivial)
      | mod => exact iff_of_false (control_ne_deadlock (by simp)) (not_not.mpr trivial)

/-- A step locks `mutex_` a second time exactly when it is not `Unlocked`. -/
theorem lockStep_deadlock_iff (m : EpollManager Ch) (op : LockOp Ch) :
    m.lockStep op = .error .deadlock ↔ ¬ m.Unlocked op := by
  cases op with
  | call c => rw [← perform_deadlock_iff, lockStep, bind_ok_eq_error]
  | close fd => exact iff_of_false (by simp [lockStep]) (not_not.mpr trivial)
  | handleEvent outcome callbacks =>
      cases outcome with
      | failed interrupted => exact iff_of_false (by simp [lockStep, lock]) (not_not.mpr trivial)
      | ready batch =>
          have hloop : m.lockStep (.handleEvent (.ready batch) callbacks) = .error .deadlock ↔
              dispatchCalls callbacks m 0 (m.interest.wait batch) = .error .deadlock :=
            bind_ok_eq_error
          rw [hloop, dispatchCalls_deadlock_iff, Unlocked]

/-- In a run no thread locks `mutex_` while it holds it exactly when the kernel grants no `DEL`
and no callback that the loop gets to calls the manager. -/
theorem relock_free_iff (objects : Ch → Channel) (ops : List (LockOp Ch)) :
    run lockStep (new objects) ops ≠ .error .deadlock ↔
      Along lockStep Unlocked (new objects) ops :=
  run_ne_error_iff lockStep_deadlock_iff (new objects) ops

/-- A channel is registered, watched and taken off the manager again. -/
theorem del_relocks :
    run lockStep (new fun _ : Unit => ⟨5, EVENT_NONE⟩)
        [.call (.updateChannel ()), .call (.control 5 .add EVENT_IN true),
          .call (.control 5 .del EVENT_NONE true)] = .error .deadlock := rfl

end EpollManager

end LpNet
