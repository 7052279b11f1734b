import LpNet.Net.Connector
import Mathlib.Data.List.Chain

/-!
The delay that `addTriggerEventForce` is given.

The delay goes to the timer behind a full queue only, and the queue is never
full, so that a callback with a delay runs as soon as the loop gets to it. A
callback is kept here together with the time before which it is not to run.
`delay_kept_iff` is about all that the loop can do after a call, and about the
retries of a `Connector`, which are spaced by the delay.
-/

namespace LpNet

open Transition

namespace TaskScheduler

variable {Ev : Type}

theorem force_clock (s : TaskScheduler Ev) (cb : TriggerEvent Ev) (msTimeout : ℤ) :
    (s.addTriggerEventForce cb msTimeout).2.clock = s.clock := by
  rw [addTriggerEventForce]
  split
  case isTrue => rfl
  case isFalse =>
    dsimp only
    split
    case h_1 id s' hadd =>
      obtain ⟨timers, -, -, rfl⟩ := addTimer_eq_ok.mp hadd
      rfl
    case h_2 => rfl

theorem round_clock {s s' : TaskScheduler Ev} {called : List (TriggerEvent Ev)}
    (h : s.triggerRound = .ok (called, s')) : s'.clock = s.clock := by
  rw [triggerRound, popTrigger] at h
  split at h
  · cases h
    rename_i hpop
    exact (congrArg (fun r => r.2.clock) hpop).symm
  · cases h
  · cases h
    rename_i hpop
    exact (congrArg (fun r => r.2.clock) hpop).symm

end TaskScheduler

/-- A callback, and the time before which it is not to be called. -/
structure Delayed (Ev : Type) where
  ev : Ev
  notBefore : ℤ

/-- A scheduler, and the callbacks it has called, each with the time of the call. -/
structure DelayLog (Ev : Type) extends TaskScheduler (Delayed Ev) where
  executed : List (Delayed Ev × ℕ)

inductive DelayOp (Ev : Type)
  | addTriggerEvent (ev : Ev)
  | addTriggerEventForce (ev : Ev) (msTimeout : ℤ)
  /-- One round of the loop of `handleTriggerEvent`. -/
  | round
  /-- What `Timer::run` does with the timers. -/
  | timer
  /-- Time passes. -/
  | tick (ms : ℕ)

namespace DelayLog

open TaskScheduler

variable {Ev : Type}

def new (Ev : Type) (clock currTimerId : ℕ) : DelayLog Ev where
  toTaskScheduler := .new (Delayed Ev) clock currTimerId
  executed := []

def record (w : DelayLog Ev) (called : List (TriggerEvent (Delayed Ev)))
    (s : TaskScheduler (Delayed Ev)) : DelayLog Ev where
  toTaskScheduler := s
  executed := w.executed ++ called.filterMap fun cb => cb.map fun d => (d, s.clock)

def delayStep (w : DelayLog Ev) : DelayOp Ev → Except Fault (Unit × DelayLog Ev)
  | .addTriggerEvent ev =>
      let r := w.toTaskScheduler.addTriggerEvent (some ⟨ev, w.clock⟩)
      .ok ((), w.record [] r.2)
  | .addTriggerEventForce ev msTimeout =>
      let r := w.toTaskScheduler.addTriggerEventForce (some ⟨ev, w.clock + msTimeout⟩) msTimeout
      .ok ((), w.record [] r.2)
  | .round => do
      let (called, s) ← w.toTaskScheduler.triggerRound
      .ok ((), w.record called s)
  | .timer => do
      let (cb, s) ← w.toTaskScheduler.popTimer
      .ok ((), w.record cb.toList s)
  | .tick ms => .ok ((), { w with clock := w.clock + ms })

/-- What the loop does without further calls. -/
def Loop : DelayOp Ev → Prop
  | .addTriggerEvent _ | .addTriggerEventForce _ _ => False
  | .round | .timer | .tick _ => True

/-- No callback was called before its time. -/
def OnTime (w : DelayLog Ev) : Prop := ∀ call ∈ w.executed, call.1.notBefore ≤ call.2

/-- A call with a delay takes the last cell of the queue, which loses the callback. -/
def Keeps (w : DelayLog Ev) : DelayOp Ev → Prop
  | .addTriggerEventForce _ msTimeout =>
      0 < msTimeout → w.queued.length + 1 = kMaxTriggetEvents
  | .addTriggerEvent _ | .round | .timer | .tick _ => True

/-- The time of every callback in the queue has come. -/
structure InTime (w : DelayLog Ev) : Prop where
  ready : w.Ready
  queue : ∃ ds : List (Delayed Ev), w.queued = ds.map some ∧ ∀ d ∈ ds, d.notBefore ≤ w.clock
  onTime : w.OnTime

variable {w w' : DelayLog Ev}

theorem new_inTime (clock currTimerId : ℕ) : (new Ev clock currTimerId).InTime where
  ready := new_ready clock currTimerId
  queue := ⟨[], new_queued clock currTimerId, by simp⟩
  onTime := by simp [OnTime, new]

theorem InTime.force (h : w.InTime) {d : Delayed Ev} (msTimeout : ℤ)
    (hd : d.notBefore ≤ w.clock ∨ w.queued.length + 1 = kMaxTriggetEvents) :
    (w.record [] (w.toTaskScheduler.addTriggerEventForce (some d) msTimeout).2).InTime := by
  obtain ⟨ds, hqueue, hds⟩ := h.queue
  have hqueued := queued_force h.ready (some d) msTimeout
  have hclock := force_clock w.toTaskScheduler (some d) msTimeout
  refine ⟨h.ready.force _ _, ?_, by simpa [OnTime, record] using h.onTime⟩
  dsimp only [record]
  rw [hqueued, hclock]
  split
  case isTrue hroom =>
    refine ⟨ds ++ [d], by rw [hqueue]; simp, fun x hx => ?_⟩
    rcases List.mem_append.mp hx with hx | hx
    · exact hds x hx
    · rw [List.mem_singleton.mp hx]
      exact hd.resolve_right (by omega)
  case isFalse => exact ⟨[], rfl, by simp⟩

/-- A round calls the first callback of the queue at the present time. -/
theorem round_cons (hready : w.Ready) {d : Delayed Ev} {ds : List (Delayed Ev)}
    (hqueue : w.queued = (d :: ds).map some) :
    ∃ w', delayStep w .round = .ok ((), w') ∧ w'.Ready ∧ w'.queued = ds.map some ∧
      w'.clock = w.clock ∧ w'.executed = w.executed ++ [(d, w.clock)] := by
  obtain ⟨s, hpop, hrest, hready'⟩ := popTrigger_of_cons hready hqueue
  have hclock : s.clock = w.clock := by
    have hs := congrArg (fun r => r.2.clock) hpop
    exact hs.symm
  refine ⟨w.record [some d] s, ?_, hready', hrest, hclock, ?_⟩
  · rw [delayStep, triggerRound, hpop, ok_bind]
  · simp [record, hclock]

theorem round_nil (hready : w.Ready) (hqueue : w.queued = []) :
    delayStep w .round = .ok ((), w.record [] w.toTaskScheduler) := by
  rw [delayStep, triggerRound, popTrigger_of_nil hready hqueue, ok_bind]

theorem InTime.step {op : DelayOp Ev} (h : w.InTime) (hkeeps : w.Keeps op)
    (hstep : delayStep w op = .ok ((), w')) : w'.InTime := by
  cases op with
  | addTriggerEvent ev =>
      rw [delayStep, addTriggerEvent_eq h.ready _ 0] at hstep
      cases hstep
      exact h.force 0 (.inl (le_refl _))
  | addTriggerEventForce ev msTimeout =>
      cases hstep
      by_cases hpos : 0 < msTimeout
      case pos => exact h.force msTimeout (.inr (hkeeps hpos))
      case neg =>
        refine h.force msTimeout (.inl ?_)
        dsimp only
        omega
  | round =>
      obtain ⟨ds, hqueue, hds⟩ := h.queue
      cases ds with
      | nil =>
          rw [round_nil h.ready hqueue] at hstep
          cases hstep
          exact ⟨h.ready, ⟨[], hqueue, by simp⟩, by simpa [OnTime, record] using h.onTime⟩
      | cons d ds =>
          obtain ⟨t, hround, hready, hqueue', hclock, hexec⟩ := round_cons h.ready hqueue
          rw [hround] at hstep
          cases hstep
          refine ⟨hready, ⟨ds, hqueue', fun x hx => ?_⟩, fun call hcall => ?_⟩
          · rw [hclock]
            exact hds x (List.mem_cons_of_mem d hx)
          · rw [hexec] at hcall
            rcases List.mem_append.mp hcall with hold | hnew
            · exact h.onTime call hold
            · rw [List.mem_singleton.mp hnew]
              exact hds d (List.mem_cons_self ..)
  | timer =>
      rw [delayStep, popTimer_of_ready h.ready] at hstep
      cases hstep
      exact ⟨h.ready, h.queue, by simpa [OnTime, record] using h.onTime⟩
  | tick ms =>
      cases hstep
      obtain ⟨ds, hqueue, hds⟩ := h.queue
      refine ⟨⟨h.ready.ring, h.ready.capacity_eq, h.ready.timers_eq⟩, ⟨ds, hqueue, ?_⟩, h.onTime⟩
      intro d hd
      have := hds d hd
      dsimp only
      push_cast
      omega

theorem rounds_early {ds : List (Delayed Ev)} (hready : w.Ready)
    (hqueue : w.queued = ds.map some) (hearly : ∃ d ∈ ds, (w.clock : ℤ) < d.notBefore) :
    ¬ AlongStates delayStep OnTime w (List.replicate ds.length .round) := by
  induction ds generalizing w with
  | nil => simp at hearly
  | cons d ds ih =>
      obtain ⟨t, hround, hready', hqueue', hclock, hexec⟩ := round_cons hready hqueue
      intro hstates
      have hrest := hstates.2 () t hround
      by_cases hd : (w.clock : ℤ) < d.notBefore
      case pos =>
        -- the first callback is early, and is called now
        have hlate := hrest.head (d, w.clock) (by simp [hexec])
        dsimp only at hlate
        omega
      case neg =>
        obtain ⟨x, hx, hlt⟩ := hearly
        rcases List.mem_cons.mp hx with rfl | hx
        · exact hd hlt
        · exact ih hready' hqueue' ⟨x, hx, by rw [hclock]; exact hlt⟩ hrest

/-- After a call with a delay that the queue has room for, the loop can call too early. -/
theorem InTime.hurried {op : DelayOp Ev} (h : w.InTime) (hbad : ¬ w.Keeps op) :
    ∃ b w' after, delayStep w op = .ok (b, w') ∧ (∀ op ∈ after, Loop op) ∧
      ¬ AlongStates delayStep OnTime w' after := by
  cases op with
  | addTriggerEvent ev => exact absurd trivial hbad
  | round => exact absurd trivial hbad
  | timer => exact absurd trivial hbad
  | tick ms => exact absurd trivial hbad
  | addTriggerEventForce ev msTimeout =>
      rw [Keeps, Classical.not_imp] at hbad
      obtain ⟨hpos, hne⟩ := hbad
      have hlen := h.ready.queued_lt
      obtain ⟨ds, hqueue, -⟩ := h.queue
      let d : Delayed Ev := ⟨ev, w.clock + msTimeout⟩
      have hqueued := queued_force h.ready (some d) msTimeout
      rw [if_pos (by omega)] at hqueued
      have hclock := force_clock w.toTaskScheduler (some d) msTimeout
      refine ⟨(), w.record [] (w.toTaskScheduler.addTriggerEventForce (some d) msTimeout).2,
        List.replicate (ds ++ [d]).length .round, rfl, ?_, ?_⟩
      · intro op hop
        rw [(List.mem_replicate.mp hop).2]
        trivial
      · refine rounds_early (h.ready.force _ _) ?_ ⟨d, by simp, ?_⟩
        · dsimp only [record]
          rw [hqueued, hqueue]
          simp
        · dsimp only [record]
          rw [hclock]
          exact Int.lt_add_of_pos_right _ hpos

/-- Whatever the loop does after any call of a run, no callback is called before its time,
exactly when no call of the run has a delay, save one that loses its callback. -/
theorem forks_on_time_iff (clock currTimerId : ℕ) (ops : List (DelayOp Ev)) :
    AlongForks delayStep Loop OnTime (new Ev clock currTimerId) ops ↔
      Along delayStep Keeps (new Ev clock currTimerId) ops := by
  refine alongForks_iff_along (I := InTime) (fun w op _ w' h hkeeps hstep => h.step hkeeps hstep)
    (fun w op hloop => ?_) (fun w op h hbad => h.hurried hbad) (fun _ h => h.onTime)
    (new_inTime clock currTimerId)
  cases op with
  | addTriggerEvent ev => exact hloop.elim
  | addTriggerEventForce ev msTimeout => exact hloop.elim
  | round => trivial
  | timer => trivial
  | tick ms => trivial

/-! ### The timers -/

/-- No callback in the timer set expires before its time. -/
def Timely (s : TaskScheduler (Delayed Ev)) : Prop :=
  ∀ entry ∈ s.timers.data, entry.2.cycled = false ∧
    ∀ d, entry.2.callback = some (some d) → d.notBefore ≤ entry.2.expiredTime

theorem mem_place {Cb : Type} {data : List (IdTimestampPair × TimerTask Cb)}
    {key : IdTimestampPair} {task : TimerTask Cb} {entry : IdTimestampPair × TimerTask Cb}
    (h : entry ∈ TimerTaskMap.place (fun _ => task) key task data) :
    entry ∈ data ∨ entry.2 = task := by
  induction data with
  | nil =>
      rw [List.mem_singleton.mp h]
      exact .inr rfl
  | cons head rest ih =>
      obtain ⟨k, t⟩ := head
      rw [TimerTaskMap.place] at h
      split at h
      · rcases List.mem_cons.mp h with rfl | h
        · exact .inl (List.mem_cons_self ..)
        · exact (ih h).imp_left (List.mem_cons_of_mem _)
      · split at h
        · rcases List.mem_cons.mp h with rfl | h
          · exact .inr rfl
          · exact .inl h
        · rcases List.mem_cons.mp h with rfl | h
          · exact .inr rfl
          · exact .inl (List.mem_cons_of_mem _ h)

/-- If the queue were full, the timer would keep the delay. -/
theorem timely_force {s : TaskScheduler (Delayed Ev)} (h : Timely s) (ev : Ev) {msTimeout : ℤ}
    (hfull : kMaxTriggetEvents ≤ s.triggerEvents.sizeInternal)
    (hclock : s.clock + msTimeout < 2 ^ 64) :
    Timely (s.addTriggerEventForce (some ⟨ev, s.clock + msTimeout⟩) msTimeout).2 := by
  rw [addTriggerEventForce, if_neg (not_lt.mpr hfull)]
  dsimp only
  split
  case h_1 id s' hadd =>
    obtain ⟨timers, hadd', -, rfl⟩ := addTimer_eq_ok.mp hadd
    obtain ⟨data, hassign, -, rfl⟩ := TimerTaskMap.add_eq_ok.mp hadd'
    obtain ⟨-, rfl⟩ := TimerTaskMap.put_eq_ok.mp hassign
    intro entry hentry
    rcases mem_place hentry with hold | htask
    · exact h entry hold
    · rw [htask]
      refine ⟨rfl, fun d hd => ?_⟩
      cases hd
      dsimp only [TimerTask.new]
      rw [SizeT.add, ofInt]
      omega
  case h_2 => exact h

theorem timely_popTimer {s s' : TaskScheduler (Delayed Ev)} (h : Timely s) {d : Delayed Ev}
    (hpop : s.popTimer = .ok (some (some d), s')) : d.notBefore ≤ s.clock := by
  rw [popTimer, TimerTaskMap.popTask] at hpop
  cases hdata : s.timers.data with
  | nil =>
      rw [hdata] at hpop
      cases hpop
  | cons entry rest =>
      obtain ⟨hcycled, htime⟩ := h entry (by rw [hdata]; exact List.mem_cons_self ..)
      simp only [hdata, hcycled, Bool.false_eq_true, if_false, ok_bind, Option.bind_some,
        Except.ok.injEq] at hpop
      have hfire := congrArg Prod.fst hpop
      rw [TimerTask.fire] at hfire
      dsimp only at hfire
      split at hfire
      case isTrue hexpired =>
        rw [TimerTask.isExpired, decide_eq_true_eq] at hexpired
        exact (htime d hfire).trans (by exact_mod_cast hexpired)
      case isFalse => cases hfire

end DelayLog

/-! ### One chain of retries -/

/-- A connector, and the calls of `::connect` it has made. -/
structure RetryChain extends Connector where
  attempts : List ConnectAttempt

/-- A call of the user, the scheduler taking an event from its queue, or time that passes. -/
inductive ChainOp
  | connect (outcome : ConnectOutcome)
  | event (outcome : ConnectOutcome)
  | tick (ms : ℕ)

namespace RetryChain

open TaskScheduler

def Attempts (c : Connector) : Prop := ¬ (c.connecting = true ∨ c.retryTimes ≤ 0)

instance (c : Connector) : Decidable (Attempts c) := inferInstanceAs (Decidable (¬ _))

def record (w : RetryChain) (trace : ConnectTrace) (c : Connector) : RetryChain where
  toConnector := c
  attempts := w.attempts ++ trace.attempts

def chainStep (w : RetryChain) : ChainOp → Except Fault (Unit × RetryChain)
  | .connect outcome =>
      let r := w.toConnector.connect outcome
      .ok ((), w.record r.2.1 r.2.2)
  | .event outcome => do
      let (events, s) ← w.taskScheduler.triggerRound
      let w := { w with taskScheduler := s }
      match events with
      | [] => .ok ((), w)
      | _ :: _ =>
          let r := w.toConnector.retry outcome
          .ok ((), w.record r.1 r.2)
  | .tick ms =>
      .ok ((), { w with taskScheduler :=
        { w.taskScheduler with clock := w.taskScheduler.clock + ms } })

/-- What goes on without the user. -/
def Loop : ChainOp → Prop
  | .connect _ => False
  | .event _ | .tick _ => True

/-- Each attempt is made the interval of the one before after it. -/
def Spaced (w : RetryChain) : Prop :=
  w.attempts.IsChain fun first next => (first.clock : ℤ) + first.interval ≤ next.clock

def doubled (c : Connector) : Connector :=
  { c with nextRetryInterval :=
      if c.nextRetryInterval * 2 > 30000 then 30000 else c.nextRetryInterval * 2 }

/-- The call of `::connect` that `connect` makes in this state, if any. -/
def attempt (c : Connector) : List ConnectAttempt :=
  if Attempts c then [⟨c.taskScheduler.clock, c.nextRetryInterval⟩] else []

/-! #### What a call leaves -/

variable {c : Connector} {outcome : ConnectOutcome} {w w' : RetryChain}

theorem connect_refused (h : ¬ Attempts c) : c.connect outcome = (false, ⟨[], []⟩, c) := by
  rw [Attempts, not_not] at h
  rw [Connector.connect, if_pos h]

theorem connect_connected (h : Attempts c) : c.connect .connected =
    (true, ⟨attempt c, [⟨0, c.connecting⟩]⟩,
      { c with nextRetryInterval := 500, retryTimes := 5, connecting := true }) := by
  rw [Connector.connect, if_neg h, attempt, if_pos h]
  rfl

/-- A failed attempt posts a retry, and nothing else. -/
theorem connect_failed (h : Attempts c) {code : ℤ} (neg : code < 0) :
    c.connect (.failed code neg) =
      (false, ⟨attempt c, []⟩, { c with taskScheduler :=
        (c.taskScheduler.addTriggerEventForce (some ()) c.nextRetryInterval).2 }) := by
  rw [Connector.connect, if_neg h, attempt, if_pos h]
  dsimp only [SocketApi.connect]
  rw [if_pos neg]

theorem retry_eq (c : Connector) (outcome : ConnectOutcome) :
    c.retry outcome =
      if ((doubled c).connect outcome).1 = true then ((doubled c).connect outcome).2
      else (((doubled c).connect outcome).2.1,
        { ((doubled c).connect outcome).2.2 with
          retryTimes := ((doubled c).connect outcome).2.2.retryTimes - 1 }) := by
  have hdoubled : c.retry outcome =
      if (!((doubled c).connect outcome).1) = true then
        (((doubled c).connect outcome).2.1,
          { ((doubled c).connect outcome).2.2 with
            retryTimes := ((doubled c).connect outcome).2.2.retryTimes - 1 })
      else ((doubled c).connect outcome).2 := rfl
  rw [hdoubled]
  cases ((doubled c).connect outcome).1 <;> rfl

theorem connect_attempts (c : Connector) (outcome : ConnectOutcome) :
    (c.connect outcome).2.1.attempts = attempt c := by
  by_cases h : Attempts c
  case neg =>
    rw [connect_refused h, attempt, if_neg h]
  case pos =>
    cases outcome with
    | connected => rw [connect_connected h]
    | failed code neg => rw [connect_failed h neg]

theorem retry_attempts (c : Connector) (outcome : ConnectOutcome) :
    (c.retry outcome).1.attempts = attempt (doubled c) := by
  have h := connect_attempts (doubled c) outcome
  rw [retry_eq]
  split
  · exact h
  · exact h

theorem chainStep_connect (w : RetryChain) (outcome : ConnectOutcome) :
    chainStep w (.connect outcome) = .ok ((),
      ⟨(w.toConnector.connect outcome).2.2, w.attempts ++ attempt w.toConnector⟩) := by
  rw [← connect_attempts w.toConnector outcome]
  rfl

theorem chainStep_event {s : TaskScheduler Retry} {ev : TriggerEvent Retry}
    {events : List (TriggerEvent Retry)} (h : w.taskScheduler.triggerRound = .ok (ev :: events, s))
    (outcome : ConnectOutcome) :
    chainStep w (.event outcome) = .ok ((),
      ⟨(Connector.retry { w.toConnector with taskScheduler := s } outcome).2,
        w.attempts ++ attempt (doubled { w.toConnector with taskScheduler := s })⟩) := by
  rw [chainStep, h, ok_bind, ← retry_attempts _ outcome]
  rfl

theorem connect_clock : (c.connect outcome).2.2.taskScheduler.clock = c.taskScheduler.clock := by
  by_cases h : Attempts c
  case neg => rw [connect_refused h]
  case pos =>
    cases outcome with
    | connected => rw [connect_connected h]
    | failed code neg =>
        rw [connect_failed h neg]
        exact force_clock ..

theorem retry_clock : (c.retry outcome).2.taskScheduler.clock = c.taskScheduler.clock := by
  have h : ((doubled c).connect outcome).2.2.taskScheduler.clock = c.taskScheduler.clock :=
    connect_clock
  rw [retry_eq]
  split
  · exact h
  · exact h

theorem connect_still (h : c.connecting = true ∨ c.nextRetryInterval ≤ 0) :
    (c.connect outcome).2.2.connecting = true ∨ (c.connect outcome).2.2.nextRetryInterval ≤ 0 := by
  by_cases hatt : Attempts c
  case neg =>
    rw [connect_refused hatt]
    exact h
  case pos =>
    cases outcome with
    | connected =>
        rw [connect_connected hatt]
        exact .inl rfl
    | failed code neg =>
        rw [connect_failed hatt neg]
        exact h

theorem doubled_still (h : c.connecting = true ∨ c.nextRetryInterval ≤ 0) :
    (doubled c).connecting = true ∨ (doubled c).nextRetryInterval ≤ 0 := by
  refine h.imp_right fun hle => ?_
  dsimp only [doubled]
  split <;> omega

theorem retry_still (h : c.connecting = true ∨ c.nextRetryInterval ≤ 0) :
    (c.retry outcome).2.connecting = true ∨ (c.retry outcome).2.nextRetryInterval ≤ 0 := by
  have hnext : ((doubled c).connect outcome).2.2.connecting = true ∨
      ((doubled c).connect outcome).2.2.nextRetryInterval ≤ 0 := connect_still (doubled_still h)
  rw [retry_eq]
  split
  · exact hnext
  · exact hnext

/-! #### Chains that are spaced -/

structure Idle (w : RetryChain) : Prop where
  ready : w.taskScheduler.Ready
  queued_eq : w.taskScheduler.queued = []
  spaced : w.Spaced

/-- No attempt asks for time to pass. -/
structure Slack (w : RetryChain) : Prop where
  still : w.connecting = true ∨ w.nextRetryInterval ≤ 0
  past : ∀ a ∈ w.attempts, a.interval ≤ 0 ∧ a.clock ≤ w.taskScheduler.clock
  spaced : w.Spaced

theorem Idle.step {op : ChainOp} (h : w.Idle) (hloop : Loop op)
    (hstep : chainStep w op = .ok ((), w')) : w'.Idle := by
  cases op with
  | connect outcome => exact hloop.elim
  | event outcome =>
      rw [chainStep, triggerRound, popTrigger_of_nil h.ready h.queued_eq, ok_bind] at hstep
      cases hstep
      exact h
  | tick ms =>
      cases hstep
      exact ⟨⟨h.ready.ring, h.ready.capacity_eq, h.ready.timers_eq⟩, h.queued_eq, h.spaced⟩

/-- An attempt behind attempts that ask for no time is spaced from the last of them. -/
theorem Slack.attempt (h : w.Slack)
    (hc : c.connecting = true ∨ c.nextRetryInterval ≤ 0)
    (hclock : c.taskScheduler.clock = w.taskScheduler.clock) :
    (∀ a ∈ w.attempts ++ attempt c, a.interval ≤ 0 ∧ a.clock ≤ w.taskScheduler.clock) ∧
      (w.attempts ++ attempt c).IsChain
        fun first next => (first.clock : ℤ) + first.interval ≤ next.clock := by
  rw [RetryChain.attempt]
  split
  case isFalse =>
    rw [List.append_nil]
    exact ⟨h.past, h.spaced⟩
  case isTrue hatt =>
    have hle : c.nextRetryInterval ≤ 0 := hc.resolve_left fun ht => hatt (.inl ht)
    constructor
    · intro a ha
      rcases List.mem_append.mp ha with ha | ha
      · exact h.past a ha
      · rw [List.mem_singleton.mp ha]
        exact ⟨hle, hclock.le⟩
    · refine List.isChain_append.mpr ⟨h.spaced, .singleton _, fun a ha b hb => ?_⟩
      have hlast := h.past a (List.mem_of_getLast? ha)
      cases hb
      dsimp only
      omega

theorem Slack.step {op : ChainOp} (h : w.Slack) (hloop : Loop op)
    (hstep : chainStep w op = .ok ((), w')) : w'.Slack := by
  cases op with
  | connect outcome => exact hloop.elim
  | tick ms =>
      cases hstep
      refine ⟨h.still, fun a ha => ?_, h.spaced⟩
      have := h.past a ha
      dsimp only
      omega
  | event outcome =>
      obtain ⟨⟨events, s⟩, hround, hnext⟩ := bind_eq_ok.mp hstep
      have hclock := round_clock hround
      cases events with
      | nil =>
          cases hnext
          refine ⟨h.still, fun a ha => ?_, h.spaced⟩
          dsimp only
          rw [hclock]
          exact h.past a ha
      | cons ev events =>
          rw [chainStep_event hround] at hstep
          cases hstep
          obtain ⟨hpast, hspaced⟩ := h.attempt
            (c := doubled { w.toConnector with taskScheduler := s }) (doubled_still h.still) hclock
          refine ⟨retry_still h.still, ?_, hspaced⟩
          rw [retry_clock]
          dsimp only
          rw [hclock]
          exact hpast

theorem failed_hurried (hready : c.taskScheduler.Ready) (hempty : c.taskScheduler.queued = [])
    (hatt : Attempts c) (hpos : 0 < c.nextRetryInterval) {code : ℤ} (neg : code < 0) :
    ¬ AlongStates chainStep Spaced ⟨c, []⟩ [.connect (.failed code neg), .event .connected] := by
  intro hstates
  have hone := hstates.2 () _ (chainStep_connect _ _)
  rw [connect_failed hatt neg] at hone
  have hqueued := queued_force hready (some ()) c.nextRetryInterval
  rw [hempty, if_pos (by decide), List.nil_append] at hqueued
  obtain ⟨s, hpop, -⟩ := popTrigger_of_cons (hready.force (some ()) c.nextRetryInterval) hqueued
  have hround :
      (c.taskScheduler.addTriggerEventForce (some ()) c.nextRetryInterval).2.triggerRound =
        .ok ([some ()], s) := by
    rw [triggerRound, hpop]
  have hclock := (round_clock hround).trans (force_clock ..)
  have hsecond : Attempts (doubled { c with taskScheduler := s }) := hatt
  have hlast := hone.2 () _ (chainStep_event hround .connected)
  have hspaced : List.IsChain _ _ := hlast
  simp only [attempt, if_pos hatt, if_pos hsecond] at hspaced
  have hle := (List.isChain_cons_cons.mp hspaced).1
  dsimp only [doubled] at hle
  rw [hclock] at hle
  omega

/-- The attempts of a chain are spaced, whatever comes after its first, exactly when the first
does not fail and ask for time. -/
theorem chain_spaced_iff (hready : c.taskScheduler.Ready)
    (hempty : c.taskScheduler.queued = []) (outcome : ConnectOutcome) :
    (∀ after, (∀ op ∈ after, Loop op) →
      AlongStates chainStep Spaced ⟨c, []⟩ (.connect outcome :: after)) ↔
    (Attempts c → outcome ≠ .connected → c.nextRetryInterval ≤ 0) := by
  constructor
  · intro hall hatt hne
    by_contra hpos
    cases outcome with
    | connected => exact hne rfl
    | failed code neg =>
        refine failed_hurried hready hempty hatt (by omega) neg (hall [.event .connected] ?_)
        intro op hop
        rw [List.mem_singleton.mp hop]
        trivial
  · intro hcond after hafter
    refine ⟨List.isChain_nil, fun b w' hstep => ?_⟩
    have hnext : w'.Idle ∨ w'.Slack := by
      rw [chainStep_connect] at hstep
      cases hstep
      by_cases hatt : Attempts c
      case neg =>
        left
        rw [connect_refused hatt, attempt, if_neg hatt]
        exact ⟨hready, hempty, List.isChain_nil⟩
      case pos =>
        rw [attempt, if_pos hatt]
        cases outcome with
        | connected =>
            left
            rw [connect_connected hatt]
            exact ⟨hready, hempty, .singleton _⟩
        | failed code neg =>
            right
            have hle := hcond hatt (by simp)
            refine ⟨connect_still (.inr hle), fun a ha => ?_, .singleton _⟩
            rw [List.mem_singleton.mp ha, connect_clock]
            exact ⟨hle, le_refl _⟩
    rcases hnext with hidle | hslack
    · exact alongStates_of_kind (fun _ _ _ _ h hloop hstep => h.step hloop hstep)
        (fun _ h => h.spaced) hidle hafter
    · exact alongStates_of_kind (fun _ _ _ _ h hloop hstep => h.step hloop hstep)
        (fun _ h => h.spaced) hslack hafter

/-- The delay of a callback is kept, whatever the loop does after any call of a run, exactly when
no call of the run has one, save a call that loses its callback; the timers would keep it; and
the attempts of a chain of retries are spaced exactly when there is no retry to wait for. -/
theorem delay_kept_iff (Ev : Type) (clock currTimerId : ℕ) (ops : List (DelayOp Ev))
    (c : Connector) (hready : c.taskScheduler.Ready) (hempty : c.taskScheduler.queued = [])
    (outcome : ConnectOutcome) :
    (AlongForks DelayLog.delayStep DelayLog.Loop DelayLog.OnTime
        (DelayLog.new Ev clock currTimerId) ops ↔
      Along DelayLog.delayStep DelayLog.Keeps (DelayLog.new Ev clock currTimerId) ops) ∧
    (∀ (s : TaskScheduler (Delayed Ev)) (ev : Ev) (msTimeout : ℤ), DelayLog.Timely s →
      kMaxTriggetEvents ≤ s.triggerEvents.sizeInternal → s.clock + msTimeout < 2 ^ 64 →
      DelayLog.Timely (s.addTriggerEventForce (some ⟨ev, s.clock + msTimeout⟩) msTimeout).2) ∧
    (∀ (s s' : TaskScheduler (Delayed Ev)) (d : Delayed Ev), DelayLog.Timely s →
      s.popTimer = .ok (some (some d), s') → d.notBefore ≤ s.clock) ∧
    ((∀ after, (∀ op ∈ after, Loop op) →
        AlongStates chainStep Spaced ⟨c, []⟩ (.connect outcome :: after)) ↔
      (Attempts c → outcome ≠ .connected → c.nextRetryInterval ≤ 0)) :=
  ⟨DelayLog.forks_on_time_iff clock currTimerId ops,
    fun _ ev _ h hfull hclock => DelayLog.timely_force h ev hfull hclock,
    fun _ _ _ h hpop => DelayLog.timely_popTimer h hpop,
    chain_spaced_iff hready hempty outcome⟩

/-- A callback with a delay of ten milliseconds, and a chain whose first attempt fails. -/
theorem delay_kept_iff_failed :
    (AlongForks DelayLog.delayStep DelayLog.Loop DelayLog.OnTime
        (DelayLog.new Unit 0 1) [.addTriggerEventForce () 10, .round] ↔
      Along DelayLog.delayStep DelayLog.Keeps (DelayLog.new Unit 0 1)
        [.addTriggerEventForce () 10, .round]) ∧
    ((∀ after, (∀ op ∈ after, Loop op) → AlongStates chainStep Spaced
        ⟨Connector.new (.new Retry 0 1) 7, []⟩
        (.connect (.failed (-1) (by decide)) :: after)) ↔
      (Attempts (Connector.new (.new Retry 0 1) 7) →
        ConnectOutcome.failed (-1) (by decide) ≠ .connected →
          (Connector.new (.new Retry 0 1) 7).nextRetryInterval ≤ 0)) := by
  have hkept := delay_kept_iff Unit 0 1 [.addTriggerEventForce () 10, .round]
    (Connector.new (.new Retry 0 1) 7) (new_ready 0 1) (new_queued 0 1)
    (.failed (-1) (by decide))
  exact ⟨hkept.1, hkept.2.2.2⟩

/-- A callback with a delay of ten milliseconds is called in the next round of the loop. -/
theorem delay_ten_not_kept : ¬ AlongForks DelayLog.delayStep DelayLog.Loop DelayLog.OnTime
    (DelayLog.new Unit 0 1) [.addTriggerEventForce () 10] := by
  intro hforks
  have hbad : ¬ (DelayLog.new Unit 0 1).Keeps (.addTriggerEventForce () 10) := by
    intro hkeeps
    have hone := hkeeps (by decide)
    have hempty : (DelayLog.new Unit 0 1).queued = [] := new_queued 0 1
    rw [hempty] at hone
    exact absurd hone (by decide)
  obtain ⟨b, w', after, hstep, hafter, hnot⟩ := (DelayLog.new_inTime 0 1).hurried hbad
  exact hnot ((hforks _ after List.prefix_rfl hafter).2 b w' hstep)

end RetryChain

end LpNet
