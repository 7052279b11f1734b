import LpNet.Net.Address
import LpNet.Net.Trigger

/-!
The class `Connector`: `connect`, and the retry that it posts on its scheduler.

`connect` keeps what `socket_api::connect` answers in a variable `server_fd` and hands it
to the callback. The answer is the status of `::connect`, 0 on success, so that the
callback learns a descriptor only when the socket's own is 0. `delivers_iff` is about all
runs of calls and retries.
-/

namespace LpNet

open Transition

inductive ConnectOutcome
  | connected
  | failed (code : ℤ) (neg : code < 0)

/-- `socket_api::connect(fd, ip, port)`: 0, or a negative number. -/
def SocketApi.connect : ConnectOutcome → ℤ
  | .connected => 0
  | .failed code _ => code

/-- A call of `connect_cb_`: its argument, and `connecting_` at the time. -/
structure ConnectCall where
  fd : Sockfd
  connecting : Bool
  deriving DecidableEq, Repr

/-- A call of `::connect`: the time, and the interval of the retries then. -/
structure ConnectAttempt where
  clock : ℕ
  interval : ℤ
  deriving DecidableEq, Repr

/-- The calls of `::connect` and of `connect_cb_` that a call of `connect` has made. -/
structure ConnectTrace where
  attempts : List ConnectAttempt
  calls : List ConnectCall
  deriving DecidableEq, Repr

/-- The event that `connect` posts is always the same, a retry. -/
abbrev Retry := Unit

/-- A connector whose `connect_cb_` is set. -/
structure Connector where
  taskScheduler : TaskScheduler Retry
  /-- `socket_->getSockfd()`. -/
  socketFd : Sockfd
  nextRetryInterval : ℤ
  retryTimes : ℤ
  connecting : Bool

namespace Connector

def new (taskScheduler : TaskScheduler Retry) (socketFd : Sockfd) : Connector where
  taskScheduler := taskScheduler
  socketFd := socketFd
  nextRetryInterval := 500
  retryTimes := 5
  connecting := false

/-- `connect(ip, port)`: what it returns, and what it has called. -/
def connect (c : Connector) (outcome : ConnectOutcome) : Bool × ConnectTrace × Connector :=
  if c.connecting = true ∨ c.retryTimes ≤ 0 then (false, ⟨[], []⟩, c)
  else
    let attempt := ⟨c.taskScheduler.clock, c.nextRetryInterval⟩
    let serverFd := SocketApi.connect outcome
    if serverFd < 0 then
      let r := c.taskScheduler.addTriggerEventForce (some ()) c.nextRetryInterval
      (false, ⟨[attempt], []⟩, { c with taskScheduler := r.2 })
    else
      let call := ⟨serverFd, c.connecting⟩
      (true, ⟨[attempt], [call]⟩,
        { c with nextRetryInterval := 500, retryTimes := 5, connecting := true })

/-- The event that `connect` posts. -/
def retry (c : Connector) (outcome : ConnectOutcome) : ConnectTrace × Connector :=
  let interval := c.nextRetryInterval * 2
  let interval := if interval > 30000 then 30000 else interval
  let (ok, trace, c) := { c with nextRetryInterval := interval }.connect outcome
  if !ok then (trace, { c with retryTimes := c.retryTimes - 1 }) else (trace, c)

/-- `connect` gets through to `::connect`, which succeeds. -/
def Connects (c : Connector) (outcome : ConnectOutcome) : Prop :=
  c.connecting = false ∧ 0 < c.retryTimes ∧ outcome = .connected

variable {c : Connector} {outcome : ConnectOutcome}

theorem connect_of_connects (h : c.Connects outcome) : c.connect outcome =
    (true, ⟨[⟨c.taskScheduler.clock, c.nextRetryInterval⟩], [⟨0, false⟩]⟩,
      { c with nextRetryInterval := 500, retryTimes := 5, connecting := true }) := by
  obtain ⟨hconnecting, htimes, rfl⟩ := h
  rw [connect, if_neg (by simp [hconnecting, htimes]), SocketApi.connect, hconnecting]
  rfl

/-- A call that does not get through, or fails, calls nothing back. -/
theorem connect_of_not_connects (h : ¬ c.Connects outcome) :
    ∃ attempts c', c.connect outcome = (false, ⟨attempts, []⟩, c') ∧
      c'.connecting = c.connecting ∧ c'.socketFd = c.socketFd := by
  by_cases hthrough : c.connecting = true ∨ c.retryTimes ≤ 0
  case pos => exact ⟨[], c, by rw [connect, if_pos hthrough], rfl, rfl⟩
  case neg =>
    rw [connect, if_neg hthrough]
    cases outcome with
    | connected =>
        simp only [not_or, Bool.not_eq_true, not_le] at hthrough
        exact absurd ⟨hthrough.1, hthrough.2, rfl⟩ h
    | failed code neg =>
        have hneg : SocketApi.connect (.failed code neg) < 0 := neg
        dsimp only
        rw [if_pos hneg]
        exact ⟨_, _, rfl, rfl, rfl⟩

theorem retry_of_connects (h : c.Connects outcome) :
    ∃ attempts c', c.retry outcome = (⟨attempts, [⟨0, false⟩]⟩, c') ∧ c'.connecting = true ∧
      c'.socketFd = c.socketFd := by
  rw [retry]
  dsimp only
  generalize (if c.nextRetryInterval * 2 > 30000 then 30000 else c.nextRetryInterval * 2) = i
  rw [connect_of_connects (show Connects { c with nextRetryInterval := i } outcome from h)]
  exact ⟨_, _, rfl, rfl, rfl⟩

theorem retry_of_not_connects (h : ¬ c.Connects outcome) :
    ∃ attempts c', c.retry outcome = (⟨attempts, []⟩, c') ∧ c'.connecting = c.connecting ∧
      c'.socketFd = c.socketFd := by
  rw [retry]
  dsimp only
  generalize (if c.nextRetryInterval * 2 > 30000 then 30000 else c.nextRetryInterval * 2) = i
  obtain ⟨attempts, c', hcall, hconnecting, hfd⟩ :=
    connect_of_not_connects (show ¬ Connects { c with nextRetryInterval := i } outcome from h)
  rw [hcall]
  exact ⟨attempts, { c' with retryTimes := c'.retryTimes - 1 }, rfl, hconnecting, hfd⟩

end Connector

/-! ### Runs -/

/-- A connector, and what it has done. -/
structure ConnectorLog extends Connector where
  /-- The calls of `connect_cb_`. -/
  calls : List ConnectCall
  /-- How often `connecting_` went from false to true. -/
  rises : ℕ

/-- A call of the user, or the scheduler taking an event from its queue, with what the kernel
answers if asked. -/
inductive ConnectorOp
  | connect (outcome : ConnectOutcome)
  | event (outcome : ConnectOutcome)

namespace ConnectorLog

open Connector

def new (taskScheduler : TaskScheduler Retry) (socketFd : Sockfd) : ConnectorLog where
  toConnector := .new taskScheduler socketFd
  calls := []
  rises := 0

def record (w : ConnectorLog) (calls : List ConnectCall) (c : Connector) : ConnectorLog where
  toConnector := c
  calls := w.calls ++ calls
  rises := if !w.connecting && c.connecting then w.rises + 1 else w.rises

def connectorStep (w : ConnectorLog) : ConnectorOp → Except Fault (Option Bool × ConnectorLog)
  | .connect outcome =>
      let r := w.toConnector.connect outcome
      .ok (some r.1, w.record r.2.1.calls r.2.2)
  | .event outcome => do
      let (events, s) ← w.taskScheduler.triggerRound
      let w := { w with taskScheduler := s }
      match events with
      | [] => .ok (none, w)
      | _ :: _ =>
          let r := w.toConnector.retry outcome
          .ok (none, w.record r.1.calls r.2)

/-- The callback was called once for each time the connector came to be connected, never when
it was, and with the descriptor of its socket. -/
structure Delivers (w : ConnectorLog) : Prop where
  once : w.calls.length = w.rises
  apart : ∀ call ∈ w.calls, call.connecting = false
  fd_eq : ∀ call ∈ w.calls, call.fd = w.socketFd

/-- The step gets through to `::connect`, which succeeds. -/
def Establishes (w : ConnectorLog) : ConnectorOp → Prop
  | .connect outcome => w.Connects outcome
  | .event outcome =>
      (∃ ev s, w.taskScheduler.triggerRound = .ok ([ev], s)) ∧ w.Connects outcome

variable {w w' : ConnectorLog} {op : ConnectorOp}

theorem triggerRound_cases {s s' : TaskScheduler Retry} {events : List (TriggerEvent Retry)}
    (h : s.triggerRound = .ok (events, s')) : events = [] ∨ ∃ ev, events = [ev] := by
  rw [TaskScheduler.triggerRound] at h
  split at h
  · cases h
    exact .inl rfl
  · cases h
  · cases h
    exact .inr ⟨_, rfl⟩

/-- A step that establishes the connection is one call, with the status of `::connect`, and one
change of `connecting_`. -/
theorem step_of_establishes (h : w.Establishes op) :
    ∃ answer w', connectorStep w op = .ok (answer, w') ∧
      w'.calls = w.calls ++ [⟨0, false⟩] ∧ w'.rises = w.rises + 1 ∧
      w'.socketFd = w.socketFd := by
  cases op with
  | connect outcome =>
      have h : w.Connects outcome := h
      refine ⟨_, _, rfl, ?_⟩
      rw [connect_of_connects h]
      simp [record, h.1]
  | event outcome =>
      obtain ⟨⟨ev, s, hround⟩, h⟩ := h
      obtain ⟨attempts, c', hretry, hconnecting, hfd⟩ :=
        retry_of_connects (c := { w.toConnector with taskScheduler := s }) h
      refine ⟨none, { w with taskScheduler := s }.record [⟨0, false⟩] c', ?_, ?_⟩
      · rw [connectorStep, hround, ok_bind]
        dsimp only at hretry ⊢
        rw [hretry]
      · dsimp only at hfd
        simp [record, h.1, hconnecting, hfd]

/-- Any other step calls nothing back and leaves `connecting_` as it is. -/
theorem step_of_not_establishes {answer : Option Bool} (h : ¬ w.Establishes op)
    (hstep : connectorStep w op = .ok (answer, w')) :
    w'.calls = w.calls ∧ w'.rises = w.rises ∧ w'.socketFd = w.socketFd := by
  cases op with
  | connect outcome =>
      obtain ⟨attempts, c', hcall, hconnecting, hfd⟩ :=
        connect_of_not_connects (show ¬ w.Connects outcome from h)
      rw [connectorStep, hcall] at hstep
      cases hstep
      simp [record, hconnecting, hfd]
  | event outcome =>
      rw [connectorStep, bind_eq_ok] at hstep
      obtain ⟨⟨events, s⟩, hround, hstep⟩ := hstep
      rcases triggerRound_cases hround with rfl | ⟨ev, rfl⟩
      · cases hstep
        exact ⟨rfl, rfl, rfl⟩
      · have hnot : ¬ w.Connects outcome := fun hc => h ⟨⟨ev, s, hround⟩, hc⟩
        obtain ⟨attempts, c', hretry, hconnecting, hfd⟩ :=
          retry_of_not_connects (c := { w.toConnector with taskScheduler := s }) hnot
        dsimp only at hstep
        rw [hretry] at hstep
        cases hstep
        simp [record, hconnecting, hfd]

/-- In every run there is one call for each change of `connecting_`, made before it and with
the status 0. -/
theorem calls_eq_replicate (s : TaskScheduler Retry) (fd : Sockfd) (ops : List ConnectorOp) :
    AlongStates connectorStep (fun w => w.calls = List.replicate w.rises ⟨0, false⟩)
      (new s fd) ops := by
  refine alongStates_of_along (I := fun w => w.calls = List.replicate w.rises ⟨0, false⟩)
    (P := fun _ _ => True) (fun w op answer w' h _ hstep => ?_) (fun _ h => h) rfl
    (along_of_forall_mem fun _ _ => trivial)
  by_cases hest : w.Establishes op
  case pos =>
    obtain ⟨answer', w'', hstep', hcalls, hrises, -⟩ := step_of_establishes hest
    rw [hstep'] at hstep
    cases hstep
    rw [hcalls, hrises, h, List.replicate_succ']
  case neg =>
    obtain ⟨hcalls, hrises, -⟩ := step_of_not_establishes hest hstep
    rw [hcalls, hrises, h]

theorem Delivers.step {answer : Option Bool} (h : w.Delivers)
    (hzero : w.Establishes op → w.socketFd = 0)
    (hstep : connectorStep w op = .ok (answer, w')) : w'.Delivers := by
  by_cases hest : w.Establishes op
  case pos =>
    obtain ⟨answer', w'', hstep', hcalls, hrises, hfd⟩ := step_of_establishes hest
    rw [hstep'] at hstep
    cases hstep
    refine ⟨?_, fun call hcall => ?_, fun call hcall => ?_⟩
    · rw [hcalls, hrises, List.length_append, h.once]
      rfl
    · rw [hcalls, List.mem_append, List.mem_singleton] at hcall
      rcases hcall with hcall | rfl
      · exact h.apart call hcall
      · rfl
    · rw [hcalls, List.mem_append, List.mem_singleton] at hcall
      rw [hfd]
      rcases hcall with hcall | rfl
      · exact h.fd_eq call hcall
      · exact (hzero hest).symm
  case neg =>
    obtain ⟨hcalls, hrises, hfd⟩ := step_of_not_establishes hest hstep
    exact ⟨by rw [hcalls, hrises, h.once], by rw [hcalls]; exact h.apart,
      by rw [hcalls, hfd]; exact h.fd_eq⟩

theorem Delivers.broken (hest : w.Establishes op) (hfd : w.socketFd ≠ 0) :
    ∃ answer w', connectorStep w op = .ok (answer, w') ∧ ¬ w'.Delivers := by
  obtain ⟨answer, w', hstep, hcalls, -, hfd'⟩ := step_of_establishes hest
  refine ⟨answer, w', hstep, fun h => hfd ?_⟩
  have hcall : (⟨0, false⟩ : ConnectCall) ∈ w'.calls := by simp [hcalls]
  rw [← hfd', ← h.fd_eq _ hcall]

theorem new_delivers (s : TaskScheduler Retry) (fd : Sockfd) : (new s fd).Delivers where
  once := rfl
  apart := by simp [new]
  fd_eq := by simp [new]

/-- In a run the callback is called once for each time the connector came to be connected, never
when it was, and with the descriptor of its socket, exactly when no step establishes a connection
on a socket with a descriptor other than 0. -/
theorem delivers_iff (s : TaskScheduler Retry) (fd : Sockfd) (ops : List ConnectorOp) :
    AlongStates connectorStep Delivers (new s fd) ops ↔
      Along connectorStep (fun w op => w.Establishes op → w.socketFd = 0) (new s fd) ops := by
  refine alongStates_iff_along (V := fun _ _ => True) (I := Delivers)
    (fun _ _ _ _ h _ hzero hstep => h.step hzero hstep) (fun w op h _ hbad => ?_)
    (fun _ h => h) (new_delivers s fd) (along_of_forall_mem fun _ _ => trivial)
  rw [Classical.not_imp] at hbad
  exact Delivers.broken hbad.1 hbad.2

/-- The first call succeeds at once on the socket 7, and the callback is told 0. -/
theorem not_delivers_seven : ¬ AlongStates connectorStep Delivers
    (new (.new Retry 0 1) 7) [.connect .connected] := by
  intro h
  have hest : (new (.new Retry 0 1) 7).Establishes (.connect .connected) := ⟨rfl, by decide, rfl⟩
  obtain ⟨answer, w', hstep, hnot⟩ := Delivers.broken hest (by decide)
  exact hnot (h.2 answer w' hstep).head

end ConnectorLog

end LpNet
