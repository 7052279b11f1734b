import LpNet.Net.Retry

/-!
The class `TcpClient`: `start`, `stop`, and the retries of its connector in between.

`start` sets `running_` whatever `connect` returned, `conn_` is set by the callback only, and
`Connector::close` does nothing to the retries that are in the queue. So `stop` may find no
connection, and what it leaves may connect again: `stops_iff`. What `conn_->disconnect()` does to the
connection is left out, as it touches neither the connector nor its scheduler.
-/

namespace LpNet

open Transition

namespace Connector

/-- What the kernel answers to a `::connect` on the connector's socket: a descriptor that is closed
cannot be connected. -/
def answered (c : Connector) (outcome : ConnectOutcome) : ConnectOutcome :=
  if c.socketFd < 0 then .failed (-1) (by decide) else outcome

/-- `close()`, where `answer` is the result of the `::close` of a valid socket. -/
def close (c : Connector) (answer : ℤ) : Connector :=
  if c.connecting then
    { c with socketFd := if 0 < c.socketFd ∧ 0 ≤ answer then kInvalidSocket else c.socketFd,
             connecting := false }
  else c

end Connector

structure TcpClient where
  connector : Connector
  /-- `conn_`, by the descriptor that its connection was made for. -/
  conn : Option Sockfd
  running : Bool

/-- A call of the user, or the connector's scheduler taking an event from its queue. -/
inductive ClientOp
  | start (outcome : ConnectOutcome)
  | stop (closeAnswer : ℤ)
  | event (outcome : ConnectOutcome)

namespace TcpClient

open TaskScheduler

def new (clock currTimerId : ℕ) (socketFd : Sockfd) : TcpClient where
  connector := .new (.new Retry clock currTimerId) socketFd
  conn := none
  running := false

def called (w : TcpClient) (calls : List ConnectCall) (c : Connector) : TcpClient :=
  { w with connector := c, conn := calls.foldl (fun _ call => some call.fd) w.conn }

def start (w : TcpClient) (outcome : ConnectOutcome) : Bool × TcpClient :=
  if w.running then (false, w)
  else
    let r := w.connector.connect (w.connector.answered outcome)
    (true, { w.called r.2.1.calls r.2.2 with running := true })

def stop (w : TcpClient) (closeAnswer : ℤ) : Except Fault (Bool × TcpClient) :=
  if !w.running then .ok (false, w)
  else
    match w.conn with
    | none => .error .useAfterFree
    | some _ =>
        .ok (true, { w with connector := w.connector.close closeAnswer, running := false })

def clientStep (w : TcpClient) : ClientOp → Except Fault (Option Bool × TcpClient)
  | .start outcome => .ok (some (w.start outcome).1, (w.start outcome).2)
  | .stop closeAnswer => do
      let (ok, w) ← w.stop closeAnswer
      .ok (some ok, w)
  | .event outcome => do
      let (events, s) ← w.connector.taskScheduler.triggerRound
      let w := { w with connector := { w.connector with taskScheduler := s } }
      match events with
      | [] => .ok (none, w)
      | _ :: _ =>
          let r := w.connector.retry (w.connector.answered outcome)
          .ok (none, w.called r.1.calls r.2)

def NoStart : ClientOp → Prop
  | .start _ => False
  | .stop _ | .event _ => True

/-- Whatever the kernel answers, no connection is made until the client is started. -/
def Settled (w : TcpClient) : Prop :=
  ∀ ops, (∀ op ∈ ops, NoStart op) →
    AlongStates clientStep (fun w => w.connector.connecting = false) w ops

/-- A stop of a running client finds its connection, and leaves no retry that makes another one. -/
def Stops (w : TcpClient) : ClientOp → Prop
  | .stop closeAnswer => w.running = true →
      ∃ w', w.clientStep (.stop closeAnswer) = .ok (some true, w') ∧ w'.Settled
  | .start _ | .event _ => True

/-- No retry in the queue will get to a socket. -/
def Exhausted (c : Connector) : Prop :=
  c.taskScheduler.queued = [] ∨ c.retryTimes ≤ 0 ∨ c.socketFd < 0

/-- A running client is stopped only with a connection made, and with no retry left that gets to a
socket, unless this stop closes the socket. -/
def StopsConnected (w : TcpClient) : ClientOp → Prop
  | .stop closeAnswer => w.running = true → w.conn ≠ none ∧
      (Exhausted w.connector ∨
        w.connector.connecting = true ∧ 0 < w.connector.socketFd ∧ 0 ≤ closeAnswer)
  | .start _ | .event _ => True

/-! ### What one step does -/

variable {c : Connector} {w w' : TcpClient} {op : ClientOp} {answer : Option Bool}

/-- The events of the connector's scheduler are retries. -/
structure Wf (c : Connector) : Prop where
  ready : c.taskScheduler.Ready
  only : ∀ cb ∈ c.taskScheduler.queued, cb = some ()

theorem new_wf (clock currTimerId : ℕ) (socketFd : Sockfd) :
    Wf (new clock currTimerId socketFd).connector where
  ready := new_ready clock currTimerId
  only cb hcb := by
    have hnil : TaskScheduler.queued (.new Retry clock currTimerId) = [] := new_queued ..
    exact absurd (hnil ▸ hcb) List.not_mem_nil

theorem Wf.connect (h : Wf c) (outcome : ConnectOutcome) : Wf (c.connect outcome).2.2 := by
  by_cases hatt : RetryChain.Attempts c
  case neg =>
    rw [RetryChain.connect_refused hatt]
    exact h
  case pos =>
    cases outcome with
    | connected =>
        rw [RetryChain.connect_connected hatt]
        exact ⟨h.ready, h.only⟩
    | failed code neg =>
        rw [RetryChain.connect_failed hatt neg]
        obtain ⟨-, honly⟩ :=
          RetryChain.queued_force_retry h.ready c.nextRetryInterval h.only
        exact ⟨h.ready.force _ _, honly⟩

theorem Wf.retry (h : Wf c) (outcome : ConnectOutcome) : Wf (c.retry outcome).2 := by
  have hdoubled : Wf (RetryChain.doubled c) := ⟨h.ready, h.only⟩
  have hcall := hdoubled.connect outcome
  rw [RetryChain.retry_eq]
  split
  case isTrue => exact hcall
  case isFalse => exact ⟨hcall.ready, hcall.only⟩

theorem Wf.close (h : Wf c) (answer : ℤ) : Wf (c.close answer) := by
  rw [Connector.close]
  split
  case isTrue => exact ⟨h.ready, h.only⟩
  case isFalse => exact h

theorem event_idle (h : Wf w.connector) (hqueue : w.connector.taskScheduler.queued = [])
    (outcome : ConnectOutcome) : clientStep w (.event outcome) = .ok (none, w) := by
  rw [clientStep, triggerRound, popTrigger_of_nil h.ready hqueue, ok_bind]

theorem event_retry (h : Wf w.connector) (hqueue : w.connector.taskScheduler.queued ≠ [])
    (outcome : ConnectOutcome) :
    ∃ c, Wf c ∧ c.retryTimes = w.connector.retryTimes ∧ c.socketFd = w.connector.socketFd ∧
      c.connecting = w.connector.connecting ∧ clientStep w (.event outcome) =
        .ok (none, w.called (c.retry (c.answered outcome)).1.calls
          (c.retry (c.answered outcome)).2) := by
  obtain ⟨cb, rest, hcons⟩ := List.exists_cons_of_ne_nil hqueue
  obtain rfl : cb = some () := h.only cb (by rw [hcons]; exact List.mem_cons_self ..)
  obtain ⟨s, hpop, hrest, hready⟩ := popTrigger_of_cons h.ready hcons
  refine ⟨{ w.connector with taskScheduler := s }, ⟨hready, fun cb hcb => ?_⟩, rfl, rfl, rfl, ?_⟩
  · rw [hrest] at hcb
    exact h.only cb (by rw [hcons]; exact List.mem_cons_of_mem _ hcb)
  · rw [clientStep, triggerRound, hpop, ok_bind]
    rfl

theorem Wf.step (h : Wf w.connector) (hstep : clientStep w op = .ok (answer, w')) :
    Wf w'.connector := by
  cases op with
  | start outcome =>
      cases hstep
      rw [start]
      split
      case isTrue => exact h
      case isFalse => exact h.connect _
  | stop closeAnswer =>
      obtain ⟨⟨ok, w₁⟩, hstop, hw'⟩ := bind_eq_ok.mp hstep
      cases hw'
      rw [stop] at hstop
      split at hstop
      case isTrue =>
        cases hstop
        exact h
      case isFalse =>
        split at hstop
        case h_1 => cases hstop
        case h_2 =>
          cases hstop
          exact h.close closeAnswer
  | event outcome =>
      by_cases hqueue : w.connector.taskScheduler.queued = []
      case pos =>
        rw [event_idle h hqueue] at hstep
        cases hstep
        exact h
      case neg =>
        obtain ⟨c, hc, -, -, -, hretry⟩ := event_retry h hqueue outcome
        rw [hretry] at hstep
        cases hstep
        exact hc.retry _

/-! ### After a stop -/

/-- Nobody runs the client, it is not connected, and no retry will get to a socket. -/
structure Quiet (w : TcpClient) : Prop where
  wf : Wf w.connector
  stopped : w.running = false
  apart : w.connector.connecting = false
  exhausted : Exhausted w.connector

theorem retry_quiet (hapart : c.connecting = false)
    (hnone : c.retryTimes ≤ 0 ∨ c.socketFd < 0) (outcome : ConnectOutcome) :
    (c.retry (c.answered outcome)).1.calls = [] ∧
      (c.retry (c.answered outcome)).2.connecting = false ∧
      ((c.retry (c.answered outcome)).2.retryTimes ≤ 0 ∨
        (c.retry (c.answered outcome)).2.socketFd < 0) := by
  by_cases hatt : RetryChain.Attempts c
  case neg =>
    rw [RetryChain.retry_refused hatt]
    refine ⟨rfl, hapart, hnone.imp_left fun htimes => ?_⟩
    dsimp only
    omega
  case pos =>
    have hfd : c.socketFd < 0 := hnone.resolve_left fun htimes => hatt (.inr htimes)
    rw [Connector.answered, if_pos hfd, RetryChain.retry_failed hatt]
    exact ⟨rfl, hapart, .inr hfd⟩

theorem Quiet.step (h : w.Quiet) (hop : NoStart op) (hstep : clientStep w op = .ok (answer, w')) :
    w'.Quiet := by
  cases op with
  | start outcome => exact absurd hop id
  | stop closeAnswer =>
      rw [clientStep, stop, h.stopped] at hstep
      cases hstep
      exact h
  | event outcome =>
      by_cases hqueue : w.connector.taskScheduler.queued = []
      case pos =>
        rw [event_idle h.wf hqueue] at hstep
        cases hstep
        exact h
      case neg =>
        obtain ⟨c, hc, htimes, hfd, hconnecting, hretry⟩ := event_retry h.wf hqueue outcome
        have hnone := h.exhausted.resolve_left hqueue
        rw [← htimes, ← hfd] at hnone
        obtain ⟨hcalls, hapart, hleft⟩ :=
          retry_quiet (hconnecting.trans h.apart) hnone outcome
        rw [hretry, hcalls] at hstep
        cases hstep
        exact ⟨hc.retry _, h.stopped, hapart, .inr hleft⟩

/-- A stopped client is settled exactly when no retry will get to a socket. -/
theorem settled_iff (hwf : Wf w.connector) (hstopped : w.running = false)
    (hapart : w.connector.connecting = false) : w.Settled ↔ Exhausted w.connector := by
  constructor
  · intro hsettled
    by_contra hnot
    obtain ⟨hqueue, hrest⟩ := not_or.mp hnot
    obtain ⟨htimes, hfd⟩ := not_or.mp hrest
    -- the next retry succeeds
    obtain ⟨c, -, htimes', hfd', hconnecting, hretry⟩ := event_retry hwf hqueue .connected
    have hstates := hsettled [.event .connected] (by simp [NoStart])
    have hapart' := (hstates.2 _ _ hretry).head
    have hanswered : c.answered .connected = .connected := by
      rw [Connector.answered, hfd', if_neg hfd]
    have hconnects : c.Connects .connected :=
      ⟨hconnecting.trans hapart, by rw [htimes']; exact not_le.mp htimes, rfl⟩
    obtain ⟨_, c', hc', hconnecting', -⟩ := Connector.retry_of_connects hconnects
    rw [hanswered, hc'] at hapart'
    exact absurd (hconnecting'.symm.trans hapart') (by decide)
  · intro hexhausted ops hops
    exact alongStates_of_kind (fun _ _ _ _ h hop hstep => Quiet.step h hop hstep)
      (fun _ h => h.apart) ⟨hwf, hstopped, hapart, hexhausted⟩ hops

/-! ### Runs -/

theorem close_apart (c : Connector) (answer : ℤ) : (c.close answer).connecting = false := by
  rw [Connector.close]
  split
  case isTrue => rfl
  case isFalse hapart => exact Bool.not_eq_true _ ▸ hapart

theorem exhausted_close_iff (c : Connector) (answer : ℤ) : Exhausted (c.close answer) ↔
    Exhausted c ∨ c.connecting = true ∧ 0 < c.socketFd ∧ 0 ≤ answer := by
  rw [Connector.close]
  split
  case isFalse hapart => simp [hapart]
  case isTrue hconnecting =>
    have hfd : (if 0 < c.socketFd ∧ 0 ≤ answer then kInvalidSocket else c.socketFd) < 0 ↔
        c.socketFd < 0 ∨ 0 < c.socketFd ∧ 0 ≤ answer := by
      split
      case isTrue hclosed => exact iff_of_true (by decide) (.inr hclosed)
      case isFalse hopen => exact (or_iff_left hopen).symm
    simp only [Exhausted, hfd, hconnecting, true_and, or_assoc]

theorem stop_running (hrunning : w.running = true) {fd : Sockfd} (hconn : w.conn = some fd)
    (closeAnswer : ℤ) : clientStep w (.stop closeAnswer) = .ok (some true,
      { w with connector := w.connector.close closeAnswer, running := false }) := by
  rw [clientStep, stop, hrunning, hconn]
  rfl

theorem stop_null (hrunning : w.running = true) (hconn : w.conn = none) (closeAnswer : ℤ) :
    clientStep w (.stop closeAnswer) = .error .useAfterFree := by
  rw [clientStep, stop, hrunning, hconn]
  rfl

/-- A stop is right exactly when it is made with a connection, and with no retry left. -/
theorem stops_step_iff (h : Wf w.connector) : w.Stops op ↔ w.StopsConnected op := by
  cases op with
  | start outcome => exact Iff.rfl
  | event outcome => exact Iff.rfl
  | stop closeAnswer =>
      refine forall_congr' fun hrunning => ?_
      rw [← exhausted_close_iff]
      cases hconn : w.conn with
      | none =>
          rw [stop_null hrunning hconn]
          simp
      | some fd =>
          let stopped : TcpClient :=
            { w with connector := w.connector.close closeAnswer, running := false }
          have hleft : stopped.Settled ↔ Exhausted (w.connector.close closeAnswer) :=
            settled_iff (h.close closeAnswer) rfl (close_apart w.connector closeAnswer)
          have hstop : clientStep w (.stop closeAnswer) = .ok (some true, stopped) :=
            stop_running hrunning hconn closeAnswer
          rw [hstop, ← hleft]
          simp

/-- In a run of a new client every stop finds the connection, and no connection is made after it,
exactly when every stop is made with a connection and with no retry left that gets to a socket. -/
theorem stops_iff (clock currTimerId : ℕ) (socketFd : Sockfd) (ops : List ClientOp) :
    Along clientStep Stops (new clock currTimerId socketFd) ops ↔
      Along clientStep StopsConnected (new clock currTimerId socketFd) ops :=
  along_iff_along (I := fun w => Wf w.connector) (V := fun _ _ => True)
    (fun _ _ _ _ h _ hstep => h.step hstep) (fun _ _ h _ => stops_step_iff h)
    (new_wf clock currTimerId socketFd) (along_of_forall_mem fun _ _ => trivial)

/-- The first attempt fails, and the client is stopped before a retry succeeds. -/
theorem stop_finds_null : ¬ Along clientStep Stops (new 0 1 7)
    [.start (.failed (-1) (by decide)), .stop 0] := by
  intro hstops
  obtain ⟨w', hstep, -⟩ := (hstops.2 _ _ rfl).1 rfl
  rw [stop_null rfl rfl] at hstep
  cases hstep

end TcpClient

end LpNet
