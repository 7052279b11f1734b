import LpNet.Buffer.Reader
import LpNet.Buffer.Writer
import LpNet.Net.TaskScheduler

/-!
The class `TcpConnection` as a server runs it.

A connection acts on itself and on its scheduler: it registers its channel, and
when it closes it takes the channel out and runs the disconnect callback, by
which the server queues the removal of the connection. The read, close and error
callbacks are left to the user and not set here. `Touches` is all that a member function can do
to the running flag and to the queued removals.
-/

namespace LpNet

open Transition

abbrev ConnId := ℕ

inductive ServerEvent
  /-- `conn->close()`, from `TcpConnection::disconnect`. The closure owns the connection. -/
  | close (conn : ConnId)
  /-- `this->removeConnection(sockfd)`, from the disconnect callback. The closure holds the
  descriptor only; `poster` says which connection it was that closed. -/
  | removeConnection (sockfd : Sockfd) (poster : ConnId)
  deriving DecidableEq, Repr

abbrev Scheduler := SelectManager ServerEvent ConnId

structure TcpConnection where
  running : Bool
  readBuffer : BufferReader
  writeBuffer : BufferWriter
  channel : Channel
  /-- Whether `disconnect_cb_` is set, to the callback of the server. -/
  disconnectCb : Bool

/-- The kernel's answers to the calls of one event. -/
structure ChannelIo where
  read : FdOutcome
  write : SendOutcome

namespace TcpConnection

def kMaxBufferSize : ℕ := 1024 * 1024

/-- The constructor, for a connection that starts with the given `running_`. -/
def new (junk : ℕ → Byte) (running : Bool) (fd : Sockfd) : TcpConnection where
  running := running
  readBuffer := .new junk kMaxBufferSize
  writeBuffer := .new kMaxBufferSize
  channel := (Channel.new fd).enableReading
  disconnectCb := false

/-- The callback that the server sets, called for the connection. -/
def onDisconnected (self : ConnId) (conn : TcpConnection) (sched : Scheduler) : Scheduler :=
  (sched.addTriggerEventForce (some (.removeConnection conn.channel.sockfd self)) 100).2

def close (self : ConnId) (conn : TcpConnection) (sched : Scheduler) :
    TcpConnection × Scheduler :=
  -- a connection that is not running has nothing to close
  if conn.running then
    let conn := { conn with running := false }
    let sched := sched.removeChannel conn.channel.sockfd
    if conn.disconnectCb then (conn, conn.onDisconnected self sched) else (conn, sched)
  else (conn, sched)

def disconnect (self : ConnId) (sched : Scheduler) : Scheduler :=
  (sched.addTriggerEventForce (some (.close self)) 0).2

def onRead (junk : ℕ → Byte) (self : ConnId) (conn : TcpConnection) (sched : Scheduler)
    (io : FdOutcome) : Except Fault (TcpConnection × Scheduler) :=
  if conn.running then do
    let (ret, _, reader) ← conn.readBuffer.readFd junk io
    let conn := { conn with readBuffer := reader }
    if ret ≤ 0 then .ok (conn.close self sched) else .ok (conn, sched)
  else .ok (conn, sched)

def onWrite (self : ConnId) (conn : TcpConnection) (sched : Scheduler) (outcome : SendOutcome) :
    Except Fault (TcpConnection × Scheduler) :=
  if conn.running then do
    let (ret, _, writer) ← conn.writeBuffer.send outcome
    let conn := { conn with writeBuffer := writer }
    if ret < 0 then .ok (conn.close self sched)
    else if conn.writeBuffer.empty then
      if conn.channel.isWriting then
        .ok ({ conn with channel := conn.channel.disableWriting }, sched)
      else .ok (conn, sched)
    else if ¬ conn.channel.isWriting then
      .ok ({ conn with channel := conn.channel.enableWriting }, sched)
    else .ok (conn, sched)
  else .ok (conn, sched)

def onClose (self : ConnId) (conn : TcpConnection) (sched : Scheduler) :
    TcpConnection × Scheduler := conn.close self sched

def onError (self : ConnId) (conn : TcpConnection) (sched : Scheduler) :
    TcpConnection × Scheduler := conn.close self sched

/-- `send(data, len)`. `append` takes the length as a `uint32_t`. -/
def send (junk : ℕ → Byte) (self : ConnId) (conn : TcpConnection) (sched : Scheduler)
    (data : List Byte) (len : ℕ) (outcome : SendOutcome) :
    Except Fault (TcpConnection × Scheduler) :=
  if conn.running then do
    let (_, writer) ← conn.writeBuffer.append junk data (toUInt32 len)
    onWrite self { conn with writeBuffer := writer } sched outcome
  else .ok (conn, sched)

/-- The callbacks that the constructor stores in the channel. -/
def callback (junk : ℕ → Byte) (self : ConnId) (io : ChannelIo) (conn : TcpConnection)
    (sched : Scheduler) : ChannelCallback → Except Fault (TcpConnection × Scheduler)
  | .read => conn.onRead junk self sched io.read
  | .write => conn.onWrite self sched io.write
  | .close => .ok (conn.onClose self sched)
  | .error => .ok (conn.onError self sched)

def runCallbacks (junk : ℕ → Byte) (self : ConnId) (io : ChannelIo) :
    List ChannelCallback → TcpConnection → Scheduler → Except Fault (TcpConnection × Scheduler)
  | [], conn, sched => .ok (conn, sched)
  | cb :: cbs, conn, sched => do
      let (conn, sched) ← conn.callback junk self io sched cb
      runCallbacks junk self io cbs conn sched

end TcpConnection

/-! ### The queued removals -/

def removalOf : TriggerEvent ServerEvent → Option (Sockfd × ConnId)
  | some (.removeConnection sockfd poster) => some (sockfd, poster)
  | some (.close _) | none => none

namespace Scheduler

/-- The callbacks that are to be run, from the trigger queue and the timers. -/
def callbacks (sched : Scheduler) : List (TriggerEvent ServerEvent) :=
  sched.queued ++ sched.timers.data.filterMap fun entry => entry.2.callback

def removals (sched : Scheduler) : List (Sockfd × ConnId) :=
  sched.callbacks.filterMap removalOf

/-- The queue is in order, and what is in it closes one of `n` connections or removes one. -/
structure Sound (n : ℕ) (sched : Scheduler) : Prop where
  ready : sched.Ready
  queued : ∀ cb ∈ sched.queued, ∃ ev, cb = some ev ∧ ∀ c, ev = .close c → c < n

variable {n : ℕ} {sched : Scheduler}

theorem new_sound (n clock currTimerId : ℕ) :
    Sound n (SelectManager.new ServerEvent ConnId clock currTimerId) where
  ready := TaskScheduler.new_ready clock currTimerId
  queued := by
    intro cb hcb
    rw [SelectManager.new, TaskScheduler.new_queued] at hcb
    cases hcb

theorem Sound.mono {m : ℕ} (h : sched.Sound n) (hnm : n ≤ m) : sched.Sound m where
  ready := h.ready
  queued := by
    intro cb hcb
    obtain ⟨ev, hev, hclose⟩ := h.queued cb hcb
    exact ⟨ev, hev, fun c hc => lt_of_lt_of_le (hclose c hc) hnm⟩

theorem Sound.removals_eq (h : sched.Sound n) :
    sched.removals = sched.queued.filterMap removalOf := by
  rw [removals, callbacks, h.ready.timers_eq, List.filterMap_nil, List.append_nil]

/-- A change of the table is none of the queue. -/
theorem Sound.of_eq {sched' : Scheduler} (h : sched.Sound n)
    (heq : sched'.toTaskScheduler = sched.toTaskScheduler) :
    sched'.Sound n ∧ sched'.removals = sched.removals := by
  refine ⟨⟨?_, ?_⟩, ?_⟩
  · rw [heq]
    exact h.ready
  · rw [heq]
    exact h.queued
  · rw [removals, callbacks, heq]
    rfl

theorem Sound.force (h : sched.Sound n) {ev : ServerEvent} (hev : ∀ c, ev = .close c → c < n)
    (msTimeout : ℤ) :
    Sound n (sched.addTriggerEventForce (some ev) msTimeout).2 ∧
      (removals (sched.addTriggerEventForce (some ev) msTimeout).2 =
          sched.removals ++ (removalOf (some ev)).toList ∨
        removals (sched.addTriggerEventForce (some ev) msTimeout).2 = []) := by
  have hready := h.ready.force (some ev) msTimeout
  have hqueued := TaskScheduler.force_queued h.ready (some ev) msTimeout
  have hsound : Sound n (sched.addTriggerEventForce (some ev) msTimeout).2 := by
    refine ⟨hready, fun cb hcb => ?_⟩
    rw [SelectManager.addTriggerEventForce_toTaskScheduler] at hcb
    rcases hqueued with happend | hnil
    · rw [happend] at hcb
      rcases List.mem_append.mp hcb with hold | hnew
      · exact h.queued cb hold
      · exact ⟨ev, List.mem_singleton.mp hnew, hev⟩
    · rw [hnil] at hcb
      cases hcb
  refine ⟨hsound, ?_⟩
  rw [hsound.removals_eq, h.removals_eq, SelectManager.addTriggerEventForce_toTaskScheduler]
  rcases hqueued with happend | hnil
  · left
    rw [happend, List.filterMap_append]
    cases hremoval : removalOf (some ev) <;> simp [hremoval]
  · right
    rw [hnil, List.filterMap_nil]

theorem Sound.disconnect (h : sched.Sound n) {conn : ConnId} (hconn : conn < n) :
    Sound n (TcpConnection.disconnect conn sched) ∧
      (removals (TcpConnection.disconnect conn sched) = sched.removals ∨
        removals (TcpConnection.disconnect conn sched) = []) := by
  have hev : ∀ c, ServerEvent.close conn = .close c → c < n := by
    rintro c ⟨⟩
    exact hconn
  obtain ⟨hsound, happend | hnone⟩ := h.force hev 0
  · refine ⟨hsound, .inl ?_⟩
    have hnothing : (removalOf (some (.close conn))).toList = [] := rfl
    rw [hnothing, List.append_nil] at happend
    exact happend
  · exact ⟨hsound, .inr hnone⟩

end Scheduler

/-! ### What a connection does to its surroundings -/

namespace TcpConnection

/-- From one connection and scheduler to the next: the connection stays as open as it was and
the removals the same, or it closes and queues its removal, or overflows the queue with
it. -/
structure Touches (n : ℕ) (c : ConnId) (before after : TcpConnection × Scheduler) : Prop where
  sockfd_eq : after.1.channel.sockfd = before.1.channel.sockfd
  disconnectCb_eq : after.1.disconnectCb = before.1.disconnectCb
  sound : after.2.Sound n
  effect : (after.1.running = before.1.running ∧ after.2.removals = before.2.removals) ∨
    (before.1.running = true ∧ after.1.running = false ∧
      (after.2.removals = before.2.removals ++ [(before.1.channel.sockfd, c)] ∨
        after.2.removals = []))

variable {n : ℕ} {self : ConnId} {conn : TcpConnection} {sched : Scheduler}

theorem Touches.refl (h : sched.Sound n) : Touches n self (conn, sched) (conn, sched) :=
  ⟨rfl, rfl, h, .inl ⟨rfl, rfl⟩⟩

theorem Touches.trans {a b c : TcpConnection × Scheduler} (hab : Touches n self a b)
    (hbc : Touches n self b c) : Touches n self a c := by
  refine ⟨hbc.sockfd_eq.trans hab.sockfd_eq, hbc.disconnectCb_eq.trans hab.disconnectCb_eq,
    hbc.sound, ?_⟩
  rcases hab.effect with ⟨hrun, hrem⟩ | ⟨hopen, hshut, hrem⟩
  · rw [← hrun, ← hrem, ← hab.sockfd_eq]
    exact hbc.effect
  · rcases hbc.effect with ⟨hrun, hrem'⟩ | ⟨hopen', -⟩
    · exact .inr ⟨hopen, hrun.trans hshut, by rw [hrem']; exact hrem⟩
    · rw [hshut] at hopen'
      cases hopen'

/-- A change of the buffers and of the event mask of a connection. -/
theorem Touches.of_data {conn' : TcpConnection} (h : sched.Sound n)
    (hrun : conn'.running = conn.running) (hfd : conn'.channel.sockfd = conn.channel.sockfd)
    (hcb : conn'.disconnectCb = conn.disconnectCb) :
    Touches n self (conn, sched) (conn', sched) :=
  ⟨hfd, hcb, h, .inl ⟨hrun, rfl⟩⟩

theorem close_touches (h : sched.Sound n) (hcb : conn.disconnectCb = true) :
    Touches n self (conn, sched) (conn.close self sched) := by
  rw [close]
  split
  case isFalse => exact .refl h
  case isTrue hrunning =>
    dsimp only
    rw [hcb, if_pos rfl]
    obtain ⟨hsound, hremovals⟩ := h.of_eq
      (SelectManager.removeChannel_toTaskScheduler sched conn.channel.sockfd)
    have hev : ∀ c, ServerEvent.removeConnection conn.channel.sockfd self = .close c → c < n := by
      rintro c ⟨⟩
    obtain ⟨hsound', hremovals'⟩ := hsound.force hev 100
    refine ⟨rfl, hcb.symm, hsound', .inr ⟨hrunning, rfl, ?_⟩⟩
    rw [hremovals] at hremovals'
    exact hremovals'

theorem close_of_not_running (h : conn.running = false) :
    conn.close self sched = (conn, sched) := by
  rw [close, h]
  rfl

variable (junk : ℕ → Byte) {after : TcpConnection × Scheduler}

theorem onRead_touches (h : sched.Sound n) (hcb : conn.disconnectCb = true) {io : FdOutcome}
    (hread : conn.onRead junk self sched io = .ok after) :
    Touches n self (conn, sched) after := by
  rw [onRead] at hread
  split at hread
  case isFalse =>
    injection hread with hread
    rw [← hread]
    exact .refl h
  case isTrue =>
    rw [bind_eq_ok] at hread
    obtain ⟨⟨ret, accepted, reader⟩, -, hread⟩ := hread
    have hdata : Touches n self (conn, sched) ({ conn with readBuffer := reader }, sched) :=
      .of_data h rfl rfl rfl
    dsimp only at hread
    split at hread
    · injection hread with hread
      rw [← hread]
      exact hdata.trans (close_touches h hcb)
    · injection hread with hread
      rw [← hread]
      exact hdata

theorem onWrite_touches (h : sched.Sound n) (hcb : conn.disconnectCb = true)
    {outcome : SendOutcome} (hwrite : conn.onWrite self sched outcome = .ok after) :
    Touches n self (conn, sched) after := by
  rw [onWrite] at hwrite
  split at hwrite
  case isFalse =>
    injection hwrite with hwrite
    rw [← hwrite]
    exact .refl h
  case isTrue =>
    rw [bind_eq_ok] at hwrite
    obtain ⟨⟨ret, accepted, writer⟩, -, hwrite⟩ := hwrite
    have hdata : Touches n self (conn, sched) ({ conn with writeBuffer := writer }, sched) :=
      .of_data h rfl rfl rfl
    dsimp only at hwrite
    split at hwrite
    · injection hwrite with hwrite
      rw [← hwrite]
      exact hdata.trans (close_touches h hcb)
    · split at hwrite
      all_goals
        split at hwrite
        all_goals
          injection hwrite with hwrite
          rw [← hwrite]
          exact .of_data h rfl rfl rfl

theorem send_touches (h : sched.Sound n) (hcb : conn.disconnectCb = true) {data : List Byte}
    {len : ℕ} {outcome : SendOutcome}
    (hsend : conn.send junk self sched data len outcome = .ok after) :
    Touches n self (conn, sched) after := by
  rw [send] at hsend
  split at hsend
  case isFalse =>
    injection hsend with hsend
    rw [← hsend]
    exact .refl h
  case isTrue =>
    rw [bind_eq_ok] at hsend
    obtain ⟨⟨ok, writer⟩, -, hwrite⟩ := hsend
    have hdata : Touches n self (conn, sched) ({ conn with writeBuffer := writer }, sched) :=
      .of_data h rfl rfl rfl
    exact hdata.trans (onWrite_touches h hcb hwrite)

theorem callback_touches (h : sched.Sound n) (hcb : conn.disconnectCb = true) {io : ChannelIo}
    {cb : ChannelCallback} (hrun : conn.callback junk self io sched cb = .ok after) :
    Touches n self (conn, sched) after := by
  cases cb with
  | read => exact onRead_touches junk h hcb hrun
  | write => exact onWrite_touches h hcb hrun
  | close =>
      injection hrun with hrun
      rw [← hrun]
      exact close_touches h hcb
  | error =>
      injection hrun with hrun
      rw [← hrun]
      exact close_touches h hcb

theorem runCallbacks_touches (h : sched.Sound n) (hcb : conn.disconnectCb = true)
    {io : ChannelIo} {cbs : List ChannelCallback}
    (hrun : runCallbacks junk self io cbs conn sched = .ok after) :
    Touches n self (conn, sched) after := by
  induction cbs generalizing conn sched with
  | nil =>
      injection hrun with hrun
      rw [← hrun]
      exact .refl h
  | cons cb cbs ih =>
      rw [runCallbacks, bind_eq_ok] at hrun
      obtain ⟨⟨conn', sched'⟩, hfirst, hrest⟩ := hrun
      have htouches := callback_touches junk h hcb hfirst
      exact htouches.trans (ih htouches.sound (htouches.disconnectCb_eq.trans hcb) hrest)

end TcpConnection

end LpNet
