import LpNet.Net.Tcp.Connection

/-!
The control flow of `TcpConnection` with its lock, its flag, its buffers and the callbacks of the
user.

A thread is the stack of what it has still to do, and a step is one access to `running_`
or to `mutex_`, one call on a buffer, or one choice of a callback that the user has set:
to call `send` or `disconnect` of the same connection, or to return. `mutex_` is not
recursive, so that a thread which is to lock it while it holds it is lost (`LocksItself`).

A frame that belongs to a close or to a callback says from where it was reached. `Fits` is
the invariant of a stack: that its thread holds the lock exactly where the frame on top
says so. Nothing is ever read, so that only the callbacks of a close are run, with `running_`
false.
-/

namespace LpNet

open Transition

/-- From where `close()` or a callback is reached: a member function that holds `mutex_`, or the
trigger event of `disconnect()`, which does not. -/
inductive Entry
  | onRead
  | onWrite
  | onClose
  | onError
  | onDisconnect
  | trigger
  deriving DecidableEq, Repr

def Entry.locked : Entry → Bool
  | trigger => false
  | _ => true

inductive UserCallback
  | read
  | close
  | disconnect
  deriving DecidableEq, Repr

/-- What a callback of the user does next. -/
inductive UserAct
  | send (data : List Byte) (len : ℕ)
  | disconnect
  | return (result : Bool)
  deriving DecidableEq, Repr

inductive Frame
  /-- The test of `running_` in `send`, which is called by a callback or not. -/
  | sendTest (caller : Option Entry) (data : List Byte) (len : ℕ)
  | lock
  | unlock
  | append (data : List Byte) (len : ℕ)
  /-- The test of `running_` in `onRead`. -/
  | readTest
  | read
  /-- The test of `running_` in `onWrite`. -/
  | writeTest
  | write
  /-- The test of `running_` in `close`. -/
  | closeTest (entry : Entry)
  /-- `running_ = false` in `close`. -/
  | closeStore (entry : Entry)
  | removeChannel (entry : Entry)
  | closeCb (entry : Entry)
  | disconnectCb (entry : Entry)
  /-- In a callback of the user. -/
  | user (cb : UserCallback) (entry : Entry)
  /-- `addTriggerEventForce`. -/
  | post
  deriving DecidableEq, Repr

/-- A connection with the threads that run its member functions: who holds `mutex_`, the closes
that are posted, which callbacks are set, and how often the channel was removed and `close_cb_`
and `disconnect_cb_` were called. -/
structure ConnThreads where
  running : Bool
  owner : Option ℕ
  readBuffer : BufferReader
  writeBuffer : BufferWriter
  threads : List (List Frame)
  posted : ℕ
  readCb : Bool
  closeCb : Bool
  disconnectCb : Bool
  removals : ℕ
  closeCalls : ℕ
  disconnectCalls : ℕ

/-- A step: a thread begins a call, goes on, or decides what a callback does. The thread `0` is the
one of the scheduler. -/
inductive ConnOp
  | send (thread : ℕ) (data : List Byte) (len : ℕ)
  | disconnect (thread : ℕ)
  | event (thread : ℕ) (entry : Entry)
  | trigger
  /-- With what the kernel answers, if it is asked. -/
  | run (thread : ℕ) (io : ChannelIo)
  | reply (thread : ℕ) (act : UserAct)

inductive ConnFault
  /-- The step is not possible. -/
  | blocked
  /-- A call on a buffer fails. -/
  | buffer (fault : Fault)
  deriving DecidableEq, Repr

namespace ConnThreads

/-- `onRead`, `onWrite`, `onClose`, `onError` and `onDisconnect`. -/
def eventBody : Entry → List Frame
  | .onRead => [.lock, .readTest, .unlock]
  | .onWrite => [.lock, .writeTest, .unlock]
  | entry => [.lock, .closeTest entry, .unlock]

/-- `send`, after its test of `running_`. -/
def sendBody (data : List Byte) (len : ℕ) : List Frame :=
  [.lock, .append data len, .unlock] ++ eventBody .onWrite

def disconnectBody : List Frame := [.lock, .post, .unlock]

/-- What a thread does at a frame, and the frames that take its place. -/
def exec (junk : ℕ → Byte) (s : ConnThreads) (thread : ℕ) (io : ChannelIo) :
    Frame → Except ConnFault (List Frame × ConnThreads)
  | .sendTest _ data len => .ok (if s.running then sendBody data len else [], s)
  | .lock =>
      if s.owner = none then .ok ([], { s with owner := some thread }) else .error .blocked
  | .unlock => .ok ([], { s with owner := none })
  | .append data len => do
      let (_, writer) ← (s.writeBuffer.append junk data (toUInt32 len)).mapError .buffer
      .ok ([], { s with writeBuffer := writer })
  | .readTest => .ok (if s.running then [.read] else [], s)
  | .read => do
      let (ret, _, reader) ← (s.readBuffer.readFd junk io.read).mapError .buffer
      .ok (if ret ≤ 0 then [.closeTest .onRead] else if s.readCb then [.user .read .onRead] else [],
        { s with readBuffer := reader })
  | .writeTest => .ok (if s.running then [.write] else [], s)
  | .write => do
      let (ret, _, writer) ← (s.writeBuffer.send io.write).mapError .buffer
      .ok (if ret < 0 then [.closeTest .onWrite] else [], { s with writeBuffer := writer })
  | .closeTest entry => .ok (if s.running then [.closeStore entry] else [], s)
  | .closeStore entry => .ok ([.removeChannel entry], { s with running := false })
  | .removeChannel entry => .ok ([.closeCb entry], { s with removals := s.removals + 1 })
  | .closeCb entry =>
      if s.closeCb then
        .ok ([.user .close entry, .disconnectCb entry], { s with closeCalls := s.closeCalls + 1 })
      else .ok ([.disconnectCb entry], s)
  | .disconnectCb entry =>
      if s.disconnectCb then
        .ok ([.user .disconnect entry], { s with disconnectCalls := s.disconnectCalls + 1 })
      else .ok ([], s)
  | .user _ _ => .error .blocked
  | .post => .ok ([], { s with posted := s.posted + 1 })

/-- The frames that take the place of a callback. A `read_cb_` that returns false has the
connection closed. -/
def replyFrames (cb : UserCallback) (entry : Entry) : UserAct → List Frame
  | .send data len => [.sendTest (some entry) data len, .user cb entry]
  | .disconnect => disconnectBody ++ [.user cb entry]
  | .return result => if cb = .read ∧ result = false then [.closeTest entry] else []

def begin (s : ConnThreads) (thread : ℕ) (frames : List Frame) :
    Except ConnFault (Unit × ConnThreads) :=
  if s.threads[thread]? = some [] then
    .ok ((), { s with threads := s.threads.set thread frames })
  else .error .blocked

def step (junk : ℕ → Byte) (s : ConnThreads) : ConnOp → Except ConnFault (Unit × ConnThreads)
  | .send thread data len => s.begin thread [.sendTest none data len]
  | .disconnect thread => s.begin thread disconnectBody
  | .event thread entry =>
      if entry = .trigger then .error .blocked else s.begin thread (eventBody entry)
  | .trigger =>
      if s.posted = 0 then .error .blocked
      else { s with posted := s.posted - 1 }.begin 0 [.closeTest .trigger]
  | .run thread io =>
      match s.threads[thread]? with
      | some (frame :: rest) => do
          let (frames, s') ← s.exec junk thread io frame
          .ok ((), { s' with threads := s.threads.set thread (frames ++ rest) })
      | _ => .error .blocked
  | .reply thread act =>
      match s.threads[thread]? with
      | some (.user cb entry :: rest) =>
          .ok ((), { s with threads := s.threads.set thread (replyFrames cb entry act ++ rest) })
      | _ => .error .blocked

/-- A thread is to lock `mutex_`, and holds it. -/
def LocksItself (s : ConnThreads) : Prop :=
  ∃ thread rest, s.threads[thread]? = some (.lock :: rest) ∧ s.owner = some thread

/-- A callback that is reached with `mutex_` held calls `disconnect`. -/
def Reenters (s : ConnThreads) : ConnOp → Prop
  | .reply thread .disconnect =>
      ∃ cb entry rest, s.threads[thread]? = some (.user cb entry :: rest) ∧ entry.locked = true
  | _ => False

theorem run_close (junk : ℕ → Byte) (self : ConnId) (sched : Scheduler) (io : ChannelIo)
    {s : ConnThreads} {conn : TcpConnection} {thread : ℕ} {entry : Entry} {rest : List Frame}
    (hhead : s.threads[thread]? = some (.closeTest entry :: rest))
    (hrunning : s.running = conn.running) (hclose : s.closeCb = false)
    (hdisconnect : s.disconnectCb = conn.disconnectCb) :
    ∃ us s', run (step junk) s
        (if conn.running then List.replicate 5 (.run thread io) ++
          if conn.disconnectCb then [.reply thread (.return true)] else []
        else [.run thread io]) = .ok (us, s') ∧
      s'.threads = s.threads.set thread rest ∧
      s'.running = (conn.close self sched).1.running ∧
      s'.removals = s.removals + (if conn.running then 1 else 0) ∧
      s'.disconnectCalls =
        s.disconnectCalls + if conn.running ∧ conn.disconnectCb then 1 else 0 := by
  have hlt : thread < s.threads.length := (List.getElem?_eq_some_iff.mp hhead).1
  have hself : ∀ stack, (s.threads.set thread stack)[thread]? = some stack :=
    fun stack => List.getElem?_set_self hlt
  cases hrun : conn.running with
  | false => simp [run, step, exec, hhead, hrunning, hrun, TcpConnection.close]
  | true =>
      cases hcb : conn.disconnectCb with
      | false =>
          simp [run, step, exec, hhead, hself, hrunning, hrun, hclose, hdisconnect, hcb,
            TcpConnection.close, List.replicate]
      | true =>
          simp [run, step, exec, replyFrames, hhead, hself, hrunning, hrun, hclose, hdisconnect,
            hcb, TcpConnection.close, List.replicate]

/-! ### What a step does -/

/-- The frames with which a thread begins. -/
inductive Call : List Frame → Prop
  | send (data : List Byte) (len : ℕ) : Call [.sendTest none data len]
  | disconnect : Call disconnectBody
  | event (entry : Entry) (h : entry.locked = true) : Call (eventBody entry)
  | close : Call [.closeTest .trigger]

theorem begin_eq_ok {s s' : ConnThreads} {thread : ℕ} {frames : List Frame} {u : Unit}
    (h : s.begin thread frames = .ok (u, s')) :
    s.threads[thread]? = some [] ∧ s' = { s with threads := s.threads.set thread frames } := by
  rw [ConnThreads.begin] at h
  split at h
  case isTrue hidle =>
    cases h
    exact ⟨hidle, rfl⟩
  case isFalse => cases h

/-- A step begins a call, which may take up a close that is posted, or it goes on with a frame, or
a callback decides. -/
theorem step_cases {junk : ℕ → Byte} {s s' : ConnThreads} {op : ConnOp} {u : Unit}
    (hstep : s.step junk op = .ok (u, s')) :
    (∃ thread frames posted, Call frames ∧ s.threads[thread]? = some [] ∧
      s' = { s with posted := posted, threads := s.threads.set thread frames }) ∨
    (∃ thread io frame rest frames s₁, op = .run thread io ∧
      s.threads[thread]? = some (frame :: rest) ∧ s.exec junk thread io frame = .ok (frames, s₁) ∧
      s' = { s₁ with threads := s.threads.set thread (frames ++ rest) }) ∨
    ∃ thread act cb entry rest, op = .reply thread act ∧
      s.threads[thread]? = some (.user cb entry :: rest) ∧
      s' = { s with threads := s.threads.set thread (replyFrames cb entry act ++ rest) } := by
  cases op with
  | send thread data len =>
      obtain ⟨hidle, heq⟩ := begin_eq_ok hstep
      exact .inl ⟨thread, _, _, .send data len, hidle, heq⟩
  | disconnect thread =>
      obtain ⟨hidle, heq⟩ := begin_eq_ok hstep
      exact .inl ⟨thread, _, _, .disconnect, hidle, heq⟩
  | event thread entry =>
      rw [step] at hstep
      split at hstep
      case isTrue => cases hstep
      case isFalse hentry =>
        have hlocked : entry.locked = true := by
          cases entry <;> first | rfl | exact absurd rfl hentry
        obtain ⟨hidle, heq⟩ := begin_eq_ok hstep
        exact .inl ⟨thread, _, _, .event entry hlocked, hidle, heq⟩
  | trigger =>
      rw [step] at hstep
      split at hstep
      case isTrue => cases hstep
      case isFalse =>
        obtain ⟨hidle, heq⟩ := begin_eq_ok hstep
        exact .inl ⟨0, _, _, .close, hidle, heq⟩
  | run thread io =>
      rw [step] at hstep
      split at hstep
      case h_1 frame rest hhead =>
        rw [bind_eq_ok] at hstep
        obtain ⟨⟨frames, s₁⟩, hexec, hset⟩ := hstep
        cases hset
        exact .inr (.inl ⟨thread, io, frame, rest, frames, s₁, rfl, hhead, hexec, rfl⟩)
      case h_2 => cases hstep
  | reply thread act =>
      rw [step] at hstep
      split at hstep
      case h_1 cb entry rest hhead =>
        cases hstep
        exact .inr (.inr ⟨thread, act, cb, entry, rest, rfl, hhead, rfl⟩)
      case h_2 => cases hstep

end ConnThreads

/-! ### Who holds the lock, and who is closing -/

namespace Frame

/-- Whether the thread holds `mutex_` when it is at the frame. -/
def locked : Frame → Bool
  | sendTest none _ _ | lock => false
  | unlock | append _ _ | readTest | read | writeTest | write | post => true
  | sendTest (some entry) _ _ | closeTest entry | closeStore entry | removeChannel entry
  | closeCb entry | disconnectCb entry | user _ entry => entry.locked

/-- Whether it holds `mutex_` after the frame. -/
def after (held : Bool) : Frame → Bool
  | lock => true
  | unlock => false
  | _ => held

/-- The frame comes after the store of false in `close`. -/
def closing : Frame → Bool
  | sendTest (some _) _ _ | removeChannel _ | closeCb _ | disconnectCb _ | user _ _ => true
  | _ => false

end Frame

namespace ConnThreads

/-- The thread of the stack holds `mutex_` where its frames say so. -/
def Fits : Bool → List Frame → Prop
  | held, [] => held = false
  | held, frame :: rest => held = frame.locked ∧ Fits (frame.after held) rest

/-- After the store `running_` is false. -/
def Stopped (s : ConnThreads) (stack : List Frame) : Prop :=
  ∀ frame ∈ stack, frame.closing = true → s.running = false

/-- Every thread holds `mutex_` where its frames say so, `running_` is false in the callbacks, and
nothing was read. -/
structure Kept (s : ConnThreads) : Prop where
  fits : ∀ thread stack, s.threads[thread]? = some stack → Fits (s.owner = some thread) stack
  stopped : ∀ stack ∈ s.threads, s.Stopped stack
  drained : BufferReader.Drained s.readBuffer.buffer

/-- No other thread gets or loses the lock, `running_` is not set again, and nothing was read. -/
structure Spares (s s' : ConnThreads) (thread : ℕ) : Prop where
  others : ∀ other, other ≠ thread → (s'.owner = some other ↔ s.owner = some other)
  running : s'.running = true → s.running = true
  drained : BufferReader.Drained s.readBuffer.buffer → BufferReader.Drained s'.readBuffer.buffer

theorem fits_eventBody {entry : Entry} (h : entry.locked = true) :
    Fits false (eventBody entry) := by
  cases entry <;> simp_all [eventBody, Fits, Frame.locked, Frame.after, Entry.locked]

theorem fits_sendBody (data : List Byte) (len : ℕ) {rest : List Frame} (hrest : Fits false rest) :
    Fits false (sendBody data len ++ rest) :=
  ⟨rfl, rfl, rfl, rfl, rfl, rfl, hrest⟩

theorem fits_ite {c : Prop} [Decidable c] {held : Bool} {next : Frame} {rest : List Frame}
    (hnext : Fits held (next :: rest)) (hrest : Fits held rest) :
    Fits held ((if c then [next] else []) ++ rest) := by
  split
  · exact hnext
  · exact hrest

theorem fits_disconnectBody {rest : List Frame} (hrest : Fits false rest) :
    Fits false (disconnectBody ++ rest) :=
  ⟨rfl, rfl, rfl, hrest⟩

section Steps

variable {junk : ℕ → Byte} {s s' : ConnThreads} {thread : ℕ}

/-- Where these three are as before, the others are spared. -/
theorem Spares.of_eq (howner : s'.owner = s.owner) (hrunning : s'.running = s.running)
    (hread : s'.readBuffer = s.readBuffer) : s.Spares s' thread where
  others _ _ := by rw [howner]
  running h := hrunning ▸ h
  drained h := by
    rw [hread]
    exact h

theorem Spares.stopped (h : s.Spares s' thread) {stack : List Frame} (hstack : s.Stopped stack) :
    s'.Stopped stack := by
  intro frame hframe hclosing
  have hfalse := hstack frame hframe hclosing
  cases hrunning : s'.running with
  | false => rfl
  | true => exact absurd (hfalse.symm.trans (h.running hrunning)) Bool.false_ne_true

theorem sendTest_fits {caller : Option Entry} {data : List Byte} {len : ℕ} {rest : List Frame}
    (hheld : decide (s.owner = some thread) = (Frame.sendTest caller data len).locked)
    (hstopped : (Frame.sendTest caller data len).closing = true → s.running = false)
    (hrest : Fits (s.owner = some thread) rest) :
    Fits (s.owner = some thread) ((if s.running then sendBody data len else []) ++ rest) := by
  cases caller with
  | none =>
      have hfree : decide (s.owner = some thread) = false := hheld
      rw [hfree] at hrest ⊢
      split
      · exact fits_sendBody data len hrest
      · exact hrest
  | some entry =>
      rw [hstopped rfl]
      exact hrest

theorem exec_spares {frame : Frame} {rest frames : List Frame} {io : ChannelIo}
    (hfits : Fits (s.owner = some thread) (frame :: rest))
    (hstopped : frame.closing = true → s.running = false)
    (hdrained : BufferReader.Drained s.readBuffer.buffer)
    (hexec : s.exec junk thread io frame = .ok (frames, s')) :
    Fits (s'.owner = some thread) (frames ++ rest) ∧ s'.Stopped frames ∧ s.Spares s' thread := by
  obtain ⟨hheld, hrest⟩ := hfits
  cases frame with
  | lock =>
      rw [exec] at hexec
      split at hexec
      case isTrue hfree =>
        cases hexec
        refine ⟨by simpa [Frame.after] using hrest, by simp [Stopped], fun other hne => ?_,
          fun h => h, fun h => h⟩
        simp [hfree, Ne.symm hne]
      case isFalse => cases hexec
  | unlock =>
      cases hexec
      refine ⟨by simpa [Frame.after] using hrest, by simp [Stopped], fun other hne => ?_,
        fun h => h, fun h => h⟩
      have howner : s.owner = some thread := of_decide_eq_true hheld
      simp [howner, Ne.symm hne]
  | sendTest caller data len =>
      cases hexec
      refine ⟨sendTest_fits hheld hstopped hrest, ?_, .of_eq rfl rfl rfl⟩
      split <;> simp [Stopped, sendBody, eventBody, Frame.closing]
  | append data len =>
      obtain ⟨⟨ok, writer⟩, -, heq⟩ := bind_eq_ok.mp hexec
      cases heq
      exact ⟨hrest, by simp [Stopped], .of_eq rfl rfl rfl⟩
  | read =>
      obtain ⟨b, hread, hdrained'⟩ := BufferReader.Drained.readFd junk hdrained io.read
      obtain ⟨⟨ret, accepted, reader⟩, hreadFd, heq⟩ := bind_eq_ok.mp hexec
      have hanswer : s.readBuffer.readFd junk io.read = .ok (0, [], ⟨b⟩) := hread
      rw [hanswer] at hreadFd
      cases hreadFd
      cases heq
      exact ⟨⟨hheld, hrest⟩, by simp [Stopped, Frame.closing], fun _ _ => Iff.rfl, fun h => h,
        fun _ => hdrained'⟩
  | write =>
      obtain ⟨⟨ret, accepted, writer⟩, -, heq⟩ := bind_eq_ok.mp hexec
      cases heq
      refine ⟨fits_ite ⟨hheld, hrest⟩ hrest, ?_, .of_eq rfl rfl rfl⟩
      split <;> simp [Stopped, Frame.closing]
  | readTest | writeTest | closeTest entry =>
    all_goals
      cases hexec
      refine ⟨fits_ite ⟨hheld, hrest⟩ hrest, ?_, .of_eq rfl rfl rfl⟩
      split <;> simp [Stopped, Frame.closing]
  | closeStore entry =>
      cases hexec
      exact ⟨⟨hheld, hrest⟩, fun _ _ _ => rfl, fun _ _ => Iff.rfl,
        fun h => absurd h Bool.false_ne_true, fun h => h⟩
  | removeChannel entry =>
      cases hexec
      exact ⟨⟨hheld, hrest⟩, fun _ _ _ => hstopped rfl, .of_eq rfl rfl rfl⟩
  | closeCb entry =>
      rw [exec] at hexec
      split at hexec
      case isTrue =>
        cases hexec
        exact ⟨⟨hheld, hheld, hrest⟩, fun _ _ _ => hstopped rfl, .of_eq rfl rfl rfl⟩
      case isFalse =>
        cases hexec
        exact ⟨⟨hheld, hrest⟩, fun _ _ _ => hstopped rfl, .of_eq rfl rfl rfl⟩
  | disconnectCb entry =>
      rw [exec] at hexec
      split at hexec
      case isTrue =>
        cases hexec
        exact ⟨⟨hheld, hrest⟩, fun _ _ _ => hstopped rfl, .of_eq rfl rfl rfl⟩
      case isFalse =>
        cases hexec
        exact ⟨hrest, fun _ _ _ => hstopped rfl, .of_eq rfl rfl rfl⟩
  | user cb entry => cases hexec
  | post =>
      cases hexec
      exact ⟨hrest, by simp [Stopped], .of_eq rfl rfl rfl⟩

theorem Kept.set (h : Kept s) {frames : List Frame}
    (hthreads : s'.threads = s.threads.set thread frames)
    (hfits : Fits (s'.owner = some thread) frames) (hstopped : s'.Stopped frames)
    (hspares : s.Spares s' thread) : Kept s' := by
  refine ⟨fun other stack hstack => ?_, fun stack hstack => ?_, hspares.drained h.drained⟩
  · rw [hthreads, List.getElem?_set] at hstack
    split at hstack
    case isTrue heq =>
      subst heq
      split at hstack
      · cases hstack
        exact hfits
      · cases hstack
    case isFalse hne =>
      simp only [hspares.others other (Ne.symm hne)]
      exact h.fits other stack hstack
  · rw [hthreads] at hstack
    rcases List.mem_or_eq_of_mem_set hstack with hold | rfl
    · exact hspares.stopped (h.stopped stack hold)
    · exact hstopped

theorem Call.fits {frames : List Frame} (h : Call frames) : Fits false frames := by
  cases h with
  | send | close => exact ⟨rfl, rfl⟩
  | disconnect => exact ⟨rfl, rfl, rfl, rfl⟩
  | event entry hlocked => exact fits_eventBody hlocked

theorem Call.stopped {frames : List Frame} (h : Call frames) : s.Stopped frames := by
  cases h with
  | send | close => simp [Stopped, Frame.closing]
  | disconnect => simp [Stopped, disconnectBody, Frame.closing]
  | event entry hlocked => cases entry <;> simp [Stopped, eventBody, Frame.closing]

theorem fits_replyFrames {cb : UserCallback} {entry : Entry} {act : UserAct} {held : Bool}
    {rest : List Frame} (hfits : Fits held (.user cb entry :: rest))
    (hact : act = .disconnect → entry.locked = false) :
    Fits held (replyFrames cb entry act ++ rest) := by
  obtain ⟨hheld, hrest⟩ := hfits
  cases act with
  | send data len => exact ⟨hheld, hheld, hrest⟩
  | disconnect =>
      have hfree : held = false := hheld.trans (hact rfl)
      subst hfree
      exact fits_disconnectBody ⟨hheld, hrest⟩
  | «return» result =>
      rw [replyFrames]
      exact fits_ite ⟨hheld, hrest⟩ hrest

theorem Stopped.append {frames rest : List Frame} (h : s.Stopped frames) (hrest : s.Stopped rest) :
    s.Stopped (frames ++ rest) := by
  intro frame hframe
  rcases List.mem_append.mp hframe with hframe | hframe
  · exact h frame hframe
  · exact hrest frame hframe

/-- One step: every thread holds the lock where its frames say so. -/
theorem step_kept {op : ConnOp} {u : Unit} (h : Kept s) (hop : ¬ s.Reenters op)
    (hstep : s.step junk op = .ok (u, s')) : Kept s' := by
  obtain ⟨thread, frames, posted, hcall, hidle, rfl⟩ |
    ⟨thread, io, frame, rest, frames, s₁, rfl, hhead, hexec, rfl⟩ |
    ⟨thread, act, cb, entry, rest, rfl, hhead, rfl⟩ := step_cases hstep
  · have hfree : decide (s.owner = some thread) = false := h.fits thread [] hidle
    refine h.set rfl ?_ hcall.stopped (.of_eq rfl rfl rfl)
    rw [hfree]
    exact hcall.fits
  · have hstopped := h.stopped _ (List.mem_of_getElem? hhead)
    obtain ⟨hfits, hframes, hspares⟩ := exec_spares (h.fits thread _ hhead)
      (hstopped frame (List.mem_cons_self ..)) h.drained hexec
    have hrest : s₁.Stopped rest := hspares.stopped fun frame hframe =>
      hstopped frame (List.mem_cons_of_mem _ hframe)
    exact h.set rfl hfits (hframes.append hrest) ⟨hspares.others, hspares.running, hspares.drained⟩
  · have hstopped := h.stopped _ (List.mem_of_getElem? hhead)
    have hrunning : s.running = false := hstopped _ (List.mem_cons_self ..) rfl
    refine h.set rfl (fits_replyFrames (h.fits thread _ hhead) ?_) (fun _ _ _ => hrunning)
      (.of_eq rfl rfl rfl)
    rintro rfl
    rw [← Bool.not_eq_true]
    exact fun hlocked => hop ⟨cb, entry, rest, hhead, hlocked⟩

theorem Kept.not_locksItself (h : Kept s) : ¬ s.LocksItself := by
  rintro ⟨thread, rest, hhead, howner⟩
  have hheld : decide (s.owner = some thread) = false := (h.fits thread _ hhead).1
  exact of_decide_eq_false hheld howner

theorem reenters_locksItself {op : ConnOp} (h : Kept s) (hop : s.Reenters op) :
    ∃ u s', s.step junk op = .ok (u, s') ∧ s'.LocksItself := by
  cases op with
  | reply thread act =>
      cases act with
      | disconnect =>
          obtain ⟨cb, entry, rest, hhead, hlocked⟩ := hop
          have howner : s.owner = some thread :=
            of_decide_eq_true ((h.fits thread _ hhead).1.trans hlocked)
          have hlt : thread < s.threads.length := (List.getElem?_eq_some_iff.mp hhead).1
          refine ⟨(), { s with
            threads := s.threads.set thread (disconnectBody ++ [.user cb entry] ++ rest) }, ?_, ?_⟩
          · simp only [step, hhead, replyFrames]
          · exact ⟨thread, _, List.getElem?_set_self hlt, howner⟩
      | send data len | «return» result => exact hop.elim
  | run thread io | send thread data len | disconnect thread | event thread entry | trigger =>
    exact hop.elim

end Steps

/-! ### Whole runs -/

/-- A connection that runs, with what is still to be sent, and `n` threads that are idle. -/
def start (junk : ℕ → Byte) (writeBuffer : BufferWriter) (n posted : ℕ)
    (readCb closeCb disconnectCb : Bool) : ConnThreads where
  running := true
  owner := none
  readBuffer := .new junk TcpConnection.kMaxBufferSize
  writeBuffer := writeBuffer
  threads := List.replicate n []
  posted := posted
  readCb := readCb
  closeCb := closeCb
  disconnectCb := disconnectCb
  removals := 0
  closeCalls := 0
  disconnectCalls := 0

theorem kept_start (junk : ℕ → Byte) (writeBuffer : BufferWriter) (n posted : ℕ)
    (readCb closeCb disconnectCb : Bool) :
    (start junk writeBuffer n posted readCb closeCb disconnectCb).Kept where
  fits thread stack hstack := by
    obtain rfl : stack = [] :=
      List.eq_of_mem_replicate (List.mem_iff_getElem?.mpr ⟨thread, hstack⟩)
    rfl
  stopped stack hstack := by
    obtain rfl : stack = [] := List.eq_of_mem_replicate hstack
    exact fun frame hframe => absurd hframe List.not_mem_nil
  drained := BufferReader.drained_new junk (by decide)

/-- No thread is ever to lock `mutex_` while it holds it exactly when no callback that is reached
with the lock held calls `disconnect`. -/
theorem reentrant_iff (junk : ℕ → Byte) (writeBuffer : BufferWriter) (n posted : ℕ)
    (readCb closeCb disconnectCb : Bool) (ops : List ConnOp) :
    AlongStates (step junk) (fun s => ¬ s.LocksItself)
        (start junk writeBuffer n posted readCb closeCb disconnectCb) ops ↔
      Along (step junk) (fun s op => ¬ s.Reenters op)
        (start junk writeBuffer n posted readCb closeCb disconnectCb) ops := by
  refine alongStates_iff_along (I := Kept) (V := fun _ _ => True) ?_ ?_ ?_
    (kept_start junk writeBuffer n posted readCb closeCb disconnectCb)
    (along_of_forall_mem fun _ _ => trivial)
  · exact fun s op u s' hkept _ hop hstep => step_kept hkept hop hstep
  · intro s op hkept _ hop
    obtain ⟨u, s', hstep, hlock⟩ := reenters_locksItself hkept (not_not.mp hop)
    exact ⟨u, s', hstep, not_not.mpr hlock⟩
  · exact fun s hkept => hkept.not_locksItself

/-- The peer hangs up, and `close_cb_` calls `disconnect`. -/
theorem hang_up_locks :
    ¬ AlongStates (step fun _ => 0) (fun s => ¬ s.LocksItself)
      (start (fun _ => 0) (.new TcpConnection.kMaxBufferSize) 1 0 false true false)
      (.event 0 .onClose :: List.replicate 5 (.run 0 ⟨⟨none, none⟩, none⟩) ++
        [.reply 0 .disconnect]) := by
  intro h
  have hlocked := (h.2 _ _ rfl).2 _ _ rfl
  have hstored := (hlocked.2 _ _ rfl).2 _ _ rfl
  have huser := (hstored.2 _ _ rfl).2 _ _ rfl
  exact (huser.2 _ _ rfl).head ⟨0, _, rfl, rfl⟩

end ConnThreads

end LpNet
