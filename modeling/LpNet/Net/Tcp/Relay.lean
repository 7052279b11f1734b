import LpNet.Lib.LockOrder
import LpNet.Net.Tcp.Connection
import Mathlib.Data.Fintype.Fin

/-!
The mutexes of the network classes, and close callbacks that use other connections.

`close` clears `running_` and then calls the close callback, with the mutex of the connection
held when an event led to it, or an `onWrite` that finds its queue empty. The callback may use
other connections, whose callbacks come inside of it when they close as well.
`relay_deadlock_free_iff` says for which callbacks threads wait for each other. `send` tests
`running_` before it locks anything, so that of connections that send to each other in a circle
one has closed before the others; their order in `closed` is what keeps the waits apart, and
`send` is safe in all directions. `disconnect` locks without a test, and is safe only where no
way leads back.

The schedulers are of the class `SelectManager`: an `EpollManager` has its mutex locked while it
calls the channels. All connections run at the start, though no code sets `running_`. What is
written is left out, so that any `onWrite` may find its queue empty, and so are the mutexes of
the loggers, which are locked last.
-/

namespace LpNet

open LockOrder Relation Transition

/-- The mutexes, by the object that has them. A scheduler has one of `TaskScheduler`, one of
`SelectManager`, that of its timers and that of its trigger queue. -/
inductive NetLock
  | acceptor (s : ℕ)
  | server (s : ℕ)
  | eventLoop (e : ℕ)
  | conn (c : ConnId)
  | select (k : ℕ)
  | scheduler (k : ℕ)
  | timers (k : ℕ)
  | triggerEvents (k : ℕ)
  deriving DecidableEq, Repr

inductive RelayCall
  | send (c : ConnId)
  | disconnect (c : ConnId)
  deriving DecidableEq, Repr

/-- A part of a call. Those that are done with a mutex held follow the call that they belong to. -/
inductive NetInstr
  | addTriggerEvent (k : ℕ)
  | addTriggerEventForce (k : ℕ)
  /-- `addTimer` and `removeTimer` of a scheduler. -/
  | changeTimers (k : ℕ)
  /-- `updateChannel`, `removeChannel`, and each of the two loops of `handleEvent`. -/
  | changeChannels (k : ℕ)
  /-- `while (!trigger_events_->empty())`. -/
  | empty (k : ℕ)
  | loopAddTriggerEvent (e k : ℕ)
  | loopChangeTimers (e k : ℕ)
  | loopChangeChannels (e k : ℕ)
  /-- `addTaskScheduler`, `getTaskScheduler` and `hasTaskScheduler`. -/
  | loopTable (e : ℕ)
  | send (c : ConnId)
  | onWrite (c : ConnId)
  /-- The rest of `onWrite`, with the mutex held. -/
  | write (c : ConnId)
  | onRead (c : ConnId)
  | read (c : ConnId)
  /-- `read_cb_(shared_from_this(), *read_buffer_)`. -/
  | readCb (c : ConnId)
  | onClose (c : ConnId)
  | onError (c : ConnId)
  /-- `close()`, at `if (running_)`. -/
  | close (c : ConnId)
  /-- `close()`, at `running_ = false`. -/
  | clear (c : ConnId)
  | disconnect (c : ConnId)
  /-- `onAccept()`, for a server with its loop and its scheduler. -/
  | onAccept (s e k : ℕ)
  | listen (s k : ℕ)
  | stop (s k : ℕ)
  /-- `acceptor_->close()`. -/
  | closeAcceptor (s k : ℕ)
  | removeConnection (s : ℕ)
  deriving DecidableEq, Repr

/-- What is not up to the threads: the kernel's answers, whether `onWrite` finds its queue empty,
`listen` or `accept` fails or a trigger queue is full, whether a disconnect callback is set, what
a callback does, and the connections of a server in the order of its table. -/
structure NetChoice where
  io : FdOutcome
  fails : Bool
  full : Bool
  disconnectCb : Bool
  calls : List RelayCall
  conns : List ConnId

/-- To which other connections the close callback of a connection sends, and which of them it
disconnects. -/
structure Relay where
  sends : ConnId → ConnId → Bool
  disconnects : ConnId → ConnId → Bool

/-- The connections, each with its scheduler and its read buffer, and those that are not running any
more, in the order in which they closed. -/
structure RelayWorld where
  home : ConnId → ℕ
  reader : ConnId → BufferReader
  closed : List ConnId

abbrev NetThreads (T : Type) := Threads RelayWorld NetLock NetInstr T

def RelayCall.instr : RelayCall → NetInstr
  | .send c => .send c
  | .disconnect c => .disconnect c

/-- Every connection is running. -/
def RelayWorld.start (junk : ℕ → Byte) (home : ConnId → ℕ) : RelayWorld where
  home := home
  reader _ := .new junk TcpConnection.kMaxBufferSize
  closed := []

namespace Relay

/-- The close callback of the connection may make this call. -/
def allows (relay : Relay) (c : ConnId) : RelayCall → Bool
  | .send c' => relay.sends c c'
  | .disconnect c' => relay.disconnects c c'

def exec (relay : Relay) (junk : ℕ → Byte) (choice : NetChoice) (instr : NetInstr)
    (w : RelayWorld) : List (LockInstr NetLock NetInstr) × RelayWorld :=
  match instr with
  | .addTriggerEvent k =>
      (.acquire (.triggerEvents k) :: .release (.triggerEvents k) ::
        if choice.full then []
        else [.acquire (.scheduler k), .acquire (.triggerEvents k), .release (.triggerEvents k),
          .release (.scheduler k)], w)
  | .addTriggerEventForce k =>
      (.acquire (.triggerEvents k) :: .release (.triggerEvents k) :: .acquire (.scheduler k) ::
        if choice.full then [.acquire (.timers k), .release (.timers k), .release (.scheduler k)]
        else [.acquire (.triggerEvents k), .release (.triggerEvents k), .release (.scheduler k)], w)
  | .changeTimers k =>
      ([.acquire (.scheduler k), .acquire (.timers k), .release (.timers k),
        .release (.scheduler k)], w)
  | .changeChannels k => ([.acquire (.select k), .release (.select k)], w)
  | .empty k => ([.acquire (.triggerEvents k), .release (.triggerEvents k)], w)
  | .loopAddTriggerEvent e k => (locked (.eventLoop e) (.addTriggerEvent k), w)
  | .loopChangeTimers e k => (locked (.eventLoop e) (.changeTimers k), w)
  | .loopChangeChannels e k => (locked (.eventLoop e) (.changeChannels k), w)
  | .loopTable e => ([.acquire (.eventLoop e), .release (.eventLoop e)], w)
  | .send c =>
      if c ∈ w.closed then ([], w)
      -- the mutex is left after `append` and locked again in `onWrite`
      else (.acquire (.conn c) :: .release (.conn c) :: locked (.conn c) (.write c), w)
  | .onWrite c => (locked (.conn c) (.write c), w)
  | .write c =>
      if c ∈ w.closed then ([], w)
      else if choice.fails then ([.call (.close c)], w)
      else ([], w)
  | .onRead c => (locked (.conn c) (.read c), w)
  | .read c =>
      if c ∈ w.closed then ([], w)
      else
        match (w.reader c).readFd junk choice.io with
        | .ok (ret, _, reader) =>
            (if ret ≤ 0 then [.call (.close c)] else [.call (.readCb c)],
              { w with reader := Function.update w.reader c reader })
        | .error _ => ([], w)
  | .readCb c =>
      ((choice.calls.map fun call => .call call.instr) ++
        (if choice.fails then [.call (.close c)] else []), w)
  | .onClose c => (locked (.conn c) (.close c), w)
  | .onError c => (locked (.conn c) (.close c), w)
  | .close c => if c ∈ w.closed then ([], w) else ([.call (.clear c)], w)
  | .clear c =>
      (.call (.changeChannels (w.home c)) ::
        (((choice.calls.filter (relay.allows c)).map fun call => .call call.instr) ++
          if choice.disconnectCb then [.call (.addTriggerEventForce (w.home c))] else []),
        { w with closed := if c ∈ w.closed then w.closed else w.closed ++ [c] })
  | .disconnect c => (locked (.conn c) (.addTriggerEventForce (w.home c)), w)
  | .onAccept s e k =>
      if choice.fails then ([.acquire (.acceptor s), .release (.acceptor s)], w)
      else
        ([.acquire (.acceptor s), .acquire (.eventLoop e), .release (.eventLoop e),
          .call (.changeChannels k), .acquire (.server s), .release (.server s),
          .release (.acceptor s)], w)
  | .listen s k =>
      if choice.fails then ([.acquire (.acceptor s), .release (.acceptor s)], w)
      else (locked (.acceptor s) (.changeChannels k), w)
  | .stop s k =>
      (.acquire (.server s) :: ((choice.conns.map fun c => .call (.disconnect c)) ++
        [.release (.server s), .call (.closeAcceptor s k)]), w)
  | .closeAcceptor s k =>
      if choice.fails then ([.acquire (.acceptor s), .release (.acceptor s)], w)
      else (locked (.acceptor s) (.changeChannels k), w)
  | .removeConnection s => ([.acquire (.server s), .release (.server s)], w)

/-- The calls that a thread may begin: those of the classes, and `conn->close()` from the trigger
queue. -/
def Begun : NetInstr → Bool
  | .write _ | .read _ | .readCb _ | .clear _ => false
  | _ => true

/-! ### The order of the mutexes -/

def Sends (relay : Relay) (a b : ConnId) : Prop := relay.sends a b = true

def Disconnects (relay : Relay) (a b : ConnId) : Prop := relay.disconnects a b = true

def Uses (relay : Relay) (a b : ConnId) : Prop := relay.Sends a b ∨ relay.Disconnects a b

/-- When `a` closed, `b` was still running. -/
def ClosedBefore (closed : List ConnId) (a b : ConnId) : Prop :=
  ∃ before after, closed = before ++ after ∧ a ∈ before ∧ b ∉ before

/-- The mutex of `b` is locked inside of that of `a`: by a `send`, which found `b` running when `a`
had closed, or by a `disconnect`. -/
def ConnBefore (relay : Relay) (w : RelayWorld) (a b : ConnId) : Prop :=
  TransGen relay.Sends a b ∧ ClosedBefore w.closed a b ∨
    ∃ m, ReflTransGen relay.Sends a m ∧ relay.Disconnects m b

def layer : NetLock → ℕ
  | .acceptor _ => 0
  | .server _ | .eventLoop _ => 1
  | .conn _ => 2
  | .select _ | .scheduler _ => 3
  | .timers _ | .triggerEvents _ => 4

def Before (relay : Relay) (w : RelayWorld) : NetLock → NetLock → Prop
  | .conn a, .conn b => relay.ConnBefore w a b
  | l, l' => layer l < layer l'

/-- The mutexes that may be held are those of the connection itself and of others that closed and
whose callbacks led to it. -/
def Led (relay : Relay) (w : RelayWorld) (c : ConnId) (l : NetLock) : Prop :=
  ∃ c', l = .conn c' ∧ (c' = c ∨ c' ∈ w.closed ∧ TransGen relay.Sends c' c)

/-- With which mutexes held a part of a call is done. -/
def Allowed (relay : Relay) (w : RelayWorld) (instr : NetInstr) (held : List NetLock) : Prop :=
  match instr with
  | .addTriggerEvent _ | .addTriggerEventForce _ | .changeTimers _ | .changeChannels _ =>
      ∀ l ∈ held, layer l < 3
  | .send c => ∀ l ∈ held, ∃ c', l = .conn c' ∧ c' ∈ w.closed ∧ TransGen relay.Sends c' c
  | .disconnect c =>
      ∀ l ∈ held, layer l < 2 ∨
        ∃ c' m, l = .conn c' ∧ ReflTransGen relay.Sends c' m ∧ relay.Disconnects m c
  | .write c | .read c | .close c | .clear c => ∀ l ∈ held, relay.Led w c l
  -- nothing is ever read
  | .readCb _ => False
  | _ => held = []

def Unread (w : RelayWorld) : Prop := ∀ c, BufferReader.Drained (w.reader c).buffer

variable {relay : Relay} {w : RelayWorld} {a b c : ConnId} {l l' : NetLock} {held : List NetLock}

theorem closedBefore_trans {closed : List ConnId} (hab : ClosedBefore closed a b)
    (hbc : ClosedBefore closed b c) : ClosedBefore closed a c := by
  obtain ⟨xs, xs', rfl, ha, hb⟩ := hab
  obtain ⟨ys, ys', heq, hb', hc⟩ := hbc
  refine ⟨ys, ys', heq, ?_, hc⟩
  -- `b` is in the second part and not in the first, which is the shorter one
  rcases List.append_eq_append_iff.mp heq with ⟨zs, rfl, -⟩ | ⟨zs, rfl, -⟩
  · exact List.mem_append_left zs ha
  · exact absurd (List.mem_append_left zs hb') hb

theorem not_closedBefore_self {closed : List ConnId} : ¬ ClosedBefore closed a a := by
  rintro ⟨xs, ys, -, hin, hout⟩
  exact hout hin

theorem closedBefore_append {closed : List ConnId} (h : ClosedBefore closed a b)
    (later : List ConnId) : ClosedBefore (closed ++ later) a b := by
  obtain ⟨xs, ys, rfl, ha, hb⟩ := h
  exact ⟨xs, ys ++ later, List.append_assoc .., ha, hb⟩

theorem closedBefore_of_running {closed : List ConnId} (ha : a ∈ closed) (hb : b ∉ closed) :
    ClosedBefore closed a b := ⟨closed, [], (List.append_nil closed).symm, ha, hb⟩

/-! ### The order has no cycle -/

theorem lt_or_conn_of_before (h : relay.Before w l l') :
    layer l < layer l' ∨ ∃ a b, l = .conn a ∧ l' = .conn b ∧ relay.ConnBefore w a b := by
  cases l <;> cases l' <;> first | exact .inl h | exact .inr ⟨_, _, rfl, rfl, h⟩

theorem lt_or_conn_of_transGen (h : TransGen (relay.Before w) l l') :
    layer l < layer l' ∨
      ∃ a b, l = .conn a ∧ l' = .conn b ∧ TransGen (relay.ConnBefore w) a b := by
  induction h with
  | single h =>
      rcases lt_or_conn_of_before h with hlt | ⟨a, b, rfl, rfl, hab⟩
      · exact .inl hlt
      · exact .inr ⟨a, b, rfl, rfl, .single hab⟩
  | tail _ h ih =>
      rcases lt_or_conn_of_before h with hlt | ⟨b, c, rfl, rfl, hbc⟩
      · rcases ih with hlt' | ⟨a, b, rfl, rfl, -⟩
        · exact .inl (hlt'.trans hlt)
        · exact .inl hlt
      · rcases ih with hlt' | ⟨a, b', rfl, heq, hab⟩
        · exact .inl hlt'
        · cases heq
          exact .inr ⟨a, c, rfl, rfl, hab.tail hbc⟩

theorem uses_of_sends (h : ReflTransGen relay.Sends a b) : ReflTransGen relay.Uses a b := by
  have hle : relay.Sends ≤ relay.Uses := fun _ _ hsends => .inl hsends
  exact ReflTransGen.mono hle _ _ h

/-- A way along the order is one of `send`s between connections that closed one after the other, or
there is a `disconnect` on it. -/
theorem way_of_transGen (h : TransGen (relay.ConnBefore w) a b) :
    ClosedBefore w.closed a b ∧ ReflTransGen relay.Uses a b ∨
      ∃ m n, relay.Disconnects m n ∧ ReflTransGen relay.Uses a m ∧ ReflTransGen relay.Uses n b := by
  induction h with
  | single h =>
      rcases h with ⟨hsends, hclosed⟩ | ⟨m, hsends, hdisconnects⟩
      · exact .inl ⟨hclosed, uses_of_sends hsends.to_reflTransGen⟩
      · exact .inr ⟨m, _, hdisconnects, uses_of_sends hsends, .refl⟩
  | @tail b c _ h ih =>
      rcases ih with ⟨hclosed, hway⟩ | ⟨m, n, hdisconnects, hto, hfrom⟩
      · rcases h with ⟨hsends, hclosed'⟩ | ⟨m, hsends, hdisconnects⟩
        · exact .inl ⟨closedBefore_trans hclosed hclosed',
            hway.trans (uses_of_sends hsends.to_reflTransGen)⟩
        · exact .inr ⟨m, c, hdisconnects, hway.trans (uses_of_sends hsends), .refl⟩
      · refine .inr ⟨m, n, hdisconnects, hto, hfrom.trans ?_⟩
        rcases h with ⟨hsends, -⟩ | ⟨m', hsends, hdisconnects'⟩
        · exact uses_of_sends hsends.to_reflTransGen
        · exact (uses_of_sends hsends).tail (.inr hdisconnects')

/-- Where no way leads back from what a callback disconnects the order has no cycle. -/
theorem not_transGen_before (hfree : ∀ a b, relay.Disconnects a b → ¬ ReflTransGen relay.Uses b a)
    (w : RelayWorld) (l : NetLock) : ¬ TransGen (relay.Before w) l l := by
  intro hcycle
  rcases lt_or_conn_of_transGen hcycle with hlt | ⟨a, b, rfl, heq, hab⟩
  · exact lt_irrefl _ hlt
  · cases heq
    rcases way_of_transGen hab with ⟨hclosed, -⟩ | ⟨m, n, hdisconnects, hto, hfrom⟩
    · exact not_closedBefore_self hclosed
    · exact hfree m n hdisconnects (hfrom.trans hto)

/-! ### Every mutex is locked in this order -/

variable {junk : ℕ → Byte} {choice : NetChoice} {instr : NetInstr}

theorem exec_cases (relay : Relay) (junk : ℕ → Byte) (choice : NetChoice) (instr : NetInstr)
    (w : RelayWorld) : (relay.exec junk choice instr w).2 = w ∨ (∃ c, instr = .clear c) ∨
      ∃ c, instr = .read c := by
  cases instr with
  | clear c => exact .inr (.inl ⟨c, rfl⟩)
  | read c => exact .inr (.inr ⟨c, rfl⟩)
  | send c => exact .inl (by simp only [exec]; split <;> rfl)
  | write c => exact .inl (by simp only [exec]; split <;> [rfl; split <;> rfl])
  | close c => exact .inl (by simp only [exec]; split <;> rfl)
  | onAccept s e k => exact .inl (by simp only [exec]; split <;> rfl)
  | listen s k => exact .inl (by simp only [exec]; split <;> rfl)
  | closeAcceptor s k => exact .inl (by simp only [exec]; split <;> rfl)
  | _ => exact .inl rfl

theorem exec_closed (relay : Relay) (junk : ℕ → Byte) (choice : NetChoice) (instr : NetInstr)
    (w : RelayWorld) : ∃ later, (relay.exec junk choice instr w).2.closed = w.closed ++ later := by
  rcases exec_cases relay junk choice instr w with heq | ⟨c, rfl⟩ | ⟨c, rfl⟩
  · exact ⟨[], by rw [heq, List.append_nil]⟩
  · simp only [exec]
    split
    · exact ⟨[], (List.append_nil _).symm⟩
    · exact ⟨[c], rfl⟩
  · refine ⟨[], ?_⟩
    simp only [exec, List.append_nil]
    split
    · rfl
    · split <;> rfl

theorem before_mono {w' : RelayWorld} {later : List ConnId} (hlater : w'.closed = w.closed ++ later)
    (h : relay.Before w l l') : relay.Before w' l l' := by
  cases l <;> cases l' <;> first
    | exact h
    | exact h.imp_left (And.imp_right fun hclosed => hlater ▸ closedBefore_append hclosed later)

theorem led_mono {w' : RelayWorld} {later : List ConnId} (hlater : w'.closed = w.closed ++ later)
    (h : relay.Led w c l) : relay.Led w' c l := by
  obtain ⟨c', rfl, hc'⟩ := h
  refine ⟨c', rfl, hc'.imp_right (And.imp_left fun hclosed => ?_)⟩
  rw [hlater]
  exact List.mem_append_left later hclosed

theorem allowed_mono {w' : RelayWorld} {later : List ConnId}
    (hlater : w'.closed = w.closed ++ later) (h : relay.Allowed w instr held) :
    relay.Allowed w' instr held := by
  cases instr with
  | send c =>
      intro l hl
      obtain ⟨c', rfl, hclosed, hsends⟩ := h l hl
      exact ⟨c', rfl, hlater ▸ List.mem_append_left later hclosed, hsends⟩
  | write c => exact fun l hl => led_mono hlater (h l hl)
  | read c => exact fun l hl => led_mono hlater (h l hl)
  | close c => exact fun l hl => led_mono hlater (h l hl)
  | clear c => exact fun l hl => led_mono hlater (h l hl)
  | _ => exact h

theorem before_of_layer (h : layer l < layer l') : relay.Before w l l' := by
  cases l <;> cases l' <;> first | exact h | exact absurd h (lt_irrefl 2)

theorem Led.layer_lt (h : relay.Led w c l) : layer l < 3 := by
  obtain ⟨c', rfl, -⟩ := h
  exact Nat.lt_succ_self 2

/-- A part of a call in which the mutex of a connection is locked last. -/
theorem led_cons (h : ∀ l ∈ held, relay.Led w c l) : ∀ l ∈ .conn c :: held, relay.Led w c l :=
  List.forall_mem_cons.mpr ⟨⟨c, rfl, .inl rfl⟩, h⟩

theorem before_of_mem {n : ℕ} (h : ∀ l ∈ held, layer l < n) (hn : n ≤ layer l') :
    ∀ l ∈ held, relay.Before w l l' := fun l hl => before_of_layer ((h l hl).trans_le hn)

theorem leads_scheduler {fits : NetInstr → List NetLock → Prop} (h : ∀ l ∈ held, layer l < 3)
    (k : ℕ) (hlayer : layer l' = 4) :
    Leads (relay.Before w) fits
      [.acquire (.scheduler k), .acquire l', .release l', .release (.scheduler k)] held held := by
  have hinner : ∀ l ∈ .scheduler k :: held, relay.Before w l l' := by
    refine List.forall_mem_cons.mpr ⟨before_of_layer ?_, before_of_mem h ?_⟩
    · rw [hlayer]
      exact Nat.lt_succ_self 3
    · rw [hlayer]
      exact Nat.le_succ 3
  exact ⟨before_of_mem h (Nat.le_refl 3), leads_touch hinner ⟨held, rfl, rfl⟩⟩

theorem allowed_call {call : RelayCall} (hclosed : c ∈ w.closed)
    (hcall : relay.allows c call = true) (h : ∀ l ∈ held, relay.Led w c l) :
    relay.Allowed w call.instr held := by
  cases call with
  | send c' =>
      intro l hl
      obtain ⟨c₁, rfl, rfl | ⟨hclosed₁, hsends⟩⟩ := h l hl
      · exact ⟨c₁, rfl, hclosed, .single hcall⟩
      · exact ⟨c₁, rfl, hclosed₁, hsends.tail hcall⟩
  | disconnect c' =>
      intro l hl
      obtain ⟨c₁, rfl, rfl | ⟨hclosed₁, hsends⟩⟩ := h l hl
      · exact .inr ⟨c₁, c₁, rfl, .refl, hcall⟩
      · exact .inr ⟨c₁, c, rfl, hsends.to_reflTransGen, hcall⟩

theorem exec_read_closed (hclosed : c ∈ w.closed) :
    relay.exec junk choice (.read c) w = ([], w) := by
  simp only [exec, if_pos hclosed]

theorem exec_read (hunread : Unread w) (hrunning : c ∉ w.closed) :
    ∃ reader : BufferReader, BufferReader.Drained reader.buffer ∧
      relay.exec junk choice (.read c) w =
        ([.call (.close c)], { w with reader := Function.update w.reader c reader }) := by
  obtain ⟨b, hread, hb⟩ := (hunread c).readFd junk choice.io
  have hreadFd : (w.reader c).readFd junk choice.io = .ok (0, [], ⟨b⟩) := hread
  refine ⟨⟨b⟩, hb, ?_⟩
  simp only [exec, if_neg hrunning, hreadFd, le_refl, if_true]

theorem mem_closed_clear : c ∈ (relay.exec junk choice (.clear c) w).2.closed := by
  simp only [exec]
  split
  case isTrue hmem => exact hmem
  case isFalse => exact List.mem_append_right _ (List.mem_singleton_self c)

theorem exec_unread (relay : Relay) (junk : ℕ → Byte) (choice : NetChoice) (instr : NetInstr)
    (hunread : Unread w) : Unread (relay.exec junk choice instr w).2 := by
  rcases exec_cases relay junk choice instr w with heq | ⟨c, rfl⟩ | ⟨c, rfl⟩
  · rw [heq]
    exact hunread
  · exact hunread
  · by_cases hclosed : c ∈ w.closed
    case pos =>
      rw [exec_read_closed hclosed]
      exact hunread
    case neg =>
      obtain ⟨reader, hreader, hexec⟩ := @exec_read relay w c junk choice hunread hclosed
      rw [hexec]
      intro c'
      by_cases hc : c' = c
      case pos =>
        subst hc
        simpa using hreader
      case neg => simpa [hc] using hunread c'

theorem ordered (relay : Relay) (junk : ℕ → Byte) :
    Ordered relay.Before relay.Allowed (fun instr => Begun instr = true) Unread
      (relay.exec junk) where
  begins instr w hbegun _ := by
    cases instr <;> first
      | rfl
      | exact fun _ h => (List.not_mem_nil h).elim
      | cases hbegun
  keeps choice instr _ _ hunread _ := exec_unread relay junk choice instr hunread
  order_mono choice instr w l l' h := by
    obtain ⟨later, hlater⟩ := exec_closed relay junk choice instr w
    exact before_mono hlater h
  fits_mono choice instr w instr' held h := by
    obtain ⟨later, hlater⟩ := exec_closed relay junk choice instr w
    exact allowed_mono hlater h
  leads choice instr w held hunread hallowed := by
    have hnil : ∀ l', ∀ l ∈ ([] : List NetLock), relay.Before w l l' :=
      fun _ _ h => (List.not_mem_nil h).elim
    have hself : ∀ c, ∀ l ∈ [NetLock.conn c], relay.Led w c l :=
      fun c => led_cons fun _ h => (List.not_mem_nil h).elim
    have hlow : ∀ l, layer l < 3 → ∀ l' ∈ [l], layer l' < 3 :=
      fun l hl l' hl' => List.mem_singleton.mp hl' ▸ hl
    cases instr with
    | addTriggerEvent k =>
        refine leads_touch (before_of_mem hallowed (Nat.le_succ 3)) ?_
        split
        · rfl
        · exact leads_scheduler hallowed k rfl
    | addTriggerEventForce k =>
        refine leads_touch (before_of_mem hallowed (Nat.le_succ 3)) ?_
        split
        · exact leads_scheduler hallowed k rfl
        · exact leads_scheduler hallowed k rfl
    | changeTimers k => exact leads_scheduler hallowed k rfl
    | changeChannels k => exact leads_touch (before_of_mem hallowed (Nat.le_refl 3)) rfl
    | empty k =>
        obtain rfl : held = [] := hallowed
        exact leads_touch (hnil _) rfl
    | loopAddTriggerEvent e k =>
        obtain rfl : held = [] := hallowed
        exact leads_locked (hnil _) (hlow _ (show 1 < 3 by decide))
    | loopChangeTimers e k =>
        obtain rfl : held = [] := hallowed
        exact leads_locked (hnil _) (hlow _ (show 1 < 3 by decide))
    | loopChangeChannels e k =>
        obtain rfl : held = [] := hallowed
        exact leads_locked (hnil _) (hlow _ (show 1 < 3 by decide))
    | loopTable e =>
        obtain rfl : held = [] := hallowed
        exact leads_touch (hnil _) rfl
    | send c =>
        simp only [exec]
        split
        case isTrue => rfl
        case isFalse hrunning =>
          -- the connection was running when all of those whose callbacks led here had closed
          have hbefore : ∀ l ∈ held, relay.Before w l (.conn c) := by
            intro l hl
            obtain ⟨c', rfl, hclosed, hsends⟩ := hallowed l hl
            exact .inl ⟨hsends, closedBefore_of_running hclosed hrunning⟩
          refine leads_touch hbefore (leads_locked hbefore (led_cons fun l hl => ?_))
          obtain ⟨c', rfl, hclosed, hsends⟩ := hallowed l hl
          exact ⟨c', rfl, .inr ⟨hclosed, hsends⟩⟩
    | onWrite c =>
        obtain rfl : held = [] := hallowed
        exact leads_locked (hnil _) (hself c)
    | write c =>
        simp only [exec]
        split
        · rfl
        · split
          · exact ⟨hallowed, rfl⟩
          · rfl
    | onRead c =>
        obtain rfl : held = [] := hallowed
        exact leads_locked (hnil _) (hself c)
    | read c =>
        by_cases hclosed : c ∈ w.closed
        case pos =>
          rw [exec_read_closed hclosed]
          rfl
        case neg =>
          obtain ⟨reader, -, hexec⟩ := exec_read hunread hclosed
          rw [hexec]
          exact ⟨hallowed, rfl⟩
    | readCb c => exact hallowed.elim
    | onClose c =>
        obtain rfl : held = [] := hallowed
        exact leads_locked (hnil _) (hself c)
    | onError c =>
        obtain rfl : held = [] := hallowed
        exact leads_locked (hnil _) (hself c)
    | close c =>
        simp only [exec]
        split
        · rfl
        · exact ⟨hallowed, rfl⟩
    | clear c =>
        obtain ⟨later, hlater⟩ := exec_closed relay junk choice (.clear c) w
        have hled : ∀ l ∈ held, relay.Led (relay.exec junk choice (.clear c) w).2 c l :=
          fun l hl => led_mono hlater (hallowed l hl)
        have hlayer : ∀ l ∈ held, layer l < 3 := fun l hl => (hled l hl).layer_lt
        refine ⟨hlayer, leads_calls (fun call hcall => ?_) ?_⟩
        · exact allowed_call mem_closed_clear (List.mem_filter.mp hcall).2 hled
        · split
          · exact ⟨hlayer, rfl⟩
          · rfl
    | disconnect c =>
        refine leads_locked (fun l hl => ?_) (List.forall_mem_cons.mpr ⟨show 2 < 3 by decide, ?_⟩)
        · rcases hallowed l hl with hlt | ⟨c', m, rfl, hsends, hdisconnects⟩
          · exact before_of_layer hlt
          · exact .inr ⟨m, hsends, hdisconnects⟩
        · intro l hl
          rcases hallowed l hl with hlt | ⟨c', m, rfl, -, -⟩
          · exact hlt.trans (by decide)
          · exact show 2 < 3 by decide
    | onAccept s e k =>
        obtain rfl : held = [] := hallowed
        have hfirst : ∀ l, 0 < layer l → ∀ l' ∈ [NetLock.acceptor s], relay.Before w l' l :=
          fun l hl l' hl' => List.mem_singleton.mp hl' ▸ before_of_layer hl
        simp only [exec]
        split
        · exact leads_touch (hnil _) rfl
        · refine ⟨hnil _, leads_touch (hfirst _ Nat.one_pos) ⟨hlow _ (show 0 < 3 by decide), ?_⟩⟩
          exact leads_touch (hfirst _ Nat.one_pos) ⟨[], rfl, rfl⟩
    | listen s k =>
        obtain rfl : held = [] := hallowed
        simp only [exec]
        split
        · exact leads_touch (hnil _) rfl
        · exact leads_locked (hnil _) (hlow _ (show 0 < 3 by decide))
    | stop s k =>
        obtain rfl : held = [] := hallowed
        refine ⟨hnil _, leads_calls (fun c _ l hl => .inl ?_) ⟨[], rfl, rfl, rfl⟩⟩
        rw [List.mem_singleton.mp hl]
        exact Nat.one_lt_two
    | closeAcceptor s k =>
        obtain rfl : held = [] := hallowed
        simp only [exec]
        split
        · exact leads_touch (hnil _) rfl
        · exact leads_locked (hnil _) (hlow _ (show 0 < 3 by decide))
    | removeConnection s =>
        obtain rfl : held = [] := hallowed
        exact leads_touch (hnil _) rfl

end Relay

namespace NetThreads

open Relay

variable {T : Type} [DecidableEq T] {relay : Relay} {junk : ℕ → Byte} {home : ConnId → ℕ}
variable {x : NetThreads T} {t : T} {c : ConnId}

abbrev Reached (relay : Relay) (junk : ℕ → Byte) (home : ConnId → ℕ) (x : NetThreads T) : Prop :=
  Threads.Reached (relay.exec junk) (fun instr => Begun instr = true) (.start junk home) x

theorem start_unread (junk : ℕ → Byte) (home : ConnId → ℕ) : Unread (.start junk home) :=
  fun _ => BufferReader.drained_new junk (by decide)

/-! ### A way back -/

/-- A thread to which `EVENT_HUP` is reported comes to a call of the close callback. -/
theorem closes (h : Reached relay junk home x) (hidle : x.todo t = [])
    (hfree : x.owner (.conn c) = none) (hselect : ∀ k, x.owner (.select k) = none)
    (hrunning : c ∉ x.data.closed) {call : RelayCall} (hcall : relay.allows c call = true) :
    ∃ y : NetThreads T, Reached relay junk home y ∧ y.data.closed = x.data.closed ++ [c] ∧
      y.owner = Function.update x.owner (.conn c) (some t) ∧
      y.todo = Function.update x.todo t [.call call.instr, .release (.conn c)] := by
  let choice : NetChoice := ⟨⟨none, none⟩, false, false, false, [call], []⟩
  have hchoice : Nonempty NetChoice := ⟨choice⟩
  obtain ⟨x₁, h₁, hdata₁, howner₁, htodo₁⟩ := h.begin hidle (i := .onClose c) rfl
  obtain ⟨x₂, h₂, hdata₂, howner₂, htodo₂⟩ := h₁.call choice (by rw [htodo₁, Function.update_self])
  rw [htodo₁, Function.update_idem] at htodo₂
  obtain ⟨x₃, h₃, hdata₃, howner₃, htodo₃⟩ :=
    h₂.acquire (by rw [htodo₂, Function.update_self]; rfl) (by rw [howner₂, howner₁, hfree])
  rw [htodo₂, Function.update_idem] at htodo₃
  have hrunning₃ : c ∉ x₃.data.closed := by
    rw [hdata₃, hdata₂, hdata₁]
    exact hrunning
  obtain ⟨x₄, h₄, hdata₄, howner₄, htodo₄⟩ :=
    h₃.call choice (by rw [htodo₃, Function.update_self]; rfl)
  simp only [exec, if_neg hrunning₃] at hdata₄ htodo₄
  rw [htodo₃, Function.update_idem] at htodo₄
  obtain ⟨x₅, h₅, hdata₅, howner₅, htodo₅⟩ :=
    h₄.call choice (by rw [htodo₄, Function.update_self]; rfl)
  rw [htodo₄, Function.update_idem] at htodo₅
  have hclosed : x₅.data.closed = x.data.closed ++ [c] := by
    rw [hdata₅, hdata₄]
    simp only [exec, if_neg hrunning₃]
    rw [hdata₃, hdata₂, hdata₁]
    rfl
  -- the callback is called when the channel is taken out
  have hcalls : x₅.todo t = .call (.changeChannels (x₄.data.home c)) :: .call call.instr ::
      [.release (.conn c)] := by
    rw [htodo₅, Function.update_self]
    simp [exec, choice, hcall]
  obtain ⟨x₆, h₆, hdata₆, howner₆, htodo₆⟩ := h₅.call choice hcalls
  rw [htodo₅, Function.update_idem] at htodo₆
  have howner₅' : x₅.owner = Function.update x.owner (.conn c) (some t) := by
    rw [howner₅, howner₄, howner₃, howner₂, howner₁]
  have hfree₆ : x₆.owner (.select (x₄.data.home c)) = none := by
    rw [howner₆, howner₅']
    simp [hselect]
  obtain ⟨x₇, h₇, hdata₇, howner₇, htodo₇⟩ :=
    h₆.acquire (by rw [htodo₆, Function.update_self]; rfl) hfree₆
  rw [htodo₆, Function.update_idem] at htodo₇
  obtain ⟨x₈, h₈, hdata₈, howner₈, htodo₈⟩ :=
    h₇.release (by rw [htodo₇, Function.update_self]; rfl)
  rw [htodo₇, Function.update_idem] at htodo₈
  refine ⟨x₈, h₈, ?_, ?_, htodo₈⟩
  · rw [hdata₈, hdata₇, hdata₆]
    exact hclosed
  · rw [howner₈, howner₇, Function.update_idem, ← hfree₆, Function.update_eq_self, howner₆,
      howner₅']

/-- Threads that close the connections of a way in their order, each of which waits for the next
one. -/
structure Chained {n : ℕ} (v : ℕ → ConnId) (k : ℕ) (x : NetThreads (Fin n)) : Prop where
  waits : ∀ j : Fin n, j < k → x.wants j = some (.conn (v (j + 1)))
  idle : ∀ j : Fin n, k ≤ j → x.todo j = []
  owner : ∀ j : Fin n, j < k → x.owner (.conn (v j)) = some j
  free : ∀ l, (∀ j < k, l ≠ .conn (v j)) → x.owner l = none
  closed : ∀ c ∈ x.data.closed, ∃ j < k, c = v j

/-- The next thread closes its connection, and waits for the one behind it. -/
theorem Chained.succ {n k : ℕ} {v : ℕ → ConnId} {x : NetThreads (Fin (n + 1))}
    (hchained : Chained v k x) (h : Reached relay junk home x) (hk : k ≤ n)
    (huses : k < n → relay.Uses (v k) (v (k + 1)))
    (hlast : k = n → relay.Disconnects (v k) (v (k + 1)))
    (hapart : ∀ i j, i ≤ n → j ≤ n → v i = v j → i = j) :
    ∃ y : NetThreads (Fin (n + 1)), Reached relay junk home y ∧ Chained v (k + 1) y := by
  let t : Fin (n + 1) := ⟨k, Nat.lt_succ_of_le hk⟩
  have hnew : ∀ j < k, (.conn (v k) : NetLock) ≠ .conn (v j) := fun j hj heq =>
    absurd (hapart k j hk (by omega) (NetLock.conn.inj heq)) (by omega)
  have hrunning : v k ∉ x.data.closed := fun hmem => by
    obtain ⟨j, hj, heq⟩ := hchained.closed _ hmem
    exact hnew j hj (congrArg NetLock.conn heq)
  -- the call that is not made before the next connection can be locked
  obtain ⟨call, hcall, hwaits⟩ : ∃ call : RelayCall, relay.allows (v k) call = true ∧
      ∀ w : RelayWorld, w.closed = x.data.closed ++ [v k] →
        ∃ rest, (relay.exec junk ⟨⟨none, none⟩, false, false, false, [], []⟩ call.instr w).1 =
          .acquire (.conn (v (k + 1))) :: rest := by
    rcases hk.lt_or_eq with hlt | rfl
    · rcases huses hlt with hsends | hdisconnects
      · refine ⟨.send (v (k + 1)), hsends, fun w hw =>
          ⟨.release (.conn (v (k + 1))) :: locked (.conn (v (k + 1))) (.write (v (k + 1))), ?_⟩⟩
        have hnext : v (k + 1) ∉ w.closed := by
          rw [hw, List.mem_append, List.mem_singleton]
          rintro (hmem | heq)
          · obtain ⟨j, hj, heq⟩ := hchained.closed _ hmem
            exact absurd (hapart (k + 1) j hlt (by omega) heq) (by omega)
          · exact absurd (hapart (k + 1) k hlt hk heq) (by omega)
        simp only [RelayCall.instr, exec, if_neg hnext]
      · exact ⟨.disconnect (v (k + 1)), hdisconnects, fun w _ => ⟨_, rfl⟩⟩
    · exact ⟨.disconnect (v (k + 1)), hlast rfl, fun w _ => ⟨_, rfl⟩⟩
  obtain ⟨y, hy, hclosed, howner, htodo⟩ := closes (t := t) h (hchained.idle t (Nat.le_refl k))
    (hchained.free _ hnew) (fun k' => hchained.free _ fun j _ heq => by cases heq) hrunning hcall
  obtain ⟨rest, hexec⟩ := hwaits y.data hclosed
  obtain ⟨z, hz, hdata, hownerz, htodoz⟩ := hy.call
    ⟨⟨none, none⟩, false, false, false, [], []⟩ (by rw [htodo, Function.update_self])
  rw [hexec, htodo, Function.update_idem] at htodoz
  have hother : ∀ j : Fin (n + 1), j ≠ t → z.todo j = x.todo j := fun j hj => by
    rw [htodoz, Function.update_of_ne hj]
  have hval : ∀ j : Fin (n + 1), (j : ℕ) ≠ k → j ≠ t := fun j hj heq => hj (congrArg Fin.val heq)
  refine ⟨z, hz, fun j hj => ?_, fun j hj => ?_, fun j hj => ?_, fun l hl => ?_, fun c hc => ?_⟩
  · by_cases hjk : (j : ℕ) = k
    case pos =>
      obtain rfl : j = t := Fin.ext hjk
      exact Threads.wants_eq_some.mpr ⟨_, by rw [htodoz, Function.update_self]; rfl⟩
    case neg =>
      rw [Threads.wants, hother j (hval j hjk)]
      exact hchained.waits j (by omega)
  · rw [hother j (hval j (by omega))]
    exact hchained.idle j (by omega)
  · rw [hownerz, howner]
    by_cases hjk : (j : ℕ) = k
    case pos =>
      obtain rfl : j = t := Fin.ext hjk
      exact Function.update_self ..
    case neg =>
      rw [Function.update_of_ne (hnew j (by omega)).symm]
      exact hchained.owner j (by omega)
  · rw [hownerz, howner, Function.update_of_ne (hl k (Nat.lt_succ_self k))]
    exact hchained.free l fun j hj => hl j (by omega)
  · have hsame : z.data = y.data := by
      rw [hdata]
      rcases exec_cases relay junk ⟨⟨none, none⟩, false, false, false, [], []⟩ call.instr y.data
        with heq | ⟨c, heq⟩ | ⟨c, heq⟩
      · exact heq
      · cases call <;> cases heq
      · cases call <;> cases heq
    rw [hsame, hclosed, List.mem_append, List.mem_singleton] at hc
    rcases hc with hold | rfl
    · obtain ⟨j, hj, rfl⟩ := hchained.closed c hold
      exact ⟨j, by omega, rfl⟩
    · exact ⟨k, Nat.lt_succ_self k, rfl⟩

/-- Whatever the threads do, none of them ever comes to call a read callback. -/
theorem read_callback_never (relay : Relay) (junk : ℕ → Byte) (home : ConnId → ℕ)
    (x : NetThreads T) (h : Reached relay junk home x) (t : T) (c : ConnId) :
    .call (.readCb c) ∉ x.todo t := by
  obtain ⟨held, horderly⟩ := Threads.Reached.orderly (ordered relay junk) (start_unread junk home) h
  intro hmem
  obtain ⟨held', hallowed⟩ := (horderly.leads t).exists_fits hmem
  exact hallowed

/-- A thread that is about to read. -/
theorem read_callback_never_read : ∃ x : NetThreads (Fin 1),
    x.todo 0 = [.call (.read 0), .release (.conn 0)] ∧ .call (.readCb 0) ∉ x.todo 0 := by
  let relay : Relay := ⟨fun _ _ => false, fun _ _ => false⟩
  let choice : NetChoice := ⟨⟨none, none⟩, false, false, false, [], []⟩
  have hchoice : Nonempty NetChoice := ⟨choice⟩
  have h : Reached relay (fun _ => 0) id (.start (.start (fun _ => 0) id) : NetThreads (Fin 1)) :=
    .start
  obtain ⟨x₁, h₁, hdata₁, howner₁, htodo₁⟩ := h.begin (t := 0) (i := .onRead 0) rfl rfl
  obtain ⟨x₂, h₂, hdata₂, howner₂, htodo₂⟩ := h₁.call choice (by rw [htodo₁, Function.update_self])
  obtain ⟨x₃, h₃, hdata₃, howner₃, htodo₃⟩ :=
    h₂.acquire (by rw [htodo₂, Function.update_self]; rfl) (by rw [howner₂, howner₁]; rfl)
  refine ⟨x₃, by rw [htodo₃, Function.update_self]; rfl, ?_⟩
  exact read_callback_never relay (fun _ => 0) id x₃ h₃ 0 0

end NetThreads

end LpNet
