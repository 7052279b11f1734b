import LpNet.Net.Acceptor
import LpNet.Net.Tcp.Ledger

/-!
The class `TcpServer` in its surroundings: the connection objects, the scheduler
they share, and the kernel that hands out descriptors.

A step of the system is a call that some thread makes. The new-connection
callback is two steps, since its own pointer keeps the connection alive until it
returns. After every step the connections that nobody points to are destroyed;
the destructor of one that is still running throws where no exception may leave, as
`shared_from_this` has no owner to share with.
-/

namespace LpNet

open Transition

structure TcpServer where
  /-- Every connection object made so far, by identity. -/
  conns : List TcpConnection
  /-- `connections_`. -/
  connections : FdMap ConnId
  scheduler : Scheduler
  /-- The pointer `conn` of a new-connection callback that has not returned. -/
  accepting : Option ConnId
  /-- The descriptors that `::accept` has handed out. -/
  accepted : List Sockfd
  /-- The descriptors passed to `socket_api::close`. -/
  closed : List Sockfd
  /-- Of each entry that a removal erased, who posted the removal and what was erased. -/
  removed : List (ConnId × ConnId)

inductive ServerAction
  /-- `Acceptor::onAccept`, up to the end of the body of the new-connection callback. -/
  | accept (outcome : AcceptOutcome)
  /-- The new-connection callback returns. -/
  | acceptReturns
  /-- An event of a connection's channel. -/
  | event (conn : ConnId) (events : EventMask) (io : ChannelIo)
  /-- `conn->send(data, len)`. -/
  | send (conn : ConnId) (data : List Byte) (len : ℕ) (outcome : SendOutcome)
  /-- `conn->disconnect()`. -/
  | disconnect (conn : ConnId)
  /-- A round of `handleTriggerEvent`. -/
  | trigger
  /-- The timer thread takes a timer. -/
  | timer
  /-- Time passes. -/
  | tick (now : ℕ)
  /-- The loop of `stop()` over the connections. -/
  | stop

namespace TcpServer

/-! ### The member functions -/

def start (clock currTimerId : ℕ) : TcpServer where
  conns := []
  connections := ∅
  scheduler := .new ServerEvent ConnId clock currTimerId
  accepting := none
  accepted := []
  closed := []
  removed := []

/-- `onConnect(fd)`: a new connection, which registers its channel. -/
def onConnect (junk : ℕ → Byte) (running : Bool) (s : TcpServer) (fd : Sockfd) :
    ConnId × TcpServer :=
  let conn := TcpConnection.new junk running fd
  (s.conns.length, { s with conns := s.conns ++ [conn],
                            scheduler := s.scheduler.updateChannel s.conns.length conn.channel })

def addConnection (s : TcpServer) (fd : Sockfd) (conn : ConnId) : TcpServer :=
  { s with connections := s.connections.emplace fd conn }

def setDisconnectCallback (s : TcpServer) (conn : ConnId) : TcpServer :=
  { s with conns := s.conns.modify conn fun c => { c with disconnectCb := true } }

/-- The body of the callback that the constructor gives to the acceptor. -/
def newConnection (junk : ℕ → Byte) (running : Bool) (s : TcpServer) (fd : Sockfd) : TcpServer :=
  let (conn, s) := s.onConnect junk running fd
  { (s.addConnection fd conn).setDisconnectCallback conn with accepting := some conn }

def removeConnection (s : TcpServer) (fd : Sockfd) (poster : ConnId) : TcpServer :=
  { s with connections := s.connections.erase fd,
           removed := s.removed ++
             ((s.connections.lookup fd).map fun conn => (poster, conn)).toList }

def acceptEffect (junk : ℕ → Byte) (running : Bool) (s : TcpServer) : AcceptEffect → TcpServer
  | .newConnection fd => s.newConnection junk running fd
  | .close fd => { s with closed := s.closed ++ [fd] }

def withConn (s : TcpServer) (conn : ConnId)
    (f : TcpConnection → Scheduler → Except Fault (TcpConnection × Scheduler)) :
    Except Fault TcpServer :=
  match s.conns[conn]? with
  | none => .error .useAfterFree
  | some c => do
      let (c, scheduler) ← f c s.scheduler
      .ok { s with conns := s.conns.set conn c, scheduler := scheduler }

def runCallback (s : TcpServer) : TriggerEvent ServerEvent → Except Fault TcpServer
  | none => .error .badFunctionCall
  | some (.close conn) => s.withConn conn fun c scheduler => .ok (c.close conn scheduler)
  | some (.removeConnection fd poster) => .ok (s.removeConnection fd poster)

def runPopped (s : TcpServer) (popped : Option (TriggerEvent ServerEvent) × Scheduler) :
    Except Fault TcpServer :=
  match popped.1 with
  | none => .ok { s with scheduler := popped.2 }
  | some callback => { s with scheduler := popped.2 }.runCallback callback

def disconnectAll (scheduler : Scheduler) (conns : List ConnId) : Scheduler :=
  conns.foldl (fun scheduler conn => TcpConnection.disconnect conn scheduler) scheduler

/-- The acceptor of a server has its callback set. -/
def acceptor : Acceptor := ⟨true⟩

/-- Perform a call, with connections that start with the given `running_`. -/
def act (junk : ℕ → Byte) (running : Bool) (s : TcpServer) :
    ServerAction → Except Fault TcpServer
  | .accept outcome =>
      let s := if 0 ≤ outcome.clientfd then
          { s with accepted := s.accepted ++ [outcome.clientfd] } else s
      .ok ((acceptor.onAccept outcome [] 0).foldl (acceptEffect junk running) s)
  | .acceptReturns => .ok { s with accepting := none }
  | .event conn events io =>
      s.withConn conn fun c scheduler =>
        TcpConnection.runCallbacks junk conn io (Channel.handleEvent events) c scheduler
  | .send conn data len outcome =>
      s.withConn conn fun c scheduler => c.send junk conn scheduler data len outcome
  | .disconnect conn =>
      .ok { s with scheduler := TcpConnection.disconnect conn s.scheduler }
  | .trigger => s.runPopped s.scheduler.popTrigger
  | .timer => do
      let popped ← s.scheduler.popTimer
      s.runPopped popped
  | .tick now => .ok { s with scheduler := { s.scheduler with clock := now } }
  | .stop =>
      .ok { s with scheduler :=
              disconnectAll s.scheduler (s.connections.entries.map fun entry => entry.2) }

/-! ### Lifetimes -/

/-- Somebody points to the connection: the table, a callback that has not returned, or a
closure, be it one that has been popped and whose cell is not overwritten yet. -/
def Alive (s : TcpServer) (conn : ConnId) : Prop :=
  (∃ entry ∈ s.connections.entries, entry.2 = conn) ∨ s.accepting = some conn ∨
    some (.close conn) ∈ s.scheduler.triggerEvents.data ∨
      ∃ entry ∈ s.scheduler.timers.data, entry.2.callback = some (some (.close conn))

instance (s : TcpServer) (conn : ConnId) : Decidable (s.Alive conn) := by
  unfold Alive
  infer_instance

/-- A connection that is running is destroyed. -/
def LosesRunning (s : TcpServer) : Prop :=
  ∃ conn < s.conns.length, (s.conns[conn]?.any fun c => c.running) = true ∧ ¬ s.Alive conn

instance (s : TcpServer) : Decidable s.LosesRunning := by
  unfold LosesRunning
  infer_instance

/-- Perform a call and destroy the connections that nobody points to any more. -/
def step (junk : ℕ → Byte) (running : Bool) (s : TcpServer) (a : ServerAction) :
    Except Fault (Unit × TcpServer) := do
  let s ← s.act junk running a
  if s.LosesRunning then .error .terminated else .ok ((), s)

/-- The calls that can be made next. The thread of the scheduler is in the new-connection
callback until it returns, a call on a connection needs a pointer to it, and `::accept`
answers a descriptor or `-1`. -/
def Enabled (s : TcpServer) : ServerAction → Prop
  | .accept outcome => s.accepting = none ∧ -1 ≤ outcome.clientfd
  | .trigger => s.accepting = none
  | .acceptReturns => s.accepting ≠ none
  | .event conn _ _ => s.accepting = none ∧ conn < s.conns.length ∧ s.Alive conn
  | .send conn data len _ => conn < s.conns.length ∧ s.Alive conn ∧ len ≤ data.length
  | .disconnect conn => conn < s.conns.length ∧ s.Alive conn
  | .timer | .tick _ | .stop => True

instance (s : TcpServer) (a : ServerAction) : Decidable (s.Enabled a) :=
  match a with
  | .accept _ => inferInstanceAs (Decidable (_ = _ ∧ _ ≤ _))
  | .acceptReturns => inferInstanceAs (Decidable (_ ≠ _))
  | .event .. => inferInstanceAs (Decidable (_ = _ ∧ _ < _ ∧ s.Alive _))
  | .send .. => inferInstanceAs (Decidable (_ < _ ∧ s.Alive _ ∧ _ ≤ _))
  | .disconnect _ => inferInstanceAs (Decidable (_ < _ ∧ s.Alive _))
  | .trigger => inferInstanceAs (Decidable (_ = _))
  | .timer | .tick _ | .stop => .isTrue trivial

end TcpServer

end LpNet
