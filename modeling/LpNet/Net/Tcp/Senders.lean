import LpNet.Net.SelectManager
import LpNet.Net.Tcp.Connection

/-!
`TcpConnection::send` from several threads, and the write events of the scheduler.

A step is a critical section of `mutex_`, or the test of `running_` with which `send`
begins. Between the two critical sections of a `send`, which append a message and send
one, the other threads and the scheduler come in. `Flowing` is the invariant of a
connection that runs: no more messages are queued than threads are about to send one.
How many threads there are too many, and how many messages are too long, is `surplus`,
which never becomes less, so that it is enough to look at the end of a run.
-/

namespace LpNet

open Transition

inductive SendPhase
  | idle
  /-- Before `append`, after the test of `running_`. -/
  | append (data : List Byte) (len : ℕ)
  /-- Before `onWrite`. -/
  | flush
  deriving DecidableEq, Repr

namespace SendPhase

def isFlush : SendPhase → Bool
  | flush => true
  | _ => false

/-- The thread is to append a message whose size is no `int`. -/
def isHuge : SendPhase → Bool
  | append _ len => 2 ^ 31 ≤ toUInt32 len
  | _ => false

end SendPhase

inductive SendersOp
  | call (thread : ℕ) (data : List Byte) (len : ℕ)
  | append (thread : ℕ)
  | flush (thread : ℕ) (outcome : SendOutcome)
  /-- The scheduler hands the channel an `EVENT_OUT`. -/
  | dispatch (outcome : SendOutcome)
  /-- The interest of another channel is changed, and it is updated. -/
  | change (interest : Interest) (other : ConnId)
  /-- `handleEvent` of the scheduler, up to its call of `select` and the events from it. -/
  | poll (msTimeout : ℤ) (outcome : SelectOutcome)

inductive SendersFault
  /-- The step is not possible. -/
  | blocked
  | memory (fault : Fault)
  deriving DecidableEq, Repr

/-- A connection with the threads that send, the sets of the scheduler, the messages that were
appended, and those that were handed to the socket. -/
structure Senders where
  conn : TcpConnection
  sets : SelectSets ServerEvent ConnId
  threads : List SendPhase
  appended : List (List Byte)
  handed : List (List Byte)

namespace Senders

/-- What `onWrite` passes to the socket. -/
def passed (conn : TcpConnection) : List (List Byte) :=
  if conn.running then
    conn.writeBuffer.queue.head?.toList.map fun b => b.handed b.readableBytes
  else []

/-- `onWrite()`. -/
def write (self : ConnId) (s : Senders) (outcome : SendOutcome) : Except SendersFault Senders := do
  let (conn, sched) ←
    (s.conn.onWrite self s.sets.toSelectManager outcome).mapError SendersFault.memory
  .ok { s with
    conn := conn
    sets := { s.sets with
      toSelectManager := sched
      objects := Function.update s.sets.objects self conn.channel }
    handed := s.handed ++ passed s.conn }

/-- The channel has write interest, or the scheduler still has it in its write set. -/
def Interested (s : Senders) : Prop :=
  s.conn.channel.isWriting = true ∨ s.conn.channel.sockfd ∈ s.sets.fdWriteBackup

instance (s : Senders) : Decidable s.Interested := inferInstanceAs (Decidable (_ ∨ _))

def step (junk : ℕ → Byte) (self : ConnId) (s : Senders) :
    SendersOp → Except SendersFault (Unit × Senders)
  | .call thread data len =>
      if s.threads[thread]? = some .idle then
        if s.conn.running then
          .ok ((), { s with threads := s.threads.set thread (.append data len) })
        else .ok ((), s)
      else .error .blocked
  | .append thread =>
      match s.threads[thread]? with
      | some (.append data len) => do
          let (ok, writer) ←
            (s.conn.writeBuffer.append junk data (toUInt32 len)).mapError SendersFault.memory
          .ok ((), { s with
            conn := { s.conn with writeBuffer := writer }
            threads := s.threads.set thread .flush
            appended := s.appended ++ if ok then [data.take (toUInt32 len)] else [] })
      | _ => .error .blocked
  | .flush thread outcome =>
      if s.threads[thread]? = some .flush then do
        let s ← s.write self outcome
        .ok ((), { s with threads := s.threads.set thread .idle })
      else .error .blocked
  | .dispatch outcome =>
      if s.Interested then do
        let s ← s.write self outcome
        .ok ((), s)
      else .error .blocked
  | .change interest other =>
      if other = self then .error .blocked
      else do
        let (_, sets) ← (s.sets.selectStep (.change interest other)).mapError SendersFault.memory
        .ok ((), { s with sets := sets })
  | .poll msTimeout outcome => do
      let (_, sets) ←
        (s.sets.selectStep (.handleEvent msTimeout outcome)).mapError SendersFault.memory
      .ok ((), { s with sets := sets })

def Valid : SendersOp → Prop
  | .call _ data len => len ≤ data.length
  | _ => True

/-- No socket operation reports an error. -/
def Succeeds : SendersOp → Prop
  | .flush _ outcome | .dispatch outcome => outcome ≠ none
  | _ => True

def Returned (s : Senders) : Prop := ∀ phase ∈ s.threads, phase = .idle

/-- The connection runs, and when all calls have returned, what was appended has been handed to
the socket. -/
def Healthy (s : Senders) : Prop :=
  s.conn.running = true ∧ (s.Returned → s.handed = s.appended)

/-- The queue has a message at its head, of which the size is an `int`. -/
def HeadReady (s : Senders) : Prop :=
  ∃ b ∈ s.conn.writeBuffer.queue.head?, b.size < 2 ^ 31

instance (s : Senders) : Decidable s.HeadReady :=
  inferInstanceAs (Decidable (∃ b ∈ s.conn.writeBuffer.queue.head?, b.size < 2 ^ 31))

/-- Where `onWrite` is run, by a thread or by the scheduler, it finds a message to send. -/
def Ready (s : Senders) : SendersOp → Prop
  | .flush thread _ => s.threads[thread]? = some .flush → s.HeadReady
  | .dispatch _ => s.Interested → s.HeadReady
  | _ => True

instance (s : Senders) (op : SendersOp) : Decidable (s.Ready op) :=
  match op with
  | .flush _ _ | .dispatch _ => inferInstanceAs (Decidable (_ → _))
  | .call _ _ _ | .append _ | .change _ _ | .poll _ _ => .isTrue trivial

/-- The scheduler hands out no `EVENT_OUT`, the queue is not full, and no message is too long. -/
def Quiet (s : Senders) : SendersOp → Prop
  | .call _ _ len => toUInt32 len < 2 ^ 31
  | .append _ => s.conn.writeBuffer.full = false
  | .dispatch _ => False
  | _ => True

theorem run_send (junk : ℕ → Byte) (self : ConnId) {s : Senders} {thread len : ℕ} {data : List Byte}
    {outcome : SendOutcome} {after : TcpConnection × Scheduler}
    (hidle : s.threads[thread]? = some .idle) (hrun : s.conn.running = true)
    (hsend : s.conn.send junk self s.sets.toSelectManager data len outcome = .ok after) :
    ∃ s', run (step junk self) s [.call thread data len, .append thread, .flush thread outcome] =
        .ok ([(), (), ()], s') ∧
      s'.conn = after.1 ∧ s'.sets.toSelectManager = after.2 ∧ s'.threads = s.threads := by
  rw [TcpConnection.send, if_pos hrun, bind_eq_ok] at hsend
  obtain ⟨⟨ok, writer⟩, happend, hwrite⟩ := hsend
  dsimp only at hwrite
  obtain ⟨hlt, hphase⟩ := List.getElem?_eq_some_iff.1 hidle
  have hself : ∀ phase, (s.threads.set thread phase)[thread]? = some phase :=
    fun phase => List.getElem?_set_self hlt
  have hidle' : s.threads.set thread .idle = s.threads := by
    rw [← hphase, List.set_getElem_self]
  have hcall : step junk self s (.call thread data len) =
      .ok ((), { s with threads := s.threads.set thread (.append data len) }) := by
    rw [step, if_pos hidle, if_pos hrun]
  rw [run_cons_ok _ hcall]
  simp only [run, step, hself, happend, Except.mapError, ok_bind, if_true, write, hwrite,
    List.set_set, hidle', Except.map]
  exact ⟨_, rfl, rfl, rfl, rfl⟩

/-! ### What a step does -/

/-- The number of threads that are about to send a message. -/
def flushing (s : Senders) : ℕ := s.threads.countP SendPhase.isFlush

/-- The threads that are about to send one message too many, and the messages that are too long,
queued or about to be. -/
def surplus (s : Senders) : ℕ :=
  s.flushing - s.conn.writeBuffer.queue.length +
    s.conn.writeBuffer.queue.countP (fun b => 2 ^ 31 ≤ b.size) + s.threads.countP SendPhase.isHuge

/-- The invariant of a connection that runs. -/
structure Flowing (s : Senders) : Prop where
  messages : ∀ b ∈ s.conn.writeBuffer.queue, BufferWriter.Message b
  fifo : s.appended = s.handed ++ s.conn.writeBuffer.queue.map Buffer.contents
  flushing : s.conn.writeBuffer.queue.length ≤ s.flushing
  arrays : ∀ data len, .append data len ∈ s.threads → len ≤ data.length

/-- What a step does that leaves the connection running. -/
structure Effect (s : Senders) (op : SendersOp) (s' : Senders) : Prop where
  flowing : s'.Flowing
  surplus_le : s.surplus ≤ s'.surplus
  quiet : s.surplus = 0 → (s'.surplus = 0 ↔ s.Quiet op)

theorem countP_set {p : SendPhase → Bool} {threads : List SendPhase} {thread : ℕ}
    {phase : SendPhase} (h : threads[thread]? = some phase) (phase' : SendPhase) :
    (threads.set thread phase').countP p + (if p phase then 1 else 0) =
      threads.countP p + if p phase' then 1 else 0 := by
  obtain ⟨hlt, hphase⟩ := List.getElem?_eq_some_iff.1 h
  rw [List.countP_set hlt, hphase]
  have hpos : p phase = true → 0 < threads.countP p := fun hp =>
    List.countP_pos_iff.2 ⟨phase, List.mem_of_getElem? h, hp⟩
  by_cases hp : p phase = true
  · have hpos' := hpos hp
    simp only [hp, if_true]
    omega
  · rw [if_neg hp]
    omega

theorem arrays_set {threads : List SendPhase} {phase : SendPhase} (thread : ℕ)
    (h : ∀ data len, .append data len ∈ threads → len ≤ data.length)
    (hphase : ∀ data len, phase = .append data len → len ≤ data.length) :
    ∀ data len, .append data len ∈ threads.set thread phase → len ≤ data.length := by
  intro data len hmem
  rcases List.mem_or_eq_of_mem_set hmem with hold | hnew
  · exact h data len hold
  · exact hphase data len hnew.symm

section Steps

variable {junk : ℕ → Byte} {self : ConnId} {s s' : Senders}

theorem handed_eq_contents {b : Buffer} (h : BufferWriter.Message b) :
    b.handed b.readableBytes = b.contents := by
  have hsize := h.size_le
  have hlt := h.size_lt
  have hget := h.getPos_eq
  rw [Buffer.handed_eq h.wf (by rw [Buffer.readableBytes, Nat.min_self]; omega)
    (by rw [Buffer.readableBytes, Nat.min_self]; exact hlt)]
  exact List.take_of_length_le (by simp [Buffer.readableBytes])

theorem close_running {conn : TcpConnection} (sched : Scheduler) (hrun : conn.running = true) :
    (conn.close self sched).1.running = false ∧
      (conn.close self sched).1.writeBuffer = conn.writeBuffer := by
  rw [TcpConnection.close, if_pos hrun]
  dsimp only
  split <;> exact ⟨rfl, rfl⟩

/-- `onWrite` on a connection that runs sends the message at the head, and closes the connection
if there is none or its size is no `int`. -/
theorem onWrite_spec {conn : TcpConnection} {sched : Scheduler} (hrun : conn.running = true)
    (hmessages : ∀ b ∈ conn.writeBuffer.queue, BufferWriter.Message b) (outcome : SendOutcome) :
    ∃ after, conn.onWrite self sched outcome = .ok after ∧
      after.1.writeBuffer.queue = conn.writeBuffer.queue.tail ∧
      (after.1.running = true ↔ ∃ b ∈ conn.writeBuffer.queue.head?, b.size < 2 ^ 31) := by
  have hfinish : ∀ ret accepted writer,
      conn.writeBuffer.send outcome = .ok (ret, accepted, writer) →
      ∃ after, conn.onWrite self sched outcome = .ok after ∧
        after.1.writeBuffer = writer ∧ (after.1.running = true ↔ ¬ ret < 0) := by
    intro ret accepted writer hsend
    rw [TcpConnection.onWrite, if_pos hrun, hsend, ok_bind]
    dsimp only
    by_cases hneg : ret < 0
    case pos =>
      obtain ⟨hclosed, hbuffer⟩ :=
        @close_running self { conn with writeBuffer := writer } sched hrun
      rw [if_pos hneg]
      exact ⟨_, rfl, hbuffer, by simp [hclosed, hneg]⟩
    case neg =>
      rw [if_neg hneg]
      split
      all_goals
        split
        all_goals exact ⟨_, rfl, rfl, by simp [hrun, hneg]⟩
  cases hqueue : conn.writeBuffer.queue with
  | nil =>
      obtain ⟨after, hwrite, hbuffer, hrunning⟩ :=
        hfinish (-1) [] conn.writeBuffer (by rw [BufferWriter.send, hqueue])
      exact ⟨after, hwrite, by rw [hbuffer, hqueue]; rfl, by simp [hrunning]⟩
  | cons b queue =>
      have hb : BufferWriter.Message b := hmessages b (by simp [hqueue])
      obtain ⟨ret, b', hfd⟩ := hb.writeFd outcome
      obtain ⟨after, hwrite, hbuffer, hrunning⟩ :=
        hfinish (toInt b.readableBytes) (b.contents.take (outcome.getD 0))
          { conn.writeBuffer with queue := queue }
          (by simp only [BufferWriter.send, hqueue, hfd, ok_bind])
      refine ⟨after, hwrite, by rw [hbuffer]; rfl, ?_⟩
      rw [hrunning, Buffer.readableBytes, toInt_neg_iff hb.size_lt]
      simp

theorem write_spec (hrun : s.conn.running = true) (h : s.Flowing) (outcome : SendOutcome) :
    ∃ s', s.write self outcome = .ok s' ∧ s'.threads = s.threads ∧ s'.appended = s.appended ∧
      s'.handed = s.handed ++ s.conn.writeBuffer.queue.head?.toList.map Buffer.contents ∧
      s'.conn.writeBuffer.queue = s.conn.writeBuffer.queue.tail ∧
      (s'.conn.running = true ↔ s.HeadReady) := by
  obtain ⟨after, hwrite, hqueue, hrunning⟩ :=
    @onWrite_spec self s.conn s.sets.toSelectManager hrun h.messages outcome
  have hpassed : passed s.conn = s.conn.writeBuffer.queue.head?.toList.map Buffer.contents := by
    rw [passed, if_pos hrun]
    refine List.map_congr_left fun b hb => handed_eq_contents (h.messages b ?_)
    exact List.mem_of_mem_head? (Option.mem_toList.1 hb)
  rw [write, hwrite]
  exact ⟨_, rfl, rfl, rfl, by rw [hpassed], hqueue, hrunning⟩

theorem Effect.of_eq {op : SendersOp} (h : s.Flowing) (hquiet : s.Quiet op)
    (hconn : s'.conn = s.conn) (hthreads : s'.threads = s.threads)
    (happended : s'.appended = s.appended) (hhanded : s'.handed = s.handed) :
    Effect s op s' := by
  have hsurplus : s'.surplus = s.surplus := by
    rw [surplus, surplus, flushing, flushing, hconn, hthreads]
  refine ⟨⟨?_, ?_, ?_, ?_⟩, hsurplus.ge, fun hzero => ?_⟩
  · rw [hconn]
    exact h.messages
  · rw [hconn, happended, hhanded]
    exact h.fifo
  · rw [flushing, hconn, hthreads]
    exact h.flushing
  · rw [hthreads]
    exact h.arrays
  · rw [hsurplus]
    exact iff_of_true hzero hquiet

theorem call_effect {thread len : ℕ} {data : List Byte} (h : s.Flowing)
    (hidle : s.threads[thread]? = some .idle) (hlen : len ≤ data.length) :
    Effect s (.call thread data len)
      { s with threads := s.threads.set thread (.append data len) } := by
  have hflush := countP_set (p := SendPhase.isFlush) hidle (.append data len)
  have hhuge := countP_set (p := SendPhase.isHuge) hidle (.append data len)
  simp only [SendPhase.isFlush, SendPhase.isHuge, Bool.false_eq_true, if_false,
    decide_eq_true_eq] at hflush hhuge
  have hle := h.flushing
  rw [flushing] at hle
  refine ⟨⟨h.messages, h.fifo, ?_, ?_⟩, ?_, ?_⟩
  · rw [flushing]
    dsimp only
    omega
  · refine arrays_set thread h.arrays ?_
    rintro _ _ ⟨⟩
    exact hlen
  · simp only [surplus, flushing]
    omega
  · simp only [surplus, flushing, Quiet]
    split at hhuge <;> omega

/-- A thread appends its message, or finds the queue full. -/
theorem append_effect {thread len : ℕ} {data : List Byte} (h : s.Flowing)
    (hrun : s.conn.running = true) (hphase : s.threads[thread]? = some (.append data len)) :
    ∃ s', step junk self s (.append thread) = .ok ((), s') ∧ s'.conn.running = true ∧
      Effect s (.append thread) s' := by
  have hmem := List.mem_of_getElem? hphase
  have hlen : toUInt32 len ≤ data.length := Nat.le_trans (Nat.mod_le _ _) (h.arrays data len hmem)
  have hlt : toUInt32 len < 2 ^ 32 := Nat.mod_lt _ (Nat.two_pow_pos 32)
  have hflush := countP_set (p := SendPhase.isFlush) hphase .flush
  have hhuge := countP_set (p := SendPhase.isHuge) hphase .flush
  simp only [SendPhase.isFlush, SendPhase.isHuge, Bool.false_eq_true, if_false, if_true,
    decide_eq_true_eq] at hflush hhuge
  have hle := h.flushing
  rw [flushing] at hle
  have harrays : ∀ data' len', .append data' len' ∈ s.threads.set thread .flush →
      len' ≤ data'.length := arrays_set thread h.arrays fun _ _ hphase => by cases hphase
  simp only [step, hphase]
  cases hfull : s.conn.writeBuffer.full with
  | true =>
      rw [BufferWriter.append, if_pos hfull]
      refine ⟨_, rfl, hrun, ⟨⟨h.messages, ?_, ?_, harrays⟩, ?_, ?_⟩⟩
      · simpa using h.fifo
      · simp only [flushing]
        omega
      · simp only [surplus, flushing]
        split at hhuge <;> omega
      · simp only [surplus, flushing, Quiet, hfull]
        split at hhuge <;> simp <;> omega
  | false =>
      obtain ⟨b, hwrite, hmessage, hcontents⟩ := BufferWriter.append_message junk hlen hlt
      have hsize : b.size = toUInt32 len := by
        rw [← Buffer.contents_length, hcontents, List.length_take]
        omega
      rw [BufferWriter.append, if_neg (by simp [hfull]), hwrite]
      refine ⟨_, rfl, hrun, ⟨⟨?_, ?_, ?_, harrays⟩, ?_, ?_⟩⟩
      · intro b' hb'
        rcases List.mem_append.1 hb' with hold | hnew
        · exact h.messages b' hold
        · rw [List.mem_singleton.1 hnew]
          exact hmessage
      · simp [h.fifo, hcontents]
      · simp only [flushing, List.length_append, List.length_singleton]
        omega
      · simp only [surplus, flushing, List.length_append, List.length_singleton,
          List.countP_append, List.countP_singleton, hsize, decide_eq_true_eq]
        generalize (if 2 ^ 31 ≤ toUInt32 len then 1 else 0) = huge at hhuge ⊢
        omega
      · intro hzero
        refine iff_of_true ?_ hfull
        simp only [surplus, flushing, List.length_append, List.length_singleton,
          List.countP_append, List.countP_singleton, hsize, decide_eq_true_eq] at hzero ⊢
        generalize (if 2 ^ 31 ≤ toUInt32 len then 1 else 0) = huge at hhuge ⊢
        omega

theorem write_effect (h : s.Flowing) (hrun : s.conn.running = true) (outcome : SendOutcome) :
    ∃ s', s.write self outcome = .ok s' ∧ s'.threads = s.threads ∧
      (s'.conn.running = true ↔ s.HeadReady) ∧
      (s.HeadReady → s'.Flowing ∧ s'.flushing = s.flushing ∧
        s'.conn.writeBuffer.queue.length + 1 = s.conn.writeBuffer.queue.length ∧
        s'.surplus = s.surplus + 1) := by
  obtain ⟨s', hwrite, hthreads, happended, hhanded, hqueue, hrunning⟩ := write_spec hrun h outcome
  refine ⟨s', hwrite, hthreads, hrunning, ?_⟩
  rintro ⟨b, hb, hsmall⟩
  obtain ⟨queue, hcons⟩ := List.head?_eq_some_iff.1 hb
  have hflushing : s'.flushing = s.flushing := by rw [flushing, flushing, hthreads]
  have hle := h.flushing
  rw [hcons, List.tail_cons] at hqueue
  rw [hcons] at hle hhanded
  refine ⟨⟨?_, ?_, ?_, ?_⟩, hflushing, ?_, ?_⟩
  · intro b' hb'
    rw [hqueue] at hb'
    exact h.messages b' (by simp [hcons, hb'])
  · rw [happended, h.fifo, hhanded, hqueue, hcons]
    simp
  · rw [hqueue, hflushing]
    exact Nat.le_of_succ_le hle
  · rw [hthreads]
    exact h.arrays
  · rw [hqueue, hcons, List.length_cons]
  · rw [surplus, surplus, hflushing, hqueue, hthreads, hcons,
      List.countP_cons_of_neg (by simpa using hsmall)]
    rw [List.length_cons] at hle ⊢
    omega

theorem flush_effect {thread : ℕ} (h : s.Flowing) (hrun : s.conn.running = true)
    (hphase : s.threads[thread]? = some .flush) (outcome : SendOutcome) :
    ∃ s', step junk self s (.flush thread outcome) = .ok ((), s') ∧
      (s'.conn.running = true ↔ s.HeadReady) ∧
      (s.HeadReady → Effect s (.flush thread outcome) s') := by
  obtain ⟨s', hwrite, hthreads, hrunning, heffect⟩ := @write_effect self s h hrun outcome
  have hflush := countP_set (p := SendPhase.isFlush) hphase .idle
  have hhuge := countP_set (p := SendPhase.isHuge) hphase .idle
  simp only [SendPhase.isFlush, SendPhase.isHuge, Bool.false_eq_true, if_false, if_true]
    at hflush hhuge
  simp only [step, hphase, if_true, hwrite]
  refine ⟨_, rfl, hrunning, fun hready => ?_⟩
  obtain ⟨hflowing, -, hlength, hsurplus⟩ := heffect hready
  have hle := h.flushing
  simp only [surplus, flushing, hthreads] at hle hsurplus
  refine ⟨⟨hflowing.messages, hflowing.fifo, ?_, ?_⟩, ?_, ?_⟩
  · simp only [flushing, hthreads]
    omega
  · rw [hthreads]
    exact arrays_set thread h.arrays fun _ _ hphase => by cases hphase
  · simp only [surplus, flushing, hthreads]
    omega
  · intro hzero
    refine iff_of_true ?_ trivial
    simp only [surplus, flushing, hthreads] at hzero ⊢
    omega

/-- The scheduler sends the message at the head, and the thread that was to do it finds one
less. -/
theorem dispatch_effect (h : s.Flowing) (hrun : s.conn.running = true)
    (hinterested : s.Interested) (outcome : SendOutcome) :
    ∃ s', step junk self s (.dispatch outcome) = .ok ((), s') ∧
      (s'.conn.running = true ↔ s.HeadReady) ∧
      (s.HeadReady → Effect s (.dispatch outcome) s') := by
  obtain ⟨s', hwrite, hthreads, hrunning, heffect⟩ := @write_effect self s h hrun outcome
  simp only [step, if_pos hinterested, hwrite]
  refine ⟨s', rfl, hrunning, fun hready => ?_⟩
  obtain ⟨hflowing, -, -, hsurplus⟩ := heffect hready
  exact ⟨hflowing, by omega, fun _ => iff_of_false (by omega) id⟩

theorem sets_eq_ok {op : SendersOp} (hstep : step junk self s op = .ok ((), s'))
    (hop : (∃ interest other, op = .change interest other) ∨
      ∃ msTimeout outcome, op = .poll msTimeout outcome) :
    ∃ sets, s' = { s with sets := sets } := by
  rcases hop with ⟨interest, other, rfl⟩ | ⟨msTimeout, outcome, rfl⟩
  · rw [step] at hstep
    split at hstep
    · cases hstep
    · rw [bind_eq_ok] at hstep
      obtain ⟨⟨_, sets⟩, -, hstep⟩ := hstep
      cases hstep
      exact ⟨sets, rfl⟩
  · rw [step, bind_eq_ok] at hstep
    obtain ⟨⟨_, sets⟩, -, hstep⟩ := hstep
    cases hstep
    exact ⟨sets, rfl⟩

/-- The step lemma: a connection that runs goes on running exactly if `onWrite`, where it is run,
finds a message to send. -/
theorem step_spec {op : SendersOp} (h : s.Flowing) (hrun : s.conn.running = true)
    (hvalid : Valid op) (hstep : step junk self s op = .ok ((), s')) :
    (s'.conn.running = true ↔ s.Ready op) ∧ (s'.conn.running = true → Effect s op s') := by
  cases op with
  | call thread data len =>
      by_cases hidle : s.threads[thread]? = some .idle
      case pos =>
        rw [step, if_pos hidle, if_pos hrun] at hstep
        cases hstep
        exact ⟨iff_of_true hrun trivial, fun _ => call_effect h hidle hvalid⟩
      case neg => simp [step, hidle] at hstep
  | append thread =>
      cases hphase : s.threads[thread]? with
      | none => simp [step, hphase] at hstep
      | some phase =>
          cases phase with
          | idle => simp [step, hphase] at hstep
          | flush => simp [step, hphase] at hstep
          | append data len =>
              obtain ⟨t, hok, hrunning, heffect⟩ :=
                @append_effect junk self s thread len data h hrun hphase
              cases hok.symm.trans hstep
              exact ⟨iff_of_true hrunning trivial, fun _ => heffect⟩
  | flush thread outcome =>
      by_cases hphase : s.threads[thread]? = some .flush
      case pos =>
        obtain ⟨t, hok, hrunning, heffect⟩ := @flush_effect junk self s thread h hrun hphase outcome
        cases hok.symm.trans hstep
        rw [Ready, imp_iff_right hphase]
        exact ⟨hrunning, fun hrun' => heffect (hrunning.1 hrun')⟩
      case neg => simp [step, hphase] at hstep
  | dispatch outcome =>
      by_cases hinterested : s.Interested
      case pos =>
        obtain ⟨t, hok, hrunning, heffect⟩ :=
          @dispatch_effect junk self s h hrun hinterested outcome
        cases hok.symm.trans hstep
        rw [Ready, imp_iff_right hinterested]
        exact ⟨hrunning, fun hrun' => heffect (hrunning.1 hrun')⟩
      case neg => simp [step, hinterested] at hstep
  | change interest other =>
      obtain ⟨sets, rfl⟩ := sets_eq_ok hstep (.inl ⟨interest, other, rfl⟩)
      exact ⟨iff_of_true hrun trivial, fun _ => .of_eq h trivial rfl rfl rfl rfl⟩
  | poll msTimeout outcome =>
      obtain ⟨sets, rfl⟩ := sets_eq_ok hstep (.inr ⟨msTimeout, outcome, rfl⟩)
      exact ⟨iff_of_true hrun trivial, fun _ => .of_eq h trivial rfl rfl rfl rfl⟩

/-- Where `onWrite` finds no message to send, the connection is closed. -/
theorem step_closes {op : SendersOp} (h : s.Flowing) (hrun : s.conn.running = true)
    (hready : ¬ s.Ready op) :
    ∃ s', step junk self s op = .ok ((), s') ∧ s'.conn.running ≠ true := by
  cases op with
  | flush thread outcome =>
      rw [Ready, Classical.not_imp] at hready
      obtain ⟨t, hok, hrunning, -⟩ := @flush_effect junk self s thread h hrun hready.1 outcome
      exact ⟨t, hok, mt hrunning.1 hready.2⟩
  | dispatch outcome =>
      rw [Ready, Classical.not_imp] at hready
      obtain ⟨t, hok, hrunning, -⟩ := @dispatch_effect junk self s h hrun hready.1 outcome
      exact ⟨t, hok, mt hrunning.1 hready.2⟩
  | call _ _ _ | append _ | change _ _ | poll _ _ => exact absurd trivial hready

theorem write_closed {outcome : SendOutcome} (hrun : s.conn.running = false)
    (hwrite : s.write self outcome = .ok s') : s'.conn.running = false := by
  rw [write, TcpConnection.onWrite, if_neg (by simp [hrun])] at hwrite
  cases hwrite
  exact hrun

/-- A connection that does not run is not started again. -/
theorem step_closed {op : SendersOp} (hrun : s.conn.running = false)
    (hstep : step junk self s op = .ok ((), s')) : s'.conn.running = false := by
  cases op with
  | call thread data len =>
      rw [step] at hstep
      split at hstep
      · rw [if_neg (by simp [hrun])] at hstep
        cases hstep
        exact hrun
      · cases hstep
  | append thread =>
      rw [step] at hstep
      split at hstep
      · rw [bind_eq_ok] at hstep
        obtain ⟨⟨_, writer⟩, -, hstep⟩ := hstep
        cases hstep
        exact hrun
      · cases hstep
  | flush thread outcome =>
      rw [step] at hstep
      split at hstep
      · rw [bind_eq_ok] at hstep
        obtain ⟨t, hwrite, hstep⟩ := hstep
        have hclosed := write_closed hrun hwrite
        cases hstep
        exact hclosed
      · cases hstep
  | dispatch outcome =>
      rw [step] at hstep
      split at hstep
      · rw [bind_eq_ok] at hstep
        obtain ⟨t, hwrite, hstep⟩ := hstep
        cases hstep
        exact write_closed hrun hwrite
      · cases hstep
  | change interest other =>
      obtain ⟨sets, rfl⟩ := sets_eq_ok hstep (.inl ⟨interest, other, rfl⟩)
      exact hrun
  | poll msTimeout outcome =>
      obtain ⟨sets, rfl⟩ := sets_eq_ok hstep (.inr ⟨msTimeout, outcome, rfl⟩)
      exact hrun

/-- Where no thread is one too many and no message too long, a thread that is to send a message
finds one. -/
theorem ready_of_quiet {op : SendersOp} (hzero : s.surplus = 0) (hquiet : s.Quiet op) :
    s.Ready op := by
  cases op with
  | flush thread outcome =>
      intro hphase
      have hpos : 0 < s.threads.countP SendPhase.isFlush :=
        List.countP_pos_iff.2 ⟨.flush, List.mem_of_getElem? hphase, rfl⟩
      simp only [surplus, flushing] at hzero
      cases hqueue : s.conn.writeBuffer.queue with
      | nil =>
          rw [hqueue, List.length_nil] at hzero
          omega
      | cons b queue =>
          have hnone : s.conn.writeBuffer.queue.countP (fun b => 2 ^ 31 ≤ b.size) = 0 := by omega
          rw [List.countP_eq_zero] at hnone
          have hsmall := hnone b (by simp [hqueue])
          exact ⟨b, by rw [hqueue]; rfl, by simpa using hsmall⟩
  | dispatch outcome => exact hquiet.elim
  | call _ _ _ | append _ | change _ _ | poll _ _ => trivial

/-- A connection that still runs at the end is in order. -/
theorem flowing_step {op : SendersOp} (h : s.conn.running = true → s.Flowing) (hvalid : Valid op)
    (hstep : step junk self s op = .ok ((), s')) (hrun' : s'.conn.running = true) : s'.Flowing := by
  cases hrun : s.conn.running with
  | false =>
      rw [step_closed hrun hstep] at hrun'
      cases hrun'
  | true => exact ((step_spec (h hrun) hrun hvalid hstep).2 hrun').flowing

theorem Flowing.returned (h : s.Flowing) (hreturned : s.Returned) :
    s.handed = s.appended ∧ s.surplus = 0 := by
  have hnone : ∀ p : SendPhase → Bool, p .idle = false → s.threads.countP p = 0 := by
    intro p hp
    rw [List.countP_eq_zero]
    intro phase hphase
    rw [hreturned phase hphase, hp]
    exact Bool.false_ne_true
  have hle := h.flushing
  rw [Senders.flushing, hnone _ rfl] at hle
  have hnil : s.conn.writeBuffer.queue = [] := List.length_eq_zero_iff.1 (Nat.le_zero.1 hle)
  refine ⟨?_, ?_⟩
  · rw [h.fifo, hnil, List.map_nil, List.append_nil]
  · rw [surplus, Senders.flushing, hnone _ rfl, hnone _ rfl, hnil]
    rfl

end Steps

/-! ### Runs -/

def start (conn : TcpConnection) (sets : SelectSets ServerEvent ConnId) (n : ℕ) : Senders where
  conn := conn
  sets := sets
  threads := List.replicate n .idle
  appended := []
  handed := []

theorem start_flowing {conn : TcpConnection} (sets : SelectSets ServerEvent ConnId) (n : ℕ)
    (hbuffer : conn.writeBuffer = .new TcpConnection.kMaxBufferSize) :
    (start conn sets n).Flowing ∧ (start conn sets n).surplus = 0 := by
  have hreturned : (start conn sets n).Returned := fun _ hphase => List.eq_of_mem_replicate hphase
  have hqueue : (start conn sets n).conn.writeBuffer.queue = [] := by
    rw [start, hbuffer]
    rfl
  have hflowing : (start conn sets n).Flowing :=
    { messages := by simp [hqueue]
      fifo := by rw [hqueue]; rfl
      flushing := by rw [hqueue]; exact Nat.zero_le _
      arrays := fun _ _ hmem => by cases hreturned _ hmem }
  exact ⟨hflowing, (hflowing.returned hreturned).2⟩

variable (junk : ℕ → Byte) (self : ConnId)

/-- A connection stays healthy in a run exactly if `onWrite` always finds a message to send; and
in a run after which all calls have returned, exactly if the scheduler hands out no `EVENT_OUT`,
no thread finds the queue full, and no message is too long. -/
theorem healthy_iff {conn : TcpConnection} (sets : SelectSets ServerEvent ConnId) (n : ℕ)
    (hrun : conn.running = true) (hbuffer : conn.writeBuffer = .new TcpConnection.kMaxBufferSize)
    {ops : List SendersOp} (hops : ∀ op ∈ ops, Valid op) :
    (AlongStates (step junk self) Healthy (start conn sets n) ops ↔
      Along (step junk self) Ready (start conn sets n) ops) ∧
    ∀ answers t, run (step junk self) (start conn sets n) ops = .ok (answers, t) → t.Returned →
      (t.conn.running = true ∧ t.handed = t.appended ↔
        Along (step junk self) Quiet (start conn sets n) ops) := by
  obtain ⟨hflowing, hsurplus⟩ := start_flowing sets n hbuffer
  have hV : Along (step junk self) (fun _ op => Valid op) (start conn sets n) ops :=
    along_of_forall_mem hops
  refine ⟨?_, fun answers t hfinal hreturned => ?_⟩
  · refine alongStates_iff_along (I := fun s => s.conn.running = true ∧ s.Flowing)
      ?_ ?_ ?_ ⟨hrun, hflowing⟩ hV
    · rintro s op _ s' ⟨hs, hflow⟩ hvalid hready hstep
      obtain ⟨hrunning, heffect⟩ := step_spec hflow hs hvalid hstep
      have hs' := hrunning.2 hready
      exact ⟨hs', (heffect hs').flowing⟩
    · rintro s op ⟨hs, hflow⟩ - hready
      obtain ⟨s', hstep, hclosed⟩ := step_closes hflow hs hready
      exact ⟨(), s', hstep, fun h => hclosed h.1⟩
    · rintro s ⟨hs, hflow⟩
      exact ⟨hs, fun hret => (hflow.returned hret).1⟩
  · have hflow : t.conn.running = true → t.Flowing :=
      inv_of_run (I := fun s => s.conn.running = true → s.Flowing)
        (fun s op _ s' h hvalid hstep => flowing_step h hvalid hstep) (fun _ => hflowing) hV hfinal
    have hkept : (t.conn.running = true ∧ t.Flowing ∧ t.surplus = 0) ↔
        Along (step junk self) Quiet (start conn sets n) ops := by
      refine holds_iff_along (E := fun s => s.conn.running = true ∧ s.Flowing ∧ s.surplus = 0)
        (L := fun s => s.conn.running = true → s.Flowing ∧ 0 < s.surplus)
        ?_ ?_ ?_ (fun s h => h) ?_ ⟨hrun, hflowing, hsurplus⟩ hV hfinal
      · rintro s op _ s' ⟨hs, hflow, hzero⟩ hvalid hquiet hstep
        obtain ⟨hrunning, heffect⟩ := step_spec hflow hs hvalid hstep
        have hs' := hrunning.2 (ready_of_quiet hzero hquiet)
        exact ⟨hs', (heffect hs').flowing, ((heffect hs').quiet hzero).2 hquiet⟩
      · rintro s op _ s' ⟨hs, hflow, hzero⟩ hvalid hquiet hstep hs'
        have heffect := (step_spec hflow hs hvalid hstep).2 hs'
        exact ⟨heffect.flowing, Nat.pos_of_ne_zero (mt (heffect.quiet hzero).1 hquiet)⟩
      · intro s op _ s' hodd hvalid hstep hs'
        have hs : s.conn.running = true := by
          rw [← Bool.not_eq_false]
          intro hclosed
          rw [step_closed hclosed hstep] at hs'
          cases hs'
        have heffect := (step_spec (hodd hs).1 hs hvalid hstep).2 hs'
        exact ⟨heffect.flowing, Nat.lt_of_lt_of_le (hodd hs).2 heffect.surplus_le⟩
      · rintro s hodd ⟨hs, -, hzero⟩
        exact absurd hzero (Nat.ne_of_gt (hodd hs).2)
    rw [← hkept]
    constructor
    · rintro ⟨hrun', -⟩
      exact ⟨hrun', hflow hrun', ((hflow hrun').returned hreturned).2⟩
    · rintro ⟨hrun', hflow', -⟩
      exact ⟨hrun', (hflow'.returned hreturned).1⟩

/-- A connection with the scheduler of its server, and two threads. -/
def pair : Senders :=
  start (.new (fun _ => 0) true 5) (.new ServerEvent 0 0 0 (fun _ => .new 5) 0) 2

theorem healthy_iff_pair :
    AlongStates (step (fun _ => 0) 0) Healthy pair
      [.call 0 [1] 1, .call 1 [2] 1, .append 0, .append 1, .flush 1 (some 1),
        .flush 0 (some 1)] := by
  refine ((healthy_iff (fun _ => 0) 0 _ 2 rfl rfl ?_).1).2 ?_
  · simp [Valid]
  · decide

/-- Two threads have appended their messages, the first one sends its own, the scheduler the other
one, and the second thread finds nothing to send. -/
theorem pair_closed : ¬ ∀ (junk : ℕ → Byte) (self : ConnId) (conn : TcpConnection)
    (sets : SelectSets ServerEvent ConnId) (n : ℕ) (ops : List SendersOp), conn.running = true →
    conn.writeBuffer = .new TcpConnection.kMaxBufferSize → (∀ op ∈ ops, Valid op) →
    (∀ op ∈ ops, Succeeds op) →
    AlongStates (step junk self) Healthy (start conn sets n) ops := by
  intro hall
  have hstates := hall (fun _ => 0) 0 (.new (fun _ => 0) true 5)
    (.new ServerEvent 0 0 0 (fun _ => .new 5) 0) 2
    [.call 0 [1] 1, .call 1 [2] 1, .append 0, .append 1, .flush 0 (some 1), .dispatch (some 1),
      .flush 1 (some 1)] rfl rfl (by simp [Valid]) (by simp [Succeeds])
  exact absurd (hstates.mono fun s h => h.1) (by decide)

end Senders

end LpNet
