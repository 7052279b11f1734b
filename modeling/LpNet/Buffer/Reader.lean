import LpNet.Buffer.Reset

/-!
The class `BufferReader`, and the stream law of its receive path.

`read(fd)` makes room and then calls `Buffer::write(fd, size)`, which sends, where
`Buffer::read(fd)` would receive. The run of a connection's receive path is
modelled with its history: what the socket delivered to the calls, what the
owner consumed and what went back to the peer. A reader that starts empty stays
empty, so the law holds exactly when there was nothing to receive.
-/

namespace LpNet

open Transition

structure BufferReader where
  buffer : Buffer
  deriving DecidableEq, Repr

/-- The kernel's answers to one call on a descriptor, whichever way it goes. -/
structure FdOutcome where
  recv : RecvOutcome
  send : SendOutcome
  deriving DecidableEq, Repr

namespace BufferReader

def new (junk : ℕ → Byte) (initSize : ℕ) : BufferReader := ⟨Buffer.new junk initSize⟩

def capacity (r : BufferReader) : ℕ := r.buffer.capacity

def readableBytes (r : BufferReader) : ℕ := r.buffer.readableBytes

def writableBytes (r : BufferReader) : ℕ := r.buffer.writableBytes

/-- `if (write_len < kMaxBytesPerRead) buffer_.reset(buffer_.capacity() * 2)`, where
`write_len` is an `int`. -/
def grow (junk : ℕ → Byte) (r : BufferReader) : Except Fault Buffer :=
  if toInt r.writableBytes < Buffer.kMaxBytesPerRead then
    Buffer.reset junk r.buffer (SizeT.mul r.buffer.capacity 2)
  else .ok r.buffer

def append (junk : ℕ → Byte) (r : BufferReader) (data : List Byte) (len : ℕ) :
    Except Fault (ℤ × BufferReader) := do
  let buffer ← r.grow junk
  let (_, buffer) ← buffer.write (some data) len
  .ok (toInt len, ⟨buffer⟩)

/-- `read(n, data)`. Answers the result, the characters of the string afterwards and the
reader. -/
def read (r : BufferReader) (n : ℕ) (data : List Byte) :
    Except Fault (ℤ × List Byte × BufferReader) :=
  if 0 < n ∧ n ≤ ofInt (toInt r.readableBytes) then do
    let (len, data, buffer) ← r.buffer.read (some data) n
    .ok (toInt len, data.getD [], ⟨buffer⟩)
  else .ok (0, data, r)

def findFirst (r : BufferReader) (matchStr : List Byte) : Except Fault ℤ :=
  r.buffer.find matchStr

def findAndSkip (r : BufferReader) (matchStr : List Byte) : Except Fault (ℤ × BufferReader) := do
  let len ← r.buffer.find matchStr
  if len < 0 then .ok (len, r)
  else do
    let skipped := SizeT.add (ofInt len) matchStr.length
    let (_, _, buffer) ← r.buffer.read none skipped
    .ok (toInt skipped, ⟨buffer⟩)

/-- `read(fd)`. It calls `buffer_.write(fd, kMaxBytesPerRead)`. Answers the result, the bytes
the socket accepted and the reader. -/
def readFd (junk : ℕ → Byte) (r : BufferReader) (io : FdOutcome) :
    Except Fault (ℤ × List Byte × BufferReader) := do
  let buffer ← r.grow junk
  -- `write`, where `Buffer::read(fd)` would receive
  let (len, accepted, buffer) ← buffer.writeFd Buffer.kMaxBytesPerRead io.send
  if len ≤ 0 then .ok (0, accepted, ⟨buffer⟩)
  else .ok (len, accepted, ⟨buffer⟩)

def readAll (r : BufferReader) (data : List Byte) :
    Except Fault (ℤ × List Byte × BufferReader) := do
  let size := toInt r.readableBytes
  let (_, data, buffer) ← r.buffer.read (some data) (ofInt size)
  .ok (size, data.getD [], ⟨buffer⟩)

def advance (r : BufferReader) (n : ℕ) : Except Fault BufferReader := do
  let (_, _, buffer) ← r.buffer.read none n
  .ok ⟨buffer⟩

def advanceTo (r : BufferReader) (target : List Byte) : Except Fault BufferReader := do
  let n ← r.buffer.find target
  let (_, _, buffer) ← r.buffer.read none (ofInt n)
  .ok ⟨buffer⟩

def clear (r : BufferReader) : BufferReader := ⟨r.buffer.clear⟩

/-! ### The receive path with its history -/

inductive RxOp
  | readFd (io : FdOutcome)
  | advance (n : ℕ)
  | read (n : ℕ) (data : List Byte)
  | readAll (data : List Byte)

/-- The bytes the socket delivers to a `read(fd)` call. -/
def RxOp.delivered : RxOp → List Byte
  | .readFd io => io.recv.getD []
  | .advance _ | .read _ _ | .readAll _ => []

/-- A reader and what has happened so far: the bytes the socket delivered, the bytes consumed,
the bytes sent to the peer, and of each `read(fd)` the result next to the number of
bytes delivered to it. -/
structure Rx where
  reader : BufferReader
  delivered : List Byte
  consumed : List Byte
  sent : List Byte
  calls : List (ℤ × ℕ)

def Rx.start (junk : ℕ → Byte) (initSize : ℕ) : Rx where
  reader := new junk initSize
  delivered := []
  consumed := []
  sent := []
  calls := []

def rxStep (junk : ℕ → Byte) (s : Rx) (op : RxOp) : Except Fault (Unit × Rx) :=
  match op with
  | .readFd io => do
      let (ret, accepted, reader) ← s.reader.readFd junk io
      .ok ((), { reader := reader, delivered := s.delivered ++ op.delivered,
                 consumed := s.consumed, sent := s.sent ++ accepted,
                 calls := s.calls ++ [(ret, op.delivered.length)] })
  | .advance n => do
      let reader ← s.reader.advance n
      .ok ((), { s with reader := reader,
                        consumed := s.consumed ++ s.reader.buffer.contents.take n })
  | .read n data => do
      let (len, data, reader) ← s.reader.read n data
      .ok ((), { s with reader := reader, consumed := s.consumed ++ data.take len.toNat })
  | .readAll data => do
      let (size, data, reader) ← s.reader.readAll data
      .ok ((), { s with reader := reader, consumed := s.consumed ++ data.take size.toNat })

/-- The bytes consumed and the bytes still held are the bytes delivered, none went back, and
a call that succeeds answers how many it received. -/
def Rx.Faithful (s : Rx) : Prop :=
  s.consumed ++ s.reader.buffer.contents = s.delivered ∧ s.sent = [] ∧
    ∀ call ∈ s.calls, 0 < call.1 → call.1 = call.2

/-! ### An empty reader stays empty -/

/-- An empty buffer with room for every cell its positions name, of a capacity that is an
`int`. -/
structure Drained (b : Buffer) : Prop where
  wf : b.Wf
  size_eq : b.size = 0
  alloc : b.capacity ≤ b.data.length
  cap_int : b.capacity < 2 ^ 31

variable {b : Buffer}

theorem drained_new (junk : ℕ → Byte) {initSize : ℕ} (h : initSize < 2 ^ 31) :
    Drained (Buffer.new junk initSize) where
  wf := Buffer.new_wf junk (by omega)
  size_eq := Buffer.new_size junk (by omega)
  alloc := by
    rw [Buffer.new_alloc junk (by omega)]
    exact Nat.le_succ _
  cap_int := h

theorem Drained.contents_eq (h : Drained b) : b.contents = [] := by
  rw [Buffer.contents, h.size_eq, Cyclic.cells_zero]

theorem Drained.advance_zero (h : Drained b) : Drained (b.advance 0) where
  wf := h.wf.advance 0
  size_eq := by rw [Buffer.advance_size h.wf (Nat.zero_le _), h.size_eq]
  alloc := h.alloc
  cap_int := h.cap_int

theorem Drained.read_none (h : Drained b) (n : ℕ) :
    b.read none n = .ok (0, none, b.advance 0) := by
  rw [Buffer.read_none h.wf, h.size_eq, Nat.min_zero]

theorem Drained.read_some (h : Drained b) (s : List Byte) (n : ℕ) :
    b.read (some s) n = .ok (0, some s, b.advance 0) := by
  have hcount : min n b.size = 0 := by rw [h.size_eq, Nat.min_zero]
  rw [Buffer.read_some h.wf (fun i hi => by omega) (by omega), hcount, h.contents_eq]
  simp

theorem Drained.grow (junk : ℕ → Byte) (h : Drained b) :
    ∃ b', BufferReader.grow junk ⟨b⟩ = .ok b' ∧ Drained b' := by
  have hcap := h.cap_int
  have hwritable : b.writableBytes = b.capacity := by
    rw [h.wf.writableBytes_eq, h.size_eq, Nat.sub_zero]
  rw [BufferReader.grow, BufferReader.writableBytes, hwritable, toInt_of_lt hcap]
  split
  case isTrue hsmall =>
    have hsmall' : b.capacity < 4096 := by exact_mod_cast hsmall
    have hdouble : SizeT.mul b.capacity 2 = b.capacity * 2 := SizeT.mul_eq (by omega)
    have hheld : b.Held := fun i hi => by rw [h.size_eq] at hi; omega
    refine ⟨Buffer.resized junk [] (b.capacity * 2), ?_, ?_⟩
    · rw [hdouble, Buffer.reset_eq junk h.wf (by omega) (hheld.keepsHeld _), h.contents_eq,
        List.take_nil]
    · have hlen : ([] : List Byte).length ≤ b.capacity * 2 := Nat.zero_le _
      have hwf := Buffer.resized_wf junk hlen (by omega)
      refine ⟨hwf, hwf.size_eq_zero_iff.mpr rfl, ?_, ?_⟩
      · rw [Buffer.resized_alloc junk (Nat.zero_le _)]
        rfl
      · simp only [Buffer.resized]
        omega
  case isFalse hlarge => exact ⟨b, rfl, h⟩

/-- Sending from an empty buffer sends nothing and changes nothing. -/
theorem Drained.writeFd (h : Drained b) (size : ℕ) (outcome : SendOutcome) :
    ∃ ret : ℤ, ret ≤ 0 ∧ b.writeFd size outcome = .ok (ret, [], b) := by
  have hget := h.wf.get_le
  have halloc := h.alloc
  have hlen : (b.sendRegion size).2 = 0 := by
    simp only [Buffer.sendRegion, Buffer.readableBytes, h.size_eq]
    split <;> omega
  have hin : (b.sendRegion size).1 + 0 ≤ b.data.length := by
    simp only [Buffer.sendRegion]
    omega
  rw [Buffer.writeFd, hlen]
  cases outcome with
  | none =>
      refine ⟨-1, by omega, ?_⟩
      rw [SocketApi.send_none hin (by omega)]
      rfl
  | some room =>
      refine ⟨0, le_refl _, ?_⟩
      rw [SocketApi.send_some hin (by omega), List.take_zero, List.take_nil]
      rfl

/-- `read(fd)` on an empty reader answers 0, whatever the socket holds. -/
theorem Drained.readFd (junk : ℕ → Byte) (h : Drained b) (io : FdOutcome) :
    ∃ b', BufferReader.readFd junk ⟨b⟩ io = .ok (0, [], ⟨b'⟩) ∧ Drained b' := by
  obtain ⟨b', hgrow, hb'⟩ := h.grow junk
  obtain ⟨ret, hret, hwrite⟩ := hb'.writeFd Buffer.kMaxBytesPerRead io.send
  refine ⟨b', ?_, hb'⟩
  rw [BufferReader.readFd, hgrow, ok_bind, hwrite, ok_bind]
  simp [hret]

/-! ### Runs of the receive path -/

/-- Nothing was read, consumed or sent. -/
structure Rx.Idle (s : Rx) : Prop where
  drained : Drained s.reader.buffer
  consumed_eq : s.consumed = []
  sent_eq : s.sent = []
  calls_eq : ∀ call ∈ s.calls, call.1 = 0

theorem idle_start (junk : ℕ → Byte) {initSize : ℕ} (h : initSize < 2 ^ 31) :
    (Rx.start junk initSize).Idle where
  drained := drained_new junk h
  consumed_eq := rfl
  sent_eq := rfl
  calls_eq := by simp [Rx.start]

theorem Rx.Idle.step (junk : ℕ → Byte) {s : Rx} (h : s.Idle) (op : RxOp) :
    ∃ s', rxStep junk s op = .ok ((), s') ∧ s'.Idle ∧
      s'.delivered = s.delivered ++ op.delivered := by
  obtain ⟨⟨b⟩, delivered, consumed, sent, calls⟩ := s
  obtain ⟨hb, rfl, rfl, hcalls⟩ := h
  have hdrained : Drained b := hb
  cases op with
  | readFd io =>
      obtain ⟨b', hread, hb'⟩ := hdrained.readFd junk io
      refine ⟨⟨⟨b'⟩, delivered ++ (RxOp.readFd io).delivered, [], [],
        calls ++ [(0, (RxOp.readFd io).delivered.length)]⟩, ?_, ⟨hb', rfl, rfl, ?_⟩, rfl⟩
      · rw [rxStep, hread]
        rfl
      · intro call hmem
        rcases List.mem_append.mp hmem with hold | hnew
        · exact hcalls call hold
        · rw [List.mem_singleton.mp hnew]
  | advance n =>
      refine ⟨⟨⟨b.advance 0⟩, delivered, [], [], calls⟩, ?_,
        ⟨hdrained.advance_zero, rfl, rfl, hcalls⟩, by simp [RxOp.delivered]⟩
      rw [rxStep, BufferReader.advance, hdrained.read_none, hdrained.contents_eq, List.take_nil]
      rfl
  | read n data =>
      have hsmall : ¬ (0 < n ∧ n ≤ ofInt (toInt (BufferReader.mk b).readableBytes)) := by
        rw [readableBytes, Buffer.readableBytes, hdrained.size_eq]
        have hzero : ofInt (toInt (0 : ℕ)) = 0 := rfl
        omega
      refine ⟨⟨⟨b⟩, delivered, [], [], calls⟩, ?_, ⟨hdrained, rfl, rfl, hcalls⟩,
        by simp [RxOp.delivered]⟩
      rw [rxStep, BufferReader.read, if_neg hsmall]
      rfl
  | readAll data =>
      have hsize : toInt (BufferReader.mk b).readableBytes = 0 := by
        rw [readableBytes, Buffer.readableBytes, hdrained.size_eq]
        rfl
      refine ⟨⟨⟨b.advance 0⟩, delivered, [], [], calls⟩, ?_,
        ⟨hdrained.advance_zero, rfl, rfl, hcalls⟩, by simp [RxOp.delivered]⟩
      rw [rxStep, BufferReader.readAll, hsize, hdrained.read_some]
      rfl

theorem Rx.Idle.faithful_iff {s : Rx} (h : s.Idle) : s.Faithful ↔ s.delivered = [] := by
  rw [Rx.Faithful, h.consumed_eq, h.drained.contents_eq, h.sent_eq]
  constructor
  · rintro ⟨hdelivered, -⟩
    exact hdelivered.symm
  · intro hdelivered
    refine ⟨hdelivered.symm, rfl, fun call hmem hpos => ?_⟩
    rw [h.calls_eq call hmem] at hpos
    exact absurd hpos (lt_irrefl 0)

/-- A run of the receive path never faults, keeps the reader empty and records what was
delivered. -/
theorem rx_run (junk : ℕ → Byte) {s : Rx} (h : s.Idle) (ops : List RxOp) :
    ∃ answers t, run (rxStep junk) s ops = .ok (answers, t) ∧ t.Idle ∧
      t.delivered = s.delivered ++ ops.flatMap RxOp.delivered := by
  induction ops generalizing s with
  | nil => exact ⟨[], s, rfl, h, by simp⟩
  | cons op ops ih =>
      obtain ⟨s', hstep, hidle, hdelivered⟩ := h.step junk op
      obtain ⟨answers, t, hrun, ht, htd⟩ := ih hidle
      refine ⟨() :: answers, t, ?_, ht, ?_⟩
      · rw [run_cons_ok ops hstep, hrun]
        rfl
      · rw [htd, hdelivered, List.flatMap_cons, List.append_assoc]

/-- The receive path is faithful exactly on the runs to which the socket delivers nothing. -/
theorem receive_faithful_iff (junk : ℕ → Byte) (initSize : ℕ) (hinit : initSize < 2 ^ 31)
    (ops : List RxOp) :
    ∃ answers s, run (rxStep junk) (Rx.start junk initSize) ops = .ok (answers, s) ∧
      (s.Faithful ↔ ∀ op ∈ ops, op.delivered = []) := by
  obtain ⟨answers, s, hrun, hidle, hdelivered⟩ := rx_run junk (idle_start junk hinit) ops
  refine ⟨answers, s, hrun, ?_⟩
  rw [hidle.faithful_iff, hdelivered]
  simp [Rx.start]

theorem receive_faithful_quiet :
    ∃ answers s, run (rxStep fun _ => 0) (Rx.start (fun _ => 0) (1024 * 1024))
        [.readFd ⟨none, some 1⟩, .advance 3] = .ok (answers, s) ∧
      (s.Faithful ↔ ∀ op ∈ [RxOp.readFd ⟨none, some 1⟩, .advance 3], op.delivered = []) :=
  receive_faithful_iff (fun _ => 0) (1024 * 1024) (by decide)
    [.readFd ⟨none, some 1⟩, .advance 3]

/-- One byte waits in the socket of a connection's reader, and `read(fd)` leaves it there. -/
theorem receive_loses_byte :
    ∃ answers s, run (rxStep fun _ => 0) (Rx.start (fun _ => 0) (1024 * 1024))
        [.readFd ⟨some [65], some 1⟩] = .ok (answers, s) ∧ ¬ s.Faithful := by
  obtain ⟨answers, s, hrun, hidle, hdelivered⟩ :=
    rx_run (fun _ => 0) (idle_start (fun _ => 0) (by decide : 1024 * 1024 < 2 ^ 31))
      [.readFd ⟨some [65], some 1⟩]
  refine ⟨answers, s, hrun, ?_⟩
  rw [hidle.faithful_iff, hdelivered]
  simp [Rx.start, RxOp.delivered]

end BufferReader

end LpNet
