import LpNet.Buffer.Socket

/-!
The class `BufferWriter`, and the conservation law of its transmit path.

`send` takes the buffer at the head off the queue before it knows how much of it
the socket accepts, so the rest of a partial send is gone. `Tx` is the writer
with its history; `lossless_iff` says that nothing is lost exactly on the runs
where every `send` finds room in the socket for the whole message at the head.
-/

namespace LpNet

open Cyclic Transition

structure BufferWriter where
  capacity : ℕ
  queue : List Buffer
  deriving DecidableEq, Repr

namespace BufferWriter

def new (capacity : ℕ) : BufferWriter := ⟨capacity, []⟩

def empty (w : BufferWriter) : Bool := w.queue.isEmpty

def full (w : BufferWriter) : Bool := w.capacity == w.queue.length

/-- `append(data, len)`, with `len` a `uint32_t`. -/
def append (junk : ℕ → Byte) (w : BufferWriter) (data : List Byte) (len : ℕ) :
    Except Fault (Bool × BufferWriter) :=
  if w.full then .ok (false, w)
  else do
    let (_, buffer) ← (Buffer.new junk len).write (some data) len
    .ok (true, { w with queue := w.queue ++ [buffer] })

/-- `send(fd)`. Answers the result, the bytes the socket accepted and the writer. -/
def send (w : BufferWriter) (outcome : SendOutcome) :
    Except Fault (ℤ × List Byte × BufferWriter) :=
  match w.queue with
  | [] => .ok (-1, [], w)
  | buffer :: queue => do
      let size := buffer.readableBytes
      let (_, accepted, _) ← buffer.writeFd size outcome
      -- the message leaves the queue, whatever was sent of it
      .ok (toInt size, accepted, { w with queue := queue })

def held (w : BufferWriter) : List Byte := w.queue.flatMap Buffer.contents

/-! ### The transmit path with its history -/

inductive TxOp
  | append (data : List Byte) (len : ℕ)
  | send (outcome : SendOutcome)

/-- The array passed to `append` is as long as its `uint32_t` says. -/
def TxOp.Valid : TxOp → Prop
  | .append data len => len ≤ data.length ∧ len < 2 ^ 32
  | .send _ => True

/-- A writer with the data of the appends that answered true and the bytes the socket
accepted. -/
structure Tx where
  writer : BufferWriter
  appended : List Byte
  accepted : List Byte
  deriving DecidableEq, Repr

def Tx.start (capacity : ℕ) : Tx := ⟨new capacity, [], []⟩

def txStep (junk : ℕ → Byte) (s : Tx) : TxOp → Except Fault (Unit × Tx)
  | .append data len => do
      let (ok, writer) ← s.writer.append junk data len
      .ok ((), { s with writer := writer,
                        appended := s.appended ++ if ok then data.take len else [] })
  | .send outcome => do
      let (_, accepted, writer) ← s.writer.send outcome
      .ok ((), { s with writer := writer, accepted := s.accepted ++ accepted })

/-- What the socket accepted and what is still held make up what was appended. -/
def Tx.Lossless (s : Tx) : Prop := s.accepted ++ s.writer.held = s.appended

/-- A `send` on a queue that is not empty finds room in the socket for the whole message at
the head. -/
def TakesWholeMessage (s : Tx) : TxOp → Prop
  | .append _ _ => True
  | .send outcome => ∀ buffer ∈ s.writer.queue.head?, buffer.size ≤ outcome.getD 0

/-! ### Messages in the queue -/

/-- A buffer as `append` queues it: its bytes start at cell 0. -/
structure Message (b : Buffer) : Prop where
  wf : b.Wf
  getPos_eq : b.getPos = 0
  size_lt : b.size < 2 ^ 32
  size_le : b.size ≤ b.data.length

theorem append_message (junk : ℕ → Byte) {data : List Byte} {len : ℕ} (hlen : len ≤ data.length)
    (hlt : len < 2 ^ 32) :
    ∃ b, (Buffer.new junk len).write (some data) len = .ok (len, b) ∧ Message b ∧
      b.contents = data.take len := by
  have hlen : len < 2 ^ 63 := by omega
  have hwf := Buffer.new_wf junk hlen
  have halloc := Buffer.new_alloc junk hlen
  have hsize := Buffer.new_size junk hlen
  have hcap : (Buffer.new junk len).capacity = len := rfl
  have hacc : (Buffer.new junk len).accepted len = len := by
    rw [Buffer.accepted, hsize, hcap]
    omega
  have htake : (data.take len).length = len := by
    rw [List.length_take]
    omega
  have hroom : (Buffer.new junk len).size + (data.take len).length ≤
      (Buffer.new junk len).capacity := by
    rw [hsize, htake, hcap, Nat.zero_add]
  have hsize' := Buffer.extend_size hwf hroom
  rw [hsize, htake, Nat.zero_add] at hsize'
  refine ⟨_, ?_, ⟨hwf.extend (data.take len), rfl, ?_, ?_⟩, ?_⟩
  · rw [Buffer.write_of_alloc hwf halloc (by omega), hacc]
  · omega
  · rw [hsize']
    simp only [Buffer.extend, putCells_length, halloc, hcap]
    omega
  · rw [Buffer.extend_contents hwf hroom]
    · rw [Buffer.contents, hsize, cells_zero, List.nil_append]
    · intro i _
      rw [halloc]
      exact Nat.mod_lt _ (Nat.succ_pos _)

/-- Sending a message hands the socket its bytes, of which it takes a first part. -/
theorem Message.writeFd {b : Buffer} (h : Message b) (outcome : SendOutcome) :
    ∃ ret b', b.writeFd b.readableBytes outcome =
      .ok (ret, b.contents.take (outcome.getD 0), b') := by
  have hget := h.getPos_eq
  have hsize := h.size_le
  have hmin : min b.readableBytes b.readableBytes = b.size := by
    rw [Buffer.readableBytes, Nat.min_self]
  have hin : b.getPos + min b.readableBytes b.readableBytes ≤ b.data.length := by omega
  have hlt : min b.readableBytes b.readableBytes < 2 ^ 32 := by
    rw [hmin]
    exact h.size_lt
  have hlen : (b.sendRegion b.readableBytes).2 = b.size := by
    rw [Buffer.sendRegion_len, hmin]
  have hhanded : (b.data.drop (b.sendRegion b.readableBytes).1).take
      (b.sendRegion b.readableBytes).2 = b.contents := by
    have hslice := Buffer.handed_eq h.wf hin hlt
    rw [Buffer.handed, hlen, toUInt32_of_lt h.size_lt, hmin] at hslice
    rw [hlen, hslice]
    exact List.take_of_length_le (by simp)
  have hregion : (b.sendRegion b.readableBytes).1 + (b.sendRegion b.readableBytes).2 ≤
      b.data.length := by
    rw [hlen]
    simp only [Buffer.sendRegion]
    omega
  have hlt' : (b.sendRegion b.readableBytes).2 < 2 ^ 32 := by
    rw [hlen]
    exact h.size_lt
  rw [Buffer.writeFd]
  cases outcome with
  | none =>
      rw [SocketApi.send_none hregion hlt']
      exact ⟨-1, b, by simp⟩
  | some room =>
      rw [SocketApi.send_some hregion hlt', ok_bind, hhanded]
      dsimp only
      split
      · exact ⟨_, _, rfl⟩
      · exact ⟨_, _, rfl⟩

/-! ### One call -/

def Tx.Queued (s : Tx) : Prop := ∀ b ∈ s.writer.queue, Message b

/-- What a valid call does: it appends a message or refuses it, or it sends the head of the
queue, of which the socket takes a first part, or finds the queue empty. -/
theorem txStep_cases (junk : ℕ → Byte) {s : Tx} (h : s.Queued) {op : TxOp} (hvalid : op.Valid) :
    (∃ data len b, op = .append data len ∧ Message b ∧ b.contents = data.take len ∧
      txStep junk s op = .ok ((), { s with
        writer := { s.writer with queue := s.writer.queue ++ [b] },
        appended := s.appended ++ data.take len })) ∨
    (∃ data len, op = .append data len ∧ txStep junk s op = .ok ((), s)) ∨
    (∃ outcome b queue, op = .send outcome ∧ s.writer.queue = b :: queue ∧
      txStep junk s op = .ok ((), { s with
        writer := { s.writer with queue := queue },
        accepted := s.accepted ++ b.contents.take (outcome.getD 0) })) ∨
    (∃ outcome, op = .send outcome ∧ s.writer.queue = [] ∧
      txStep junk s op = .ok ((), s)) := by
  cases op with
  | append data len =>
      obtain ⟨hlen, hlt⟩ := hvalid
      by_cases hfull : s.writer.full
      case pos =>
        refine .inr (.inl ⟨data, len, rfl, ?_⟩)
        rw [txStep, append, if_pos hfull, ok_bind]
        simp
      case neg =>
        obtain ⟨b, hwrite, hmsg, hcontents⟩ := append_message junk hlen hlt
        refine .inl ⟨data, len, b, rfl, hmsg, hcontents, ?_⟩
        rw [txStep, append, if_neg hfull, hwrite]
        simp
  | send outcome =>
      cases hqueue : s.writer.queue with
      | nil =>
          refine .inr (.inr (.inr ⟨outcome, rfl, rfl, ?_⟩))
          rw [txStep, send, hqueue, ok_bind]
          simp
      | cons b queue =>
          obtain ⟨ret, b', hwrite⟩ := (h b (by simp [hqueue])).writeFd outcome
          refine .inr (.inr (.inl ⟨outcome, b, queue, rfl, rfl, ?_⟩))
          rw [txStep, send, hqueue]
          simp only [hwrite, ok_bind]

theorem queued_step (junk : ℕ → Byte) {s : Tx} (h : s.Queued) {op : TxOp} (hvalid : op.Valid) :
    ∃ s', txStep junk s op = .ok ((), s') ∧ s'.Queued := by
  rcases txStep_cases junk h hvalid with
    ⟨data, len, b, -, hmsg, -, hstep⟩ | ⟨data, len, -, hstep⟩ |
    ⟨outcome, b, queue, -, hqueue, hstep⟩ | ⟨outcome, -, -, hstep⟩
  · refine ⟨_, hstep, ?_⟩
    intro b' hb'
    rcases List.mem_append.mp hb' with hold | hnew
    · exact h b' hold
    · rw [List.mem_singleton.mp hnew]
      exact hmsg
  · exact ⟨s, hstep, h⟩
  · refine ⟨_, hstep, ?_⟩
    intro b' hb'
    exact h b' (by rw [hqueue]; exact List.mem_cons_of_mem _ hb')
  · exact ⟨s, hstep, h⟩

/-! ### Conservation -/

/-- Fewer bytes are left than were appended. -/
def Tx.Short (s : Tx) : Prop :=
  s.accepted.length + s.writer.held.length < s.appended.length

theorem Tx.Short.not_lossless {s : Tx} (h : s.Short) : ¬ s.Lossless := by
  intro heq
  have hlen := congrArg List.length heq
  rw [List.length_append] at hlen
  rw [Tx.Short] at h
  omega

theorem held_append (w : BufferWriter) (b : Buffer) :
    ({ w with queue := w.queue ++ [b] } : BufferWriter).held = w.held ++ b.contents := by
  simp [held]

theorem held_cons {w : BufferWriter} {b : Buffer} {queue : List Buffer}
    (h : w.queue = b :: queue) :
    w.held = b.contents ++ ({ w with queue := queue } : BufferWriter).held := by
  simp [held, h]

theorem lossless_step (junk : ℕ → Byte) {s s' : Tx} (h : s.Queued) (hl : s.Lossless) {op : TxOp}
    (hvalid : op.Valid) (hwhole : TakesWholeMessage s op)
    (hstep : txStep junk s op = .ok ((), s')) : s'.Lossless := by
  rw [Tx.Lossless] at hl
  rcases txStep_cases junk h hvalid with
    ⟨data, len, b, -, -, hcontents, h'⟩ | ⟨data, len, -, h'⟩ |
    ⟨outcome, b, queue, rfl, hqueue, h'⟩ | ⟨outcome, -, -, h'⟩
  all_goals
    rw [hstep] at h'
    injection h' with h'
    obtain rfl := (Prod.mk.inj h').2
  · simp only [Tx.Lossless]
    rw [held_append, ← List.append_assoc, hl, hcontents]
  · exact hl
  · have hroom : b.size ≤ outcome.getD 0 := hwhole b (by rw [hqueue]; rfl)
    simp only [Tx.Lossless]
    rw [List.take_of_length_le (by simpa using hroom), List.append_assoc, ← held_cons hqueue, hl]
  · exact hl

/-- A `send` that leaves part of a message behind loses it. -/
theorem short_of_partial (junk : ℕ → Byte) {s s' : Tx} (h : s.Queued) (hl : s.Lossless)
    {op : TxOp} (hvalid : op.Valid) (hshort : ¬ TakesWholeMessage s op)
    (hstep : txStep junk s op = .ok ((), s')) : s'.Short := by
  rw [Tx.Lossless] at hl
  rcases txStep_cases junk h hvalid with
    ⟨data, len, b, rfl, -, -, h'⟩ | ⟨data, len, rfl, h'⟩ |
    ⟨outcome, b, queue, rfl, hqueue, h'⟩ | ⟨outcome, rfl, hqueue, h'⟩
  · exact absurd trivial hshort
  · exact absurd trivial hshort
  · rw [hstep] at h'
    injection h' with h'
    obtain rfl := (Prod.mk.inj h').2
    have hroom : outcome.getD 0 < b.size := by
      by_contra hge
      apply hshort
      intro buffer hbuffer
      rw [hqueue, List.head?_cons, Option.mem_some_iff] at hbuffer
      rw [← hbuffer]
      omega
    -- the rest of the head message is counted nowhere
    have hlen := congrArg List.length hl
    rw [held_cons hqueue] at hlen
    simp only [List.length_append, Buffer.contents_length] at hlen
    simp only [Tx.Short, List.length_append, List.length_take, Buffer.contents_length]
    omega
  · refine absurd ?_ hshort
    intro buffer hbuffer
    rw [hqueue] at hbuffer
    cases hbuffer

theorem short_step (junk : ℕ → Byte) {s s' : Tx} (h : s.Queued) (hshort : s.Short) {op : TxOp}
    (hvalid : op.Valid) (hstep : txStep junk s op = .ok ((), s')) : s'.Short := by
  rw [Tx.Short] at hshort
  rcases txStep_cases junk h hvalid with
    ⟨data, len, b, -, -, hcontents, h'⟩ | ⟨data, len, -, h'⟩ |
    ⟨outcome, b, queue, -, hqueue, h'⟩ | ⟨outcome, -, -, h'⟩
  all_goals
    rw [hstep] at h'
    injection h' with h'
    obtain rfl := (Prod.mk.inj h').2
  · simp only [Tx.Short]
    rw [held_append, hcontents, List.length_append, List.length_append]
    omega
  · exact hshort
  · rw [held_cons hqueue] at hshort
    simp only [Tx.Short, List.length_append, List.length_take] at hshort ⊢
    omega
  · exact hshort

/-- The transmit path loses nothing exactly on the runs in which every `send` finds room in
the socket for the whole message at the head of the queue. -/
theorem lossless_iff (junk : ℕ → Byte) (capacity : ℕ) (ops : List TxOp)
    (hops : ∀ op ∈ ops, op.Valid) :
    ∃ answers s, run (txStep junk) (Tx.start capacity) ops = .ok (answers, s) ∧
      (s.Lossless ↔ Along (txStep junk) TakesWholeMessage (Tx.start capacity) ops) := by
  have hstart : (Tx.start capacity).Queued := by simp [Tx.Queued, Tx.start, new]
  have hV : Along (txStep junk) (fun _ op => op.Valid) (Tx.start capacity) ops :=
    along_of_forall_mem hops
  obtain ⟨answers, s, hrun, -⟩ := run_total (I := Tx.Queued)
    (fun s op hs hvalid => by
      obtain ⟨s', hstep, hs'⟩ := queued_step junk hs hvalid
      exact ⟨(), s', hstep, hs'⟩) hstart hV
  have hkeep : ∀ s op (b : Unit) s', s.Queued → op.Valid → txStep junk s op = .ok (b, s') →
      s'.Queued := by
    intro s op b s' hs hvalid hstep
    obtain ⟨s'', hstep', hs''⟩ := queued_step junk hs hvalid
    rw [hstep] at hstep'
    injection hstep' with hstep'
    rw [(Prod.mk.inj hstep').2]
    exact hs''
  refine ⟨answers, s, hrun, ?_⟩
  exact holds_iff_along (E := fun s => s.Queued ∧ s.Lossless) (L := fun s => s.Queued ∧ s.Short)
    (V := fun _ op => op.Valid)
    (fun s op b s' hs hvalid hwhole hstep => ⟨hkeep s op b s' hs.1 hvalid hstep,
      lossless_step junk hs.1 hs.2 hvalid hwhole hstep⟩)
    (fun s op b s' hs hvalid hshort hstep => ⟨hkeep s op b s' hs.1 hvalid hstep,
      short_of_partial junk hs.1 hs.2 hvalid hshort hstep⟩)
    (fun s op b s' hs hvalid hstep => ⟨hkeep s op b s' hs.1 hvalid hstep,
      short_step junk hs.1 hs.2 hvalid hstep⟩)
    (fun s hs => hs.2) (fun s hs => hs.2.not_lossless) ⟨hstart, rfl⟩ hV hrun

theorem lossless_whole_message :
    ∃ answers s, run (txStep fun _ => 0) (Tx.start 4) [.append [1, 2, 3] 3, .send (some 5)] =
        .ok (answers, s) ∧
      (s.Lossless ↔ Along (txStep fun _ => 0) TakesWholeMessage (Tx.start 4)
        [.append [1, 2, 3] 3, .send (some 5)]) :=
  lossless_iff (fun _ => 0) 4 [.append [1, 2, 3] 3, .send (some 5)] (by simp [TxOp.Valid])

/-- Three bytes are appended, the socket takes one, and the other two are nowhere. -/
theorem partial_send_loses_rest :
    run (txStep fun _ => 0) (Tx.start 4) [.append [1, 2, 3] 3, .send (some 1)] =
      .ok ([(), ()], ⟨⟨4, []⟩, [1, 2, 3], [1]⟩) ∧
    ¬ (⟨⟨4, []⟩, [1, 2, 3], [1]⟩ : Tx).Lossless := by
  refine ⟨by decide +kernel, ?_⟩
  simp [Tx.Lossless, held]

end BufferWriter

end LpNet
