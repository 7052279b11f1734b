import LpNet.Lib.BoundedQueue
import LpNet.Buffer.Buffer

/-!
`Buffer` refines a bounded FIFO queue of bytes.

`QueueOp` is one call of a member function that treats the buffer as a queue and
`Buffer.queueStep` performs it. The abstract counterpart `specStep` acts on a
`BoundedQueue`. The refinement relation `Represents` says that the contents of
the buffer are the items of the queue and that the buffer still has the ring its
constructor allocated; one call keeps it (`step_refines`), hence so does every
run.
-/

namespace LpNet

open Transition

namespace Buffer

inductive QueueOp
  /-- `write(s, n)` -/
  | write (s : List Byte) (n : ℕ)
  /-- `read(s, n)` -/
  | read (s : List Byte) (n : ℕ)
  /-- `read(nullptr, n)` -/
  | skip (n : ℕ)
  /-- `clear()` -/
  | clear

/-- What a call answers: its result, and for `read` the destination afterwards. -/
inductive Res
  | count (n : ℕ)
  | copied (n : ℕ) (s : List Byte)
  | index (i : ℤ)
  | none
  deriving DecidableEq, Repr

/-- The arrays the caller passes are as long as it says. -/
def QueueOp.Valid : QueueOp → Prop
  | .write s n => n ≤ s.length
  | .read s n => n ≤ s.length
  | .skip _ | .clear => True

def queueStep (b : Buffer) : QueueOp → Except Fault (Res × Buffer)
  | .write s n => do
      let (k, b) ← b.write (some s) n
      .ok (.count k, b)
  | .read s n => do
      let (k, s', b) ← b.read (some s) n
      .ok (.copied k (s'.getD []), b)
  | .skip n => do
      let (k, _, b) ← b.read none n
      .ok (.count k, b)
  | .clear => .ok (.none, b.clear)

theorem clear_wf {b : Buffer} (h : b.Wf) : b.clear.Wf where
  cap_lt := h.cap_lt
  put_le := Nat.zero_le _
  get_le := Nat.zero_le _
  alloc_le := h.alloc_le

theorem clear_contents {b : Buffer} (h : b.Wf) : b.clear.contents = [] := by
  have hsize : b.clear.size = 0 := (clear_wf h).size_eq_zero_iff.mpr rfl
  rw [contents, hsize, Cyclic.cells_zero]

variable {capacity : ℕ}

def specStep (q : BoundedQueue Byte capacity) :
    QueueOp → Except Fault (Res × BoundedQueue Byte capacity)
  | .write s n => .ok (.count (min n q.room), q.enqueue (s.take n))
  | .read s n =>
      let k := min n q.items.length
      .ok (.copied k (q.items.take k ++ s.drop k), q.dequeue k)
  | .skip n =>
      let k := min n q.items.length
      .ok (.count k, q.dequeue k)
  | .clear => .ok (.none, .empty Byte capacity)

/-- The buffer holds the items of the queue, in the ring of its constructor. -/
structure Represents (b : Buffer) (q : BoundedQueue Byte capacity) : Prop where
  wf : b.Wf
  alloc : b.data.length = b.capacity + 1
  capacity_eq : b.capacity = capacity
  items_eq : b.contents = q.items

theorem Represents.size_eq {b : Buffer} {q : BoundedQueue Byte capacity}
    (h : Represents b q) : b.size = q.items.length := by
  rw [← h.items_eq, contents_length]

theorem Represents.room_eq {b : Buffer} {q : BoundedQueue Byte capacity}
    (h : Represents b q) : b.capacity - b.size = q.room := by
  rw [h.capacity_eq, h.size_eq, BoundedQueue.room]

theorem represents_new (junk : ℕ → Byte) (h : capacity < 2 ^ 63) :
    Represents (new junk capacity) (BoundedQueue.empty Byte capacity) where
  wf := new_wf junk h
  alloc := new_alloc junk h
  capacity_eq := rfl
  items_eq := by
    rw [contents, new_size junk h]
    rfl

theorem represents_extend {b : Buffer} {q : BoundedQueue Byte capacity} (h : Represents b q)
    {s : List Byte} {n : ℕ} (hs : n ≤ s.length) :
    Represents (b.extend (s.take (b.accepted n))) (q.enqueue (s.take n)) where
  wf := h.wf.extend _
  alloc := by simpa [extend] using h.alloc
  capacity_eq := h.capacity_eq
  items_eq := by
    have hsize := h.wf.size_le
    have hroom : b.size + (s.take (b.accepted n)).length ≤ b.capacity := by
      rw [List.length_take, accepted]
      omega
    have hin : ∀ i < (s.take (b.accepted n)).length,
        (b.putPos + i) % (b.capacity + 1) < b.data.length := by
      intro i _
      rw [h.alloc]
      exact Nat.mod_lt _ (Nat.succ_pos _)
    rw [extend_contents h.wf hroom hin, h.items_eq, BoundedQueue.enqueue_items, accepted,
      h.room_eq, List.take_take, Nat.min_comm]

theorem represents_advance {b : Buffer} {q : BoundedQueue Byte capacity} (h : Represents b q)
    {k : ℕ} (hk : k ≤ b.size) : Represents (b.advance k) (q.dequeue k) where
  wf := h.wf.advance k
  alloc := h.alloc
  capacity_eq := h.capacity_eq
  items_eq := by rw [advance_contents h.wf hk, h.items_eq, BoundedQueue.dequeue_items]

/-- One call answers what the queue answers, and keeps the relation. -/
theorem step_refines {b : Buffer} {q : BoundedQueue Byte capacity} {op : QueueOp}
    (h : Represents b q) (hvalid : op.Valid) :
    ∃ res b' q', b.queueStep op = .ok (res, b') ∧ specStep q op = .ok (res, q') ∧
      Represents b' q' := by
  cases op with
  | write s n =>
      have hacc : b.accepted n ≤ s.length := le_trans (Nat.min_le_left ..) hvalid
      refine ⟨.count (b.accepted n), _, _, ?_, ?_, represents_extend h hvalid⟩
      · rw [queueStep, write_of_alloc h.wf h.alloc hacc, ok_bind]
      · rw [specStep, accepted, h.room_eq]
  | read s n =>
      have hk : min n b.size ≤ b.size := Nat.min_le_right ..
      have htake : b.contents.take n = b.contents.take (min n b.size) := by
        rw [List.take_eq_take_iff]
        simp
      refine ⟨.copied (min n b.size) (b.contents.take (min n b.size) ++ s.drop (min n b.size)),
        b.advance (min n b.size), _, ?_, ?_, represents_advance h hk⟩
      · rw [queueStep, read_of_held h.wf (held_of_alloc h.alloc)
          (le_trans (Nat.min_le_left ..) hvalid), ok_bind, htake]
        rfl
      · rw [specStep, h.size_eq, h.items_eq]
  | skip n =>
      have hk : min n b.size ≤ b.size := Nat.min_le_right ..
      refine ⟨.count (min n b.size), b.advance (min n b.size), _, ?_, ?_,
        represents_advance h hk⟩
      · rw [queueStep, read_none h.wf, ok_bind]
      · rw [specStep, h.size_eq]
  | clear =>
      refine ⟨.none, b.clear, _, rfl, rfl, clear_wf h.wf, h.alloc, h.capacity_eq, ?_⟩
      rw [clear_contents h.wf, BoundedQueue.empty_items]

/-- Every run of queue calls from a fresh buffer answers what the abstract queue answers,
ends with its items, and stays inside the bounds of the representation. -/
theorem run_refines_queue (junk : ℕ → Byte) (capacity : ℕ) (hcap : capacity < 2 ^ 63)
    (ops : List QueueOp) (hops : ∀ op ∈ ops, op.Valid) :
    ∃ results b q,
      run queueStep (new junk capacity) ops = .ok (results, b) ∧
      run specStep (BoundedQueue.empty Byte capacity) ops = .ok (results, q) ∧
      b.contents = q.items ∧ b.capacity = capacity ∧
      b.getPos ≤ capacity ∧ b.putPos ≤ capacity ∧ b.size ≤ capacity ∧
      (b.size = 0 ↔ b.empty = true) ∧ (b.size = capacity ↔ b.full = true) := by
  have hstep : ∀ (b : Buffer) (q : BoundedQueue Byte capacity) (op : QueueOp),
      Represents b q → op.Valid → True → ∃ res b' q', b.queueStep op = .ok (res, b') ∧
        specStep q op = .ok (res, q') ∧ Represents b' q' :=
    fun b q op hR hvalid _ => step_refines hR hvalid
  obtain ⟨results, b, q, hb, hq, hrel⟩ :=
    run_eq_of_simulation hstep (represents_new junk hcap) (along_of_forall_mem hops)
      (along_of_forall_mem fun _ _ => trivial)
  refine ⟨results, b, q, hb, hq, hrel.items_eq, hrel.capacity_eq, ?_, ?_, ?_,
    hrel.wf.size_eq_zero_iff, ?_⟩
  · exact hrel.capacity_eq ▸ hrel.wf.get_le
  · exact hrel.capacity_eq ▸ hrel.wf.put_le
  · exact hrel.capacity_eq ▸ hrel.wf.size_le
  · rw [full, beq_iff_eq, hrel.capacity_eq]

/-- A run on a ring of two cells that wraps. -/
theorem run_refines_queue_wrapped :
    ∃ results b q,
      run queueStep (new (fun _ => 7) 1)
        [.write [1, 2] 2, .skip 1, .write [3] 1, .read [0] 1] = .ok (results, b) ∧
      run specStep (BoundedQueue.empty Byte 1)
        [.write [1, 2] 2, .skip 1, .write [3] 1, .read [0] 1] = .ok (results, q) ∧
      b.contents = q.items ∧ b.capacity = 1 ∧
      b.getPos ≤ 1 ∧ b.putPos ≤ 1 ∧ b.size ≤ 1 ∧
      (b.size = 0 ↔ b.empty = true) ∧ (b.size = 1 ↔ b.full = true) :=
  run_refines_queue (fun _ => 7) 1 (by decide)
    [.write [1, 2] 2, .skip 1, .write [3] 1, .read [0] 1] (by simp [QueueOp.Valid])

end Buffer

end LpNet
