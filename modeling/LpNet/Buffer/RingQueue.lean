import LpNet.Buffer.RingBuffer
import LpNet.Lib.BoundedQueue

/-!
`RingBuffer<T>` against a bounded FIFO queue.

`RingOp` is one call of `push` or `pop`, and `ringStep` performs it and looks at the
ring afterwards; `specStep` is the same on a `BoundedQueue` of the capacity of the
ring. The ring keeps up with the queue as long as one cell stays unused:
`ringStep_refines` is the step, and `refines_queue_iff` says that the push that fills
the last cell, and the push of an rvalue, are always answered differently.
-/

namespace LpNet

open Transition

namespace RingBuffer

variable {T : Type}

/-- `size()`, called with or without `mutex_` in the caller's hands. -/
def size (r : RingBuffer T) (locked : Bool) : Except Fault ℕ :=
  if locked then .error .diverges else .ok r.sizeInternal

/-- `push(T &&x)`. It asks `size()` while it holds the mutex. -/
def pushMove (r : RingBuffer T) (x : T) : Except Fault (Bool × RingBuffer T) := do
  let n ← r.size true
  if r.capacity ≤ n then .ok (false, r)
  else
    .ok (true, { r with data := r.data.set r.putPos x,
                        putPos := (r.putPos + 1) % r.capacity })

inductive RingOp (T : Type)
  /-- `push(const T &x)` -/
  | push (x : T)
  /-- `push(T &&x)` -/
  | pushMove (x : T)
  /-- `pop(x)` -/
  | pop

/-- What a call answers: whether a push returned false, or what a pop stored. -/
inductive RingResult (T : Type)
  | pushed (refused : Bool)
  | popped (x : Option T)
  deriving DecidableEq, Repr

/-- What is observed of a call: its result, and `size()`, `empty()` and `full()` afterwards. -/
structure RingAnswer (T : Type) where
  result : RingResult T
  size : ℕ
  empty : Bool
  full : Bool
  deriving DecidableEq, Repr

def answer (result : RingResult T) (r : RingBuffer T) : RingAnswer T :=
  ⟨result, r.sizeInternal, r.emptyInternal, r.fullInternal⟩

variable [Inhabited T]

def ringStep (r : RingBuffer T) :
    RingOp T → Except Fault (RingAnswer T × RingBuffer T)
  | .push x =>
      let (returned, r) := r.push x
      .ok (answer (.pushed (returned == some false)) r, r)
  | .pushMove x => do
      let (returned, r) ← r.pushMove x
      .ok (answer (.pushed (!returned)) r, r)
  | .pop =>
      let (x, r) := r.pop
      .ok (answer (.popped x) r, r)

end RingBuffer

namespace BoundedQueue

open RingBuffer

variable {T : Type} {capacity : ℕ}

def answer (result : RingResult T) (q : BoundedQueue T capacity) : RingAnswer T :=
  ⟨result, q.items.length, q.items.isEmpty, q.items.length == capacity⟩

/-- The same calls on a queue: a push is refused when the queue is full. -/
def specStep (q : BoundedQueue T capacity) :
    RingOp T → Except Fault (RingAnswer T × BoundedQueue T capacity)
  | .push x | .pushMove x =>
      .ok (answer (.pushed (q.items.length == capacity)) (q.enqueue [x]), q.enqueue [x])
  | .pop => .ok (answer (.popped q.items.head?) (q.dequeue 1), q.dequeue 1)

/-- A push leaves a cell unused, and is not one of an rvalue. -/
def LeavesSpare (q : BoundedQueue T capacity) : RingOp T → Prop
  | .push _ => q.items.length + 1 < capacity
  | .pushMove _ => False
  | .pop => True

instance (q : BoundedQueue T capacity) (op : RingOp T) : Decidable (q.LeavesSpare op) :=
  match op with
  | .push _ => inferInstanceAs (Decidable (_ < _))
  | .pushMove _ => .isFalse id
  | .pop => .isTrue trivial

end BoundedQueue

namespace RingBuffer

variable {T : Type} [Inhabited T] {capacity : ℕ} {r : RingBuffer T}
  {q : BoundedQueue T capacity}

/-- The ring holds the items of the queue, with a cell to spare. -/
structure Represents (r : RingBuffer T) (q : BoundedQueue T capacity) : Prop where
  wf : r.Wf
  capacity_eq : r.capacity = capacity
  items_eq : r.contents = q.items

theorem represents_new (hpos : 1 ≤ capacity) (hcap : capacity < 2 ^ 63) :
    Represents (new T capacity) (BoundedQueue.empty T capacity) where
  wf := new_wf hpos hcap
  capacity_eq := rfl
  items_eq := new_contents hpos hcap

theorem Represents.size_eq (h : Represents r q) : r.sizeInternal = q.items.length := by
  rw [← h.items_eq, contents_length]

theorem Represents.length_lt (h : Represents r q) : q.items.length < capacity := by
  rw [← h.size_eq, ← h.capacity_eq]
  exact h.wf.size_lt

theorem Represents.answer_eq (h : Represents r q) (result : RingResult T) :
    answer result r = q.answer result := by
  have hempty : r.emptyInternal = q.items.isEmpty := by
    rw [Bool.eq_iff_iff, ← contents_eq_nil_iff h.wf, h.items_eq, List.isEmpty_iff]
  have hfull : r.fullInternal = (q.items.length == capacity) := by
    rw [fullInternal, h.size_eq, h.capacity_eq]
  rw [answer, BoundedQueue.answer, h.size_eq, hempty, hfull]

theorem Represents.push (h : Represents r q) {x : T} (hspare : q.items.length + 1 < capacity) :
    Represents (r.push x).2 (q.enqueue [x]) where
  wf := h.wf.push x
  capacity_eq := by
    rw [push_of_wf h.wf]
    exact h.capacity_eq
  items_eq := by
    have hroom : 1 ≤ q.room := by
      rw [BoundedQueue.room]
      omega
    rw [push_contents h.wf, h.size_eq, h.capacity_eq, if_pos hspare, h.items_eq,
      BoundedQueue.enqueue_items, List.take_of_length_le hroom]

theorem Represents.pop (h : Represents r q) :
    r.pop.1 = q.items.head? ∧ Represents r.pop.2 (q.dequeue 1) := by
  have hitems := h.items_eq
  have hcapacity : r.pop.2.capacity = capacity := by
    rw [← h.capacity_eq, RingBuffer.pop]
    split <;> rfl
  cases hq : q.items with
  | nil =>
      rw [hq] at hitems
      have hpop := pop_of_nil h.wf hitems
      refine ⟨by rw [hpop]; rfl, h.wf.pop, hcapacity, ?_⟩
      rw [hpop, BoundedQueue.dequeue_items, hq]
      exact hitems
  | cons x xs =>
      rw [hq] at hitems
      obtain ⟨r', hpop, hrest, -⟩ := pop_of_cons h.wf hitems
      refine ⟨by rw [hpop]; rfl, h.wf.pop, hcapacity, ?_⟩
      rw [hpop, BoundedQueue.dequeue_items, hq]
      exact hrest

/-- A call that leaves a cell unused answers what the queue answers. -/
theorem ringStep_refines (h : Represents r q) {op : RingOp T} (hspare : q.LeavesSpare op) :
    ∃ a r' q', r.ringStep op = .ok (a, r') ∧ q.specStep op = .ok (a, q') ∧
      Represents r' q' := by
  cases op with
  | push x =>
      have hne : (q.items.length == capacity) = false := by
        simpa using h.length_lt.ne
      have hpush := h.push (x := x) hspare
      refine ⟨_, _, _, ?_, rfl, hpush⟩
      rw [← hpush.answer_eq, hne, ringStep, push_of_wf h.wf]
      rfl
  | pushMove x => exact absurd hspare id
  | pop =>
      obtain ⟨hhead, hpop⟩ := h.pop
      refine ⟨_, _, _, ?_, rfl, hpop⟩
      rw [← hpop.answer_eq, ← hhead, ringStep]

/-- The push that fills the ring leaves it empty, and the push of an rvalue never returns. -/
theorem ringStep_differs (h : Represents r q) {op : RingOp T} (hspare : ¬ q.LeavesSpare op) :
    (r.ringStep op).map Prod.fst ≠ (q.specStep op).map Prod.fst := by
  cases op with
  | push x =>
      have hfull : ¬ q.items.length + 1 < capacity := hspare
      have hlt := h.length_lt
      have hempty : (r.push x).2.sizeInternal = 0 := by
        rw [← contents_length, push_contents h.wf, h.size_eq, h.capacity_eq, if_neg hfull]
        rfl
      have hone : 1 ≤ q.room := by
        rw [BoundedQueue.room]
        omega
      have hlength : (q.enqueue [x]).items.length = q.items.length + 1 := by
        rw [BoundedQueue.enqueue_items, List.take_of_length_le hone, List.length_append]
        rfl
      intro heq
      rw [ringStep, BoundedQueue.specStep] at heq
      simp only [Except.map, Except.ok.injEq, answer, BoundedQueue.answer, hempty, hlength,
        RingAnswer.mk.injEq] at heq
      omega
  | pushMove x =>
      intro heq
      cases heq
  | pop => exact absurd trivial hspare

/-- A ring of capacity `N` answers a sequence of calls as a queue of capacity `N` does exactly
when no push is made on `N - 1` elements and none is given an rvalue. -/
theorem refines_queue_iff (capacity : ℕ) (hpos : 1 ≤ capacity) (hcap : capacity < 2 ^ 63)
    (ops : List (RingOp T)) :
    (run ringStep (new T capacity) ops).map Prod.fst =
        (run BoundedQueue.specStep (BoundedQueue.empty T capacity) ops).map Prod.fst ↔
      Along BoundedQueue.specStep BoundedQueue.LeavesSpare (BoundedQueue.empty T capacity) ops := by
  have htotal : ∀ (q : BoundedQueue T capacity) (op : RingOp T),
      ∃ a q', q.specStep op = .ok (a, q') := by
    intro q op
    cases op <;> exact ⟨_, _, rfl⟩
  exact answers_eq_iff htotal (fun _ _ _ h hspare => ringStep_refines h hspare)
    (fun _ _ _ h hspare => ringStep_differs h hspare) (represents_new hpos hcap)

/-- Two elements go through a ring of three cells, around its end. -/
theorem refines_queue_iff_wrapped :
    (run ringStep (new ℕ 3) [.push 1, .push 2, .pop, .push 3, .pop, .pop]).map Prod.fst =
        (run BoundedQueue.specStep (BoundedQueue.empty ℕ 3)
          [.push 1, .push 2, .pop, .push 3, .pop, .pop]).map Prod.fst ↔
      Along BoundedQueue.specStep BoundedQueue.LeavesSpare (BoundedQueue.empty ℕ 3)
        [.push 1, .push 2, .pop, .push 3, .pop, .pop] :=
  refines_queue_iff 3 (by decide) (by decide) [.push 1, .push 2, .pop, .push 3, .pop, .pop]

/-- The second of two elements fills a ring of two cells, and both are lost. -/
theorem ring_loses_elements :
    (run ringStep (new ℕ 2) [.push 1, .push 2, .pop]).map Prod.fst ≠
      (run BoundedQueue.specStep (BoundedQueue.empty ℕ 2) [.push 1, .push 2, .pop]).map
        Prod.fst := by
  decide +kernel

end RingBuffer

end LpNet
