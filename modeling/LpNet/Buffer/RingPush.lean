import LpNet.Buffer.RingQueue

/-!
The two overloads of `RingBuffer::push` with their mutex.

Here the lock is part of the state, and each call locks and unlocks it as it goes. `push(const T &)`
asks `sizeInternal()`, and `push(T &&)` asks `size()`, which locks the mutex that the call already
holds. `push_eq` says that the first is the `push` of the ring, and `pushMove_relocks` that the
other never returns. What another thread does with the mutex is left out: while it holds the
mutex a call waits, and then finds it free.
-/

namespace LpNet

open Transition

inductive RingFault
  /-- The mutex is held by the thread that locks it. -/
  | deadlock
  /-- The remainder by `capacity_` of a ring without cells. -/
  | divisionByZero
  deriving DecidableEq, Repr

/-- A ring, and whether the calling thread holds `mutex_`. -/
structure LockedRing (T : Type) where
  ring : RingBuffer T
  locked : Bool
  deriving DecidableEq, Repr

namespace LockedRing

variable {T : Type}

/-- The constructor of `Mutex::lock`. -/
def lock (s : LockedRing T) : Except RingFault (LockedRing T) :=
  if s.locked then .error .deadlock else .ok { s with locked := true }

/-- The destructor of `Mutex::lock`. -/
def unlock (s : LockedRing T) : LockedRing T := { s with locked := false }

def sizeInternal (s : LockedRing T) : Except RingFault ℕ :=
  if s.ring.capacity = 0 then .error .divisionByZero else .ok s.ring.sizeInternal

def size (s : LockedRing T) : Except RingFault (ℕ × LockedRing T) := do
  let s ← s.lock
  let n ← s.sizeInternal
  .ok (n, s.unlock)

/-- `data_[put_pos_] = x` and the step of `put_pos_` to the next cell. -/
def put (s : LockedRing T) (x : T) : LockedRing T :=
  { s with ring := { s.ring with data := s.ring.data.set s.ring.putPos x,
                                 putPos := (s.ring.putPos + 1) % s.ring.capacity } }

/-- `push(const T &x)`, which has no `return` where it stores the element. -/
def push (s : LockedRing T) (x : T) : Except RingFault (Option Bool × LockedRing T) := do
  let s ← s.lock
  let n ← s.sizeInternal
  if s.ring.capacity ≤ n then .ok (some false, s.unlock)
  else .ok (none, (s.put x).unlock)

def pushMove (s : LockedRing T) (x : T) : Except RingFault (Bool × LockedRing T) := do
  let s ← s.lock
  let (n, s) ← s.size
  if s.ring.capacity ≤ n then .ok (false, s.unlock)
  else .ok (true, (s.put x).unlock)

/-- Both overloads return, with the same value, and the same elements are in the ring. -/
def SameResult [Inhabited T] (s : LockedRing T) (x : T) : Prop :=
  ∃ b s₁ s₂, s.push x = .ok (some b, s₁) ∧ s.pushMove x = .ok (b, s₂) ∧
    s₁.ring.contents = s₂.ring.contents

/-- Neither overload locks the mutex while it holds it. -/
def RelockFree (s : LockedRing T) (x : T) : Prop :=
  s.push x ≠ .error .deadlock ∧ s.pushMove x ≠ .error .deadlock

/-! ### What each call does -/

variable {s : LockedRing T}

theorem lock_ok (hfree : s.locked = false) : s.lock = .ok { s with locked := true } := by
  simp [lock, hfree]

theorem lock_locked (hheld : s.locked = true) : s.lock = .error .deadlock := by
  simp [lock, hheld]

/-- On a ring with cells `push(const T &)` does what the ring's `push` does, and frees the mutex. -/
theorem push_eq (hfree : s.locked = false) (hcells : s.ring.capacity ≠ 0) (x : T) :
    s.push x = .ok ((s.ring.push x).1, ⟨(s.ring.push x).2, false⟩) := by
  rw [push, lock_ok hfree, ok_bind, sizeInternal, if_neg hcells, ok_bind, RingBuffer.push]
  dsimp only
  split <;> rfl

/-- No ring refuses an element, so that `push(const T &)` never returns a value. -/
theorem push_returns_nothing (hfree : s.locked = false) (x : T) (b : Bool) (s' : LockedRing T) :
    s.push x ≠ .ok (some b, s') := by
  intro hpush
  by_cases hcells : s.ring.capacity = 0
  case pos =>
    rw [push, lock_ok hfree, ok_bind, sizeInternal, if_pos hcells] at hpush
    cases hpush
  case neg =>
    -- the remainder is below the capacity, in whichever cells the positions are
    have hlt : s.ring.sizeInternal < s.ring.capacity := Nat.mod_lt _ (Nat.pos_of_ne_zero hcells)
    rw [push_eq hfree hcells, RingBuffer.push, if_neg (not_le.mpr hlt)] at hpush
    cases hpush

theorem size_locked (hheld : s.locked = true) : s.size = .error .deadlock := by
  rw [size, lock_locked hheld, error_bind]

theorem pushMove_relocks (s : LockedRing T) (x : T) : s.pushMove x = .error .deadlock := by
  cases hheld : s.locked with
  | true => rw [pushMove, lock_locked hheld, error_bind]
  | false => rw [pushMove, lock_ok hheld, ok_bind, size_locked rfl, error_bind]

/-- The overloads are the same operation on no ring and for no element: neither returns a value
where it stores one, and one of them locks twice. -/
theorem pushes_differ [Inhabited T] (r : RingBuffer T) (x : T) :
    ¬ SameResult ⟨r, false⟩ x ∧ ¬ RelockFree ⟨r, false⟩ x := by
  constructor
  · rintro ⟨b, s₁, s₂, hpush, -, -⟩
    exact push_returns_nothing rfl x b s₁ hpush
  · rintro ⟨-, hmove⟩
    exact hmove (pushMove_relocks _ x)

/-- An empty ring of two cells. -/
theorem pushes_differ_empty : ¬ (SameResult ⟨.new ℕ 2, false⟩ 7 ∧ RelockFree ⟨.new ℕ 2, false⟩ 7) :=
  fun hsame => hsame.2.2 rfl

end LockedRing

end LpNet
