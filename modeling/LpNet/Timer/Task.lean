import LpNet.Memory

/-!
`struct TimerTask`, and the interface `TimerTaskBase` that the two timer back
ends implement.

A callback is a value of an arbitrary type. Every member function that reads the
clock gets the reading `now` as an argument.
-/

namespace LpNet

structure TimerTask (Cb : Type) where
  duration : ℕ
  expiredTime : ℕ
  cycled : Bool
  callback : Option Cb
  id : ℕ
  deriving DecidableEq, Repr

/-- A value-initialized task, as `std::vector::resize` makes them. -/
instance {Cb : Type} : Inhabited (TimerTask Cb) := ⟨⟨0, 0, false, none, 0⟩⟩

namespace TimerTask

variable {Cb : Type}

/-- The constructor, given the clock and the value of `curr_timer_id`. -/
def new (callback : Option Cb) (duration : ℕ) (cycled : Bool) (now currTimerId : ℕ) :
    TimerTask Cb :=
  ⟨duration, SizeT.add now duration, cycled, callback, currTimerId⟩

def isExpired (task : TimerTask Cb) (now : ℕ) : Bool := task.expiredTime ≤ now

def setExpiredTime (task : TimerTask Cb) (now duration : ℕ) : TimerTask Cb :=
  { task with duration := duration, expiredTime := SizeT.add now duration }

def setCycle (task : TimerTask Cb) (cycled : Bool) : TimerTask Cb := { task with cycled := cycled }

/-- `operator()`: the callback it calls, if any. -/
def fire (task : TimerTask Cb) (now : ℕ) : Option Cb :=
  if task.isExpired now then task.callback else none

end TimerTask

/-- A call of `TimerTaskBase`, with the reading of the clock where the call takes one. -/
inductive TimerOp (Cb : Type)
  | add (task : TimerTask Cb)
  | remove (id : ℕ)
  | modify (id duration : ℕ) (cycled : Bool) (now : ℕ)
  | pop
  | popTask (now : ℕ)

/-- What a call returns: an id, a boolean, or for `pop(task)` the task stored on true. -/
inductive TimerResult (Cb : Type)
  | added (id : ℕ)
  | done (ok : Bool)
  | popped (task : Option (TimerTask Cb))
  deriving DecidableEq, Repr

/-- What is observed of a call: its result, and afterwards `size()` and, unless that is 0,
`top()`. -/
structure TimerAnswer (Cb : Type) where
  result : TimerResult Cb
  size : ℕ
  top : Option (TimerTask Cb)
  deriving DecidableEq, Repr

end LpNet
