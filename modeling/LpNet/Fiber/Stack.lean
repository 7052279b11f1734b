import LpNet.Lib.Copy
import LpNet.Lib.Transition
import LpNet.Memory
import Mathlib.Logic.Function.Basic

/-!
The stack that the fibers of a scheduler share.

`main_stack_` grows down from its end, and the address of a local variable says how many bytes of
it are in use. `saveStack` copies these to the fiber's own buffer, which it replaces by a larger one
when it is too small and never by a smaller one, so that the bytes after `buf_size_` may be those
of an earlier save. Other fibers and the running code change the stack between a save and
the load; `stack_lossless` is about all runs with any such changes.
-/

namespace LpNet

open Copy Transition

def kFiberBufferSize : ℕ := 128 * 1024

abbrev MainStack := { bytes : List Byte // bytes.length = kFiberBufferSize }

/-- The buffer of a fiber, empty where `buffer_` is null. -/
structure FiberBuffer where
  buffer : List Byte
  bufSize : ℕ
  bufCap : ℕ
  deriving DecidableEq, Repr

/-- `memcpy` to the start of an array. -/
def copyToStart (dst src : List Byte) : Except Fault (List Byte) :=
  if src.length ≤ dst.length then .ok (overwrite dst 0 src) else .error .outOfBounds

namespace FiberBuffer

def new : FiberBuffer := ⟨[], 0, 0⟩

/-- `saveStack()` with `used` bytes between `&dummy` and the bottom of the stack. Answers the
copied bytes, too. -/
def saveStack (b : FiberBuffer) (mainStack : List Byte) (used : ℕ) (junk : ℕ → Byte) :
    Except Fault (List Byte × FiberBuffer) :=
  if used ≤ kFiberBufferSize then do
    let b := if b.bufCap < used then { b with buffer := newChars junk used, bufCap := used } else b
    let bytes := slice mainStack (kFiberBufferSize - used) used
    let buffer ← copyToStart b.buffer bytes
    .ok (bytes, { b with buffer := buffer, bufSize := used })
  -- the assertion fails, and the bytes would start below `main_stack_`
  else .error .outOfBounds

/-- `loadStack()`. Answers the copied bytes and the stack. -/
def loadStack (b : FiberBuffer) (mainStack : List Byte) :
    Except Fault (List Byte × List Byte) :=
  if b.bufSize ≤ b.buffer.length ∧ b.bufSize ≤ kFiberBufferSize then
    let bytes := slice b.buffer 0 b.bufSize
    .ok (bytes, overwrite mainStack (kFiberBufferSize - b.bufSize) bytes)
  else .error .outOfBounds

end FiberBuffer

/-- A scheduler's stack and the buffers of its fibers. -/
structure StackWorld (ι : Type) where
  mainStack : List Byte
  buffers : ι → FiberBuffer

inductive StackOp (ι : Type)
  /-- `saveStack()` of a fiber, with what a new buffer holds. -/
  | save (fiber : ι) (used : ℕ) (junk : ℕ → Byte)
  | load (fiber : ι)
  /-- The code that runs on the stack writes to it. -/
  | change (stack : MainStack)

namespace StackWorld

variable {ι : Type} [DecidableEq ι]

def new (stack : MainStack) : StackWorld ι := ⟨stack, fun _ => .new⟩

/-- Perform a call and answer the bytes that it copies. -/
def stackStep (w : StackWorld ι) : StackOp ι → Except Fault (List Byte × StackWorld ι)
  | .save fiber used junk => do
      let (bytes, buffer) ← (w.buffers fiber).saveStack w.mainStack used junk
      .ok (bytes, { w with buffers := Function.update w.buffers fiber buffer })
  | .load fiber => do
      let (bytes, mainStack) ← (w.buffers fiber).loadStack w.mainStack
      .ok (bytes, { w with mainStack := mainStack })
  | .change stack => .ok ([], { w with mainStack := stack })

/-- No more bytes are in use than the stack has. -/
def Fits : StackOp ι → Prop
  | .save _ used _ => used ≤ kFiberBufferSize
  | .load _ | .change _ => True

/-- The calls do not save the stack of this fiber. -/
def Unsaved (fiber : ι) (ops : List (StackOp ι)) : Prop :=
  ∀ op ∈ ops, ∀ used junk, op ≠ .save fiber used junk

/-- What holds after the calls `ops` on a stack and fibers that were just constructed. -/
structure Lossless (stack : MainStack) (ops : List (StackOp ι)) (w : StackWorld ι) : Prop where
  /-- The last save of each fiber ended inside of its buffer. -/
  bounded : ∀ fiber, (w.buffers fiber).bufSize ≤ (w.buffers fiber).bufCap ∧
    (w.buffers fiber).buffer.length = (w.buffers fiber).bufCap
  /-- The bytes that the last save of a fiber copied come back to where they were. -/
  restores : ∀ before fiber used junk between, ops = before ++ .save fiber used junk :: between →
    Unsaved fiber between → ∃ answers w₁ w₂ w', run stackStep (new stack) before = .ok (answers, w₁) ∧
      stackStep w₁ (.save fiber used junk) =
        .ok (w₁.mainStack.drop (kFiberBufferSize - used), w₂) ∧
      stackStep w (.load fiber) = .ok (w₁.mainStack.drop (kFiberBufferSize - used), w') ∧
      w'.mainStack = w.mainStack.take (kFiberBufferSize - used) ++
        w₁.mainStack.drop (kFiberBufferSize - used)
  /-- Without a save there is nothing to bring back. -/
  untouched : ∀ fiber, Unsaved fiber ops → stackStep w (.load fiber) = .ok ([], w)

/-! ### The buffers -/

variable {w w' : StackWorld ι} {op : StackOp ι} {fiber : ι} {used : ℕ} {answer : List Byte}
variable {b : FiberBuffer} {mainStack : List Byte}

/-- A buffer of `buf_cap_` bytes, of which the first `buf_size_` fit on the stack. -/
structure Sized (b : FiberBuffer) : Prop where
  length_eq : b.buffer.length = b.bufCap
  size_le : b.bufSize ≤ b.bufCap
  size_le_stack : b.bufSize ≤ kFiberBufferSize

theorem sized_new : Sized .new := ⟨rfl, Nat.le_refl _, Nat.zero_le _⟩

def saved (b : FiberBuffer) : List Byte := slice b.buffer 0 b.bufSize

theorem Sized.saved_length (hb : Sized b) : (saved b).length = b.bufSize := by
  have hsize := hb.size_le
  have hlength := hb.length_eq
  exact slice_length (by omega)

theorem copyToStart_ok {dst src : List Byte} (h : src.length ≤ dst.length) :
    copyToStart dst src = .ok (overwrite dst 0 src) := if_pos h

/-- A save fits in the buffer, old or new, and is found at its start. -/
theorem saveStack_spec (hb : Sized b) (hstack : mainStack.length = kFiberBufferSize)
    (hused : used ≤ kFiberBufferSize) (junk : ℕ → Byte) :
    ∃ b', b.saveStack mainStack used junk =
        .ok (mainStack.drop (kFiberBufferSize - used), b') ∧
      Sized b' ∧ saved b' = mainStack.drop (kFiberBufferSize - used) := by
  have hbytes : slice mainStack (kFiberBufferSize - used) used =
      mainStack.drop (kFiberBufferSize - used) := slice_to_end (by omega)
  have hlength : (mainStack.drop (kFiberBufferSize - used)).length = used := by
    rw [List.length_drop]
    omega
  rw [FiberBuffer.saveStack, if_pos hused, hbytes]
  dsimp only
  generalize hroom : (if b.bufCap < used then
    { b with buffer := newChars junk used, bufCap := used } else b) = c
  have hc : c.buffer.length = c.bufCap ∧ used ≤ c.bufCap := by
    rw [← hroom]
    split
    case isTrue => exact ⟨newChars_length junk used, Nat.le_refl used⟩
    case isFalse hcap => exact ⟨hb.length_eq, not_lt.mp hcap⟩
  obtain ⟨hcap, hle⟩ := hc
  rw [copyToStart_ok (by omega), ok_bind]
  have hover : (overwrite c.buffer 0 (mainStack.drop (kFiberBufferSize - used))).length =
      c.buffer.length := overwrite_length (by omega)
  refine ⟨_, rfl, ⟨hover.trans hcap, hle, hused⟩, ?_⟩
  have hback : slice (overwrite c.buffer 0 (mainStack.drop (kFiberBufferSize - used))) 0
      (mainStack.drop (kFiberBufferSize - used)).length =
        mainStack.drop (kFiberBufferSize - used) := slice_overwrite (Nat.zero_le _)
  rw [hlength] at hback
  exact hback

theorem loadStack_ok (hb : Sized b) (mainStack : List Byte) : b.loadStack mainStack =
    .ok (saved b, overwrite mainStack (kFiberBufferSize - b.bufSize) (saved b)) := by
  have hsize := hb.size_le
  have hlength := hb.length_eq
  exact if_pos ⟨by omega, hb.size_le_stack⟩

/-! ### One call -/

/-- The array keeps its length, and so does every buffer its `buf_cap_`. -/
structure Wf (w : StackWorld ι) : Prop where
  stack_length : w.mainStack.length = kFiberBufferSize
  sized : ∀ fiber, Sized (w.buffers fiber)

omit [DecidableEq ι] in
theorem wf_new (stack : MainStack) : Wf (new stack : StackWorld ι) where
  stack_length := stack.2
  sized _ := sized_new

theorem Wf.save (hw : Wf w) (fiber : ι) (hused : used ≤ kFiberBufferSize) (junk : ℕ → Byte) :
    ∃ w', stackStep w (.save fiber used junk) =
        .ok (w.mainStack.drop (kFiberBufferSize - used), w') ∧
      Wf w' ∧ saved (w'.buffers fiber) = w.mainStack.drop (kFiberBufferSize - used) := by
  obtain ⟨b', hsave, hb', hsaved⟩ :=
    saveStack_spec (hw.sized fiber) hw.stack_length hused junk
  refine ⟨{ w with buffers := Function.update w.buffers fiber b' }, ?_, ⟨hw.stack_length, ?_⟩, ?_⟩
  · rw [stackStep, hsave, ok_bind]
  · intro other
    by_cases hother : other = fiber
    case pos =>
      subst hother
      simpa using hb'
    case neg => simpa [Function.update_of_ne hother] using hw.sized other
  · simpa using hsaved

theorem Wf.load (hw : Wf w) (fiber : ι) :
    ∃ w', stackStep w (.load fiber) = .ok (saved (w.buffers fiber), w') ∧ Wf w' ∧
      w'.mainStack = w.mainStack.take (kFiberBufferSize - (saved (w.buffers fiber)).length) ++
        saved (w.buffers fiber) := by
  have hlength := (hw.sized fiber).saved_length
  have hsize := (hw.sized fiber).size_le_stack
  have hstack := hw.stack_length
  refine ⟨⟨overwrite w.mainStack (kFiberBufferSize - (w.buffers fiber).bufSize)
    (saved (w.buffers fiber)), w.buffers⟩, ?_, ⟨?_, hw.sized⟩, ?_⟩
  · rw [stackStep, loadStack_ok (hw.sized fiber), ok_bind]
  · exact (overwrite_length (by omega)).trans hstack
  · rw [hlength]
    exact overwrite_to_end (by omega)

/-- A fiber that has saved nothing changes nothing. -/
theorem load_new (hnew : w.buffers fiber = .new) :
    stackStep w (.load fiber) = .ok ([], w) := by
  have hsaved : saved .new = [] := rfl
  rw [stackStep, hnew, loadStack_ok sized_new, ok_bind, hsaved, overwrite_nil]

theorem Wf.step_total (hw : Wf w) (hfits : Fits op) :
    ∃ answer w', stackStep w op = .ok (answer, w') ∧ Wf w' := by
  cases op with
  | save fiber used junk =>
      obtain ⟨w', hstep, hw', -⟩ := hw.save fiber hfits junk
      exact ⟨_, w', hstep, hw'⟩
  | load fiber =>
      obtain ⟨w', hstep, hw', -⟩ := hw.load fiber
      exact ⟨_, w', hstep, hw'⟩
  | change stack => exact ⟨_, _, rfl, stack.2, hw.sized⟩

theorem buffers_step (hstep : stackStep w op = .ok (answer, w'))
    (hunsaved : ∀ used junk, op ≠ .save fiber used junk) :
    w'.buffers fiber = w.buffers fiber := by
  cases op with
  | save other used junk =>
      have hne : fiber ≠ other := fun heq => hunsaved used junk (by rw [heq])
      obtain ⟨⟨bytes, buffer⟩, -, hok⟩ := bind_eq_ok.mp hstep
      cases hok
      exact Function.update_of_ne hne ..
  | load other =>
      obtain ⟨⟨bytes, mainStack⟩, -, hok⟩ := bind_eq_ok.mp hstep
      cases hok
      rfl
  | change stack =>
      cases hstep
      rfl

/-! ### Runs -/

variable {ops : List (StackOp ι)} {answers : List (List Byte)}

theorem Wf.run_total (hw : Wf w) (hfits : ∀ op ∈ ops, Fits op) :
    ∃ answers w', run stackStep w ops = .ok (answers, w') ∧ Wf w' :=
  Transition.run_total (fun _ _ hw hfits => hw.step_total hfits) hw (along_of_forall_mem hfits)

theorem Wf.of_run (hw : Wf w) (hfits : ∀ op ∈ ops, Fits op)
    (hrun : run stackStep w ops = .ok (answers, w')) : Wf w' := by
  obtain ⟨answers', w₁, hrun', hw₁⟩ := hw.run_total hfits
  rw [hrun] at hrun'
  cases hrun'
  exact hw₁

theorem buffers_run (hunsaved : Unsaved fiber ops)
    (hrun : run stackStep w ops = .ok (answers, w')) : w'.buffers fiber = w.buffers fiber :=
  inv_of_run (I := fun v => v.buffers fiber = w.buffers fiber)
    (fun _ _ _ _ hv hne hstep => (buffers_step hstep hne).trans hv) rfl
    (along_of_forall_mem hunsaved) hrun

theorem Wf.run_save (hw : Wf w) {between : List (StackOp ι)} {junk : ℕ → Byte}
    (hused : used ≤ kFiberBufferSize) (hunsaved : Unsaved fiber between)
    (hrun : run stackStep w (.save fiber used junk :: between) = .ok (answers, w')) :
    ∃ w₂, stackStep w (.save fiber used junk) =
        .ok (w.mainStack.drop (kFiberBufferSize - used), w₂) ∧
      saved (w'.buffers fiber) = w.mainStack.drop (kFiberBufferSize - used) := by
  obtain ⟨w₂, hsave, -, hsaved⟩ := hw.save fiber hused junk
  refine ⟨w₂, hsave, ?_⟩
  obtain ⟨answer, answers₂, w₃, hstep, hrest, -⟩ := run_cons_eq_ok hrun
  rw [hsave] at hstep
  cases hstep
  rw [buffers_run hunsaved hrest, hsaved]

/-- No run with saves of at most the whole stack faults, and after it a load brings back, at the
same place, what the last save of the fiber copied. -/
theorem stack_lossless (stack : MainStack) (ops : List (StackOp ι)) (hfits : ∀ op ∈ ops, Fits op) :
    ∃ answers w, run stackStep (new stack) ops = .ok (answers, w) ∧ Lossless stack ops w := by
  obtain ⟨answers, w, hrun, hw⟩ := (wf_new stack).run_total hfits
  refine ⟨answers, w, hrun, fun fiber => ?_, ?_, fun fiber hunsaved => ?_⟩
  · exact ⟨(hw.sized fiber).size_le, (hw.sized fiber).length_eq⟩
  · rintro before fiber used junk between rfl hunsaved
    have hused : used ≤ kFiberBufferSize := hfits (.save fiber used junk) (by simp)
    have hbefore : ∀ op ∈ before, Fits op := fun op hop => hfits op (by simp [hop])
    obtain ⟨answers₁, answers₂, w₁, hrun₁, hrun₂⟩ := run_append_eq_ok hrun
    have hw₁ : Wf w₁ := (wf_new stack).of_run hbefore hrun₁
    obtain ⟨w₂, hsave, hsaved⟩ := hw₁.run_save hused hunsaved hrun₂
    obtain ⟨w', hload, -, hstack⟩ := hw.load fiber
    have hlength : (w₁.mainStack.drop (kFiberBufferSize - used)).length = used := by
      rw [List.length_drop, hw₁.stack_length]
      omega
    rw [hsaved] at hload hstack
    rw [hlength] at hstack
    exact ⟨answers₁, w₁, w₂, w', hrun₁, hsave, hload, hstack⟩
  · exact load_new (buffers_run hunsaved hrun)

def zeroStack : MainStack := ⟨List.replicate kFiberBufferSize 0, List.length_replicate⟩

/-- Two fibers that use one byte and two bytes. -/
def twoFibers : List (StackOp ℕ) := [.save 0 1 fun _ => 0, .save 1 2 fun _ => 0, .load 0]

theorem stack_lossless_two :
    ∃ answers w, run stackStep (new zeroStack) twoFibers = .ok (answers, w) ∧
      Lossless zeroStack twoFibers w :=
  stack_lossless zeroStack twoFibers (by simp [twoFibers, Fits, kFiberBufferSize])

end StackWorld

end LpNet
