import LpNet.Lib.Transition
import Mathlib.Logic.Function.Basic

/-!
The classes `Fiber` and `FiberScheduler`.

Schedulers are known by their addresses, of any type, and fibers by their index in the list
of all that were constructed. A mutex that is locked by the thread that locks it again never
becomes free; `resume` does that, since it calls `yield`. Neither `submit` nor
`move2otherScheduler` sets `pFS_`. `tracks_iff` says which runs of calls keep track of the
running fiber. The contexts of the fibers, and what runs on them, are left out.
-/

namespace LpNet

open Transition

namespace FiberScheduler

def kInvalidFiberId : UInt32 := 4294967295

end FiberScheduler

inductive FiberStatus
  | ready
  | suspend
  | running
  | done
  deriving DecidableEq, Repr

structure Fiber (S : Type) where
  fid : UInt32
  status : FiberStatus
  pFS : Option S
  deriving DecidableEq, Repr

namespace Fiber

variable {S : Type}

def new (fid : UInt32) (pFS : Option S) : Fiber S := ⟨fid, .ready, pFS⟩

def resume (f : Fiber S) : Fiber S :=
  match f.status with
  | .ready | .suspend => { f with status := .running }
  | .running | .done => f

def yield (f : Fiber S) : Fiber S :=
  if f.status = .running then { f with status := .suspend } else f

end Fiber

/-- A scheduler. A fiber in `fibers_` is known by its index. -/
structure FiberScheduler where
  currFid : UInt32
  fibers : UInt32 → Option ℕ
  locked : Bool

inductive FiberFault
  /-- The mutex is held by the thread that locks it. -/
  | deadlock
  /-- There is no fiber behind a pointer. -/
  | badPointer
  deriving DecidableEq, Repr

/-- All schedulers, the fibers constructed so far, and `next_fid_`. -/
structure FiberWorld (S : Type) where
  schedulers : S → FiberScheduler
  objects : List (Fiber S)
  nextFid : UInt32

inductive FiberOp (S : Type)
  | submit (s : S) (pFiber : Option ℕ)
  | resume (s : S) (fid : UInt32)
  | yield (s : S)
  | remove (s : S) (fid : UInt32)
  | move2otherScheduler (s : S) (fid : UInt32) (pFS : Option S)

namespace FiberWorld

open FiberScheduler (kInvalidFiberId)

variable {S : Type} [DecidableEq S]

/-- Constructed schedulers, and fibers that were constructed with these arguments. -/
def new (made : List (UInt32 × Option S)) (nextFid : UInt32) : FiberWorld S where
  schedulers _ := ⟨kInvalidFiberId, fun _ => none, false⟩
  objects := made.map fun args => Fiber.new args.1 args.2
  nextFid := nextFid

def setScheduler (w : FiberWorld S) (s : S) (scheduler : FiberScheduler) : FiberWorld S :=
  { w with schedulers := Function.update w.schedulers s scheduler }

/-- The constructor of `Mutex::lock`. -/
def lock (w : FiberWorld S) (s : S) : Except FiberFault (FiberWorld S) :=
  if (w.schedulers s).locked then .error .deadlock
  else .ok (w.setScheduler s { w.schedulers s with locked := true })

def unlock (w : FiberWorld S) (s : S) : FiberWorld S :=
  w.setScheduler s { w.schedulers s with locked := false }

/-- Store or erase what is in `fibers_` under an id. -/
def setEntry (w : FiberWorld S) (s : S) (fid : UInt32) (entry : Option ℕ) : FiberWorld S :=
  w.setScheduler s
    { w.schedulers s with fibers := Function.update (w.schedulers s).fibers fid entry }

def setCurr (w : FiberWorld S) (s : S) (fid : UInt32) : FiberWorld S :=
  w.setScheduler s { w.schedulers s with currFid := fid }

/-- Call a member function of a fiber. -/
def withFiber (w : FiberWorld S) (f : ℕ) (member : Fiber S → Fiber S) : FiberWorld S :=
  { w with objects := w.objects.modify f member }

def fiberNew (w : FiberWorld S) (pFS : S) : ℕ × FiberWorld S :=
  (w.objects.length,
    { w with objects := w.objects ++ [.new w.nextFid (some pFS)], nextFid := w.nextFid + 1 })

/-- `submit(pFiber)`, for a fiber. -/
def submitFiber (w : FiberWorld S) (s : S) (f : ℕ) : Except FiberFault (FiberWorld S) :=
  match w.objects[f]? with
  | none => .error .badPointer
  | some fiber => do
      let w ← w.lock s
      .ok ((w.setEntry s fiber.fid (some f)).unlock s)

def submit (w : FiberWorld S) (s : S) (pFiber : Option ℕ) : Except FiberFault (FiberWorld S) :=
  match pFiber with
  | none =>
      let (f, w) := w.fiberNew s
      w.submitFiber s f
  | some f => w.submitFiber s f

def remove (w : FiberWorld S) (s : S) (fid : UInt32) :
    Except FiberFault (Bool × FiberWorld S) := do
  let w ← w.lock s
  match (w.schedulers s).fibers fid with
  | some _ => .ok (true, (w.setEntry s fid none).unlock s)
  | none => .ok (false, w.unlock s)

def move2otherScheduler (w : FiberWorld S) (s : S) (fid : UInt32) (pFS : Option S) :
    Except FiberFault (Bool × FiberWorld S) :=
  match pFS with
  | none => .ok (false, w)
  | some t =>
      if s = t then .ok (false, w)
      else do
        let w ← w.lock s
        match (w.schedulers s).fibers fid with
        | some f => do
            let w ← w.submit t (some f)
            .ok (true, (w.setEntry s fid none).unlock s)
        | none => .ok (false, w.unlock s)

def yield (w : FiberWorld S) (s : S) : Except FiberFault (FiberWorld S) := do
  let w ← w.lock s
  let curr := (w.schedulers s).currFid
  if curr = kInvalidFiberId then .ok (w.unlock s)
  else
    match (w.schedulers s).fibers curr with
    | some f => .ok (((w.withFiber f Fiber.yield).setCurr s kInvalidFiberId).unlock s)
    -- `operator[]` stores a null pointer
    | none => .error .badPointer

def resume (w : FiberWorld S) (s : S) (fid : UInt32) : Except FiberFault (FiberWorld S) := do
  let w ← w.lock s
  if (w.schedulers s).currFid = fid then .ok (w.unlock s)
  else
    match (w.schedulers s).fibers fid with
    | some f => do
        let w ← w.yield s
        .ok (((w.withFiber f Fiber.resume).setCurr s fid).unlock s)
    | none => .ok (w.unlock s)

/-- Perform a call and answer the `bool` it returns, if it does. -/
def fiberStep (w : FiberWorld S) : FiberOp S → Except FiberFault (Option Bool × FiberWorld S)
  | .submit s pFiber => do
      let w ← w.submit s pFiber
      .ok (none, w)
  | .resume s fid => do
      let w ← w.resume s fid
      .ok (none, w)
  | .yield s => do
      let w ← w.yield s
      .ok (none, w)
  | .remove s fid => do
      let (ok, w) ← w.remove s fid
      .ok (some ok, w)
  | .move2otherScheduler s fid pFS => do
      let (ok, w) ← w.move2otherScheduler s fid pFS
      .ok (some ok, w)

/-! ### Keeping track of the running fiber -/

/-- The scheduler has the fiber in its `fibers_` under this id. -/
def Stores (w : FiberWorld S) (s : S) (fid : UInt32) (f : ℕ) : Prop :=
  (w.schedulers s).fibers fid = some f

structure Tracks (w : FiberWorld S) : Prop where
  /-- `curr_fid_` is invalid or the id of a stored fiber. -/
  current : ∀ s, (w.schedulers s).currFid = kInvalidFiberId ∨
    ∃ f fiber, w.Stores s (w.schedulers s).currFid f ∧ w.objects[f]? = some fiber ∧
      fiber.fid = (w.schedulers s).currFid
  /-- It is the one of the scheduler that is running. -/
  running_iff : ∀ s fid f fiber, w.Stores s fid f → w.objects[f]? = some fiber →
    (fiber.status = .running ↔
      fid = (w.schedulers s).currFid ∧ (w.schedulers s).currFid ≠ kInvalidFiberId)
  /-- No fiber is stored in two schedulers. -/
  once : ∀ s t fid fid' f, w.Stores s fid f → w.Stores t fid' f → s = t
  /-- Each points to the scheduler it is stored in. -/
  owner : ∀ s fid f fiber, w.Stores s fid f → w.objects[f]? = some fiber → fiber.pFS = some s

/-- `resume` of another stored fiber returns, with the one that was running suspended and the other
one current. -/
def ResumesRight (w : FiberWorld S) : FiberOp S → Prop
  | .resume s fid => (∃ f, w.Stores s fid f) → fid ≠ (w.schedulers s).currFid →
      ∃ answer w', w.fiberStep (.resume s fid) = .ok (answer, w') ∧
        (w'.schedulers s).currFid = fid ∧
        ∀ g, w.Stores s (w.schedulers s).currFid g →
          (w.schedulers s).currFid ≠ kInvalidFiberId →
          ∃ fiber, w'.objects[g]? = some fiber ∧ fiber.status = .suspend
  | _ => True

/-- The call is none that resumes a stored fiber which is not current, moves one, or submits one
that was made for another scheduler. -/
def Harmless (w : FiberWorld S) : FiberOp S → Prop
  | .submit s (some f) => ∀ fiber, w.objects[f]? = some fiber → fiber.pFS = some s
  | .resume s fid => fid = (w.schedulers s).currFid ∨ ∀ f, ¬ w.Stores s fid f
  | .move2otherScheduler s fid pFS => pFS = none ∨ pFS = some s ∨ ∀ f, ¬ w.Stores s fid f
  | .submit _ none | .yield _ | .remove .. => True

/-! ### What the calls do to unlocked schedulers -/

variable {w w' : FiberWorld S} {s t : S} {fid : UInt32} {f : ℕ} {fiber : Fiber S}
variable {op : FiberOp S} {answer : Option Bool} {scheduler scheduler' : FiberScheduler}

theorem schedulers_setScheduler (w : FiberWorld S) (s t : S) (scheduler : FiberScheduler) :
    (w.setScheduler s scheduler).schedulers t = if t = s then scheduler else w.schedulers t :=
  Function.update_apply ..

@[simp] theorem schedulers_setScheduler_self :
    (w.setScheduler s scheduler).schedulers s = scheduler := Function.update_self ..

@[simp] theorem setScheduler_setScheduler :
    (w.setScheduler s scheduler).setScheduler s scheduler' = w.setScheduler s scheduler' := by
  simp [setScheduler]

@[simp] theorem setScheduler_self : w.setScheduler s (w.schedulers s) = w := by
  simp [setScheduler]

theorem stores_setEntry (w : FiberWorld S) (s : S) (fid : UInt32) (f : ℕ) :
    (w.setEntry s fid (some f)).Stores s fid f := by
  simp [Stores, setEntry]

theorem lock_ok (hfree : (w.schedulers s).locked = false) :
    w.lock s = .ok (w.setScheduler s { w.schedulers s with locked := true }) := by
  simp [lock, hfree]

theorem unlock_locked (hfree : (w.schedulers s).locked = false) :
    (w.setScheduler s { w.schedulers s with locked := true }).unlock s = w := by
  have hsame : { w.schedulers s with locked := false } = w.schedulers s := by rw [← hfree]
  simp only [unlock, schedulers_setScheduler_self, setScheduler_setScheduler, hsame,
    setScheduler_self]

theorem setEntry_locked (hfree : (w.schedulers s).locked = false) (fid : UInt32)
    (entry : Option ℕ) :
    ((w.setScheduler s { w.schedulers s with locked := true }).setEntry s fid entry).unlock s =
      w.setEntry s fid entry := by
  simp only [unlock, setEntry, schedulers_setScheduler_self, setScheduler_setScheduler, ← hfree]

theorem submitFiber_ok (hfree : (w.schedulers s).locked = false)
    (hf : w.objects[f]? = some fiber) :
    w.submitFiber s f = .ok (w.setEntry s fiber.fid (some f)) := by
  rw [submitFiber, hf]
  dsimp only
  rw [lock_ok hfree, ok_bind, setEntry_locked hfree]

theorem remove_ok (hfree : (w.schedulers s).locked = false) (fid : UInt32) :
    ∃ ok, w.remove s fid = .ok (ok, w.setEntry s fid none) := by
  rw [remove, lock_ok hfree, ok_bind, schedulers_setScheduler_self]
  cases hstored : (w.schedulers s).fibers fid with
  | some f => exact ⟨true, by simp only [setEntry_locked hfree]⟩
  | none =>
      have hsame : w.setEntry s fid none = w := by
        rw [setEntry, ← hstored, Function.update_eq_self, setScheduler_self]
      exact ⟨false, by simp only [unlock_locked hfree, hsame]⟩

theorem yield_ok (hfree : (w.schedulers s).locked = false)
    (hcurr : (w.schedulers s).currFid = kInvalidFiberId) : w.yield s = .ok w := by
  rw [yield, lock_ok hfree, ok_bind, schedulers_setScheduler_self]
  dsimp only
  rw [if_pos hcurr, unlock_locked hfree]

theorem resume_deadlock (hfree : (w.schedulers s).locked = false)
    (hne : fid ≠ (w.schedulers s).currFid) (hstored : w.Stores s fid f) :
    w.resume s fid = .error .deadlock := by
  rw [Stores] at hstored
  rw [resume, lock_ok hfree, ok_bind, schedulers_setScheduler_self]
  simp only [hne.symm, if_false, hstored]
  simp [yield, lock]

theorem resume_ok (hfree : (w.schedulers s).locked = false)
    (hsame : fid = (w.schedulers s).currFid ∨ ∀ f, ¬ w.Stores s fid f) :
    w.resume s fid = .ok w := by
  rw [resume, lock_ok hfree, ok_bind, schedulers_setScheduler_self]
  dsimp only
  split
  case isTrue => rw [unlock_locked hfree]
  case isFalse hne =>
    have hnone : (w.schedulers s).fibers fid = none :=
      Option.eq_none_iff_forall_ne_some.mpr (hsame.resolve_left (Ne.symm hne))
    simp only [hnone, unlock_locked hfree]

theorem move_refused (hfree : (w.schedulers s).locked = false) {pFS : Option S}
    (hrefused : pFS = none ∨ pFS = some s ∨ ∀ f, ¬ w.Stores s fid f) :
    w.move2otherScheduler s fid pFS = .ok (false, w) := by
  cases pFS with
  | none => rfl
  | some t =>
      rw [move2otherScheduler]
      split
      case isTrue => rfl
      case isFalse hne =>
        have hnone : (w.schedulers s).fibers fid = none := by
          refine Option.eq_none_iff_forall_ne_some.mpr ?_
          rcases hrefused with hnull | hsame | hstored
          · exact absurd hnull (Option.some_ne_none t)
          · exact absurd (Option.some.inj hsame).symm hne
          · exact hstored
        rw [lock_ok hfree, ok_bind, schedulers_setScheduler_self]
        simp only [hnone, unlock_locked hfree]

theorem move_ok (hfree : (w.schedulers s).locked = false)
    (hfree' : (w.schedulers t).locked = false) (hne : s ≠ t) (hstored : w.Stores s fid f)
    (hf : w.objects[f]? = some fiber) :
    w.move2otherScheduler s fid (some t) =
      .ok (true, (w.setEntry t fiber.fid (some f)).setEntry s fid none) := by
  rw [Stores] at hstored
  rw [move2otherScheduler, if_neg hne, lock_ok hfree, ok_bind, schedulers_setScheduler_self]
  simp only [hstored]
  set held := w.setScheduler s { w.schedulers s with locked := true } with hheld
  have htarget : held.schedulers t = w.schedulers t := by
    rw [hheld, schedulers_setScheduler, if_neg hne.symm]
  have hsubmit : held.submit t (some f) = .ok (held.setEntry t fiber.fid (some f)) :=
    submitFiber_ok (by rw [htarget, hfree']) hf
  rw [hsubmit, ok_bind]
  -- the entry in `t` and the lock of `s` lie in different schedulers
  have hcomm : held.setEntry t fiber.fid (some f) =
      (w.setEntry t fiber.fid (some f)).setScheduler s { w.schedulers s with locked := true } := by
    rw [setEntry, htarget, hheld, setEntry]
    simp only [setScheduler, Function.update_comm hne]
  have hsource : (w.setEntry t fiber.fid (some f)).schedulers s = w.schedulers s := by
    rw [setEntry, schedulers_setScheduler, if_neg hne]
  rw [hcomm, ← hsource, setEntry_locked (by rw [hsource, hfree])]

theorem move_stores (hfree : (w.schedulers s).locked = false)
    (hfree' : (w.schedulers t).locked = false) (hne : s ≠ t) (hstored : w.Stores s fid f)
    (hf : w.objects[f]? = some fiber) :
    ∃ w', w.move2otherScheduler s fid (some t) = .ok (true, w') ∧ w'.objects = w.objects ∧
      w'.Stores t fiber.fid f := by
  refine ⟨_, move_ok hfree hfree' hne hstored hf, rfl, ?_⟩
  simp only [Stores, setEntry, schedulers_setScheduler, if_neg hne.symm, if_true,
    Function.update_self]

/-! ### Runs in which no fiber ever runs -/

/-- No scheduler has a current fiber, none is locked, and the stored fibers belong to it. -/
structure Quiet (w : FiberWorld S) : Prop where
  current : ∀ s, (w.schedulers s).currFid = kInvalidFiberId
  unlocked : ∀ s, (w.schedulers s).locked = false
  ready : ∀ fiber ∈ w.objects, fiber.status = .ready
  stored : ∀ s fid f, w.Stores s fid f →
    ∃ fiber, w.objects[f]? = some fiber ∧ fiber.fid = fid ∧ fiber.pFS = some s

omit [DecidableEq S] in
theorem Quiet.owner (h : w.Quiet) (hstored : w.Stores s fid f)
    (hf : w.objects[f]? = some fiber) : fiber.pFS = some s := by
  obtain ⟨fiber', hf', -, howner⟩ := h.stored s fid f hstored
  cases hf.symm.trans hf'
  exact howner

omit [DecidableEq S] in
theorem Quiet.tracks (h : w.Quiet) : w.Tracks where
  current s := .inl (h.current s)
  running_iff s fid f fiber _ hf := by
    refine iff_of_false (fun hrunning => ?_) fun hcurr => hcurr.2 (h.current s)
    rw [h.ready fiber (List.mem_of_getElem? hf)] at hrunning
    cases hrunning
  once s t fid fid' f hs ht := by
    obtain ⟨fiber, hf, -, howner⟩ := h.stored s fid f hs
    exact Option.some.inj (howner.symm.trans (h.owner ht hf))
  owner _ _ _ _ := h.owner

omit [DecidableEq S] in
theorem new_quiet (made : List (UInt32 × Option S)) (nextFid : UInt32) :
    (new made nextFid).Quiet where
  current _ := rfl
  unlocked _ := rfl
  ready fiber hfiber := by
    obtain ⟨args, -, rfl⟩ := List.mem_map.mp hfiber
    rfl
  stored _ _ _ hstored := by cases hstored

theorem Quiet.setEntry (h : w.Quiet) {entry : Option ℕ} (hentry : ∀ f, entry = some f →
      ∃ fiber, w.objects[f]? = some fiber ∧ fiber.fid = fid ∧ fiber.pFS = some s) :
    (w.setEntry s fid entry).Quiet where
  current t := by
    rw [FiberWorld.setEntry, schedulers_setScheduler]
    split <;> exact h.current _
  unlocked t := by
    rw [FiberWorld.setEntry, schedulers_setScheduler]
    split <;> exact h.unlocked _
  ready := h.ready
  stored t fid' f hstored := by
    rw [Stores, FiberWorld.setEntry, schedulers_setScheduler] at hstored
    split at hstored
    case isFalse => exact h.stored t fid' f hstored
    case isTrue hts =>
      subst hts
      by_cases hfid : fid' = fid
      case pos =>
        subst hfid
        dsimp only at hstored
        rw [Function.update_self] at hstored
        exact hentry f hstored
      case neg =>
        dsimp only at hstored
        rw [Function.update_of_ne hfid] at hstored
        exact h.stored t fid' f hstored

omit [DecidableEq S] in
theorem Quiet.fiberNew (h : w.Quiet) (s : S) :
    (w.fiberNew s).2.Quiet ∧
      (w.fiberNew s).2.objects[(w.fiberNew s).1]? = some (.new w.nextFid (some s)) := by
  refine ⟨⟨h.current, h.unlocked, fun fiber hfiber => ?_, fun t fid f hstored => ?_⟩, ?_⟩
  · rcases List.mem_append.mp hfiber with hfiber | hfiber
    · exact h.ready fiber hfiber
    · rw [List.mem_singleton.mp hfiber]
      rfl
  · obtain ⟨fiber, hf, hrest⟩ := h.stored t fid f hstored
    obtain ⟨hlt, -⟩ := List.getElem?_eq_some_iff.mp hf
    exact ⟨fiber, (List.getElem?_append_left hlt).trans hf, hrest⟩
  · exact List.getElem?_concat_length

theorem Quiet.submit (h : w.Quiet) {pFiber : Option ℕ} (hop : w.Harmless (.submit s pFiber))
    (hsubmit : w.submit s pFiber = .ok w') : w'.Quiet := by
  cases pFiber with
  | none =>
      obtain ⟨hnew, hf⟩ := h.fiberNew s
      have hw' := (submitFiber_ok (hnew.unlocked s) hf).symm.trans hsubmit
      cases hw'
      refine hnew.setEntry fun f hf' => ?_
      cases hf'
      exact ⟨_, hf, rfl, rfl⟩
  | some f =>
      cases hf : w.objects[f]? with
      | none =>
          rw [FiberWorld.submit, submitFiber, hf] at hsubmit
          cases hsubmit
      | some fiber =>
          rw [FiberWorld.submit, submitFiber_ok (h.unlocked s) hf] at hsubmit
          cases hsubmit
          refine h.setEntry fun f' hf' => ?_
          cases hf'
          exact ⟨fiber, hf, rfl, hop fiber hf⟩

theorem Quiet.step (h : w.Quiet) (hop : w.Harmless op) (hstep : w.fiberStep op = .ok (answer, w')) :
    w'.Quiet := by
  cases op with
  | submit s pFiber =>
      rw [fiberStep, bind_eq_ok] at hstep
      obtain ⟨w₁, hsubmit, hstep⟩ := hstep
      cases hstep
      exact h.submit hop hsubmit
  | resume s fid =>
      rw [fiberStep, resume_ok (h.unlocked s) hop, ok_bind] at hstep
      cases hstep
      exact h
  | yield s =>
      rw [fiberStep, yield_ok (h.unlocked s) (h.current s), ok_bind] at hstep
      cases hstep
      exact h
  | remove s fid =>
      obtain ⟨ok, hremove⟩ := remove_ok (h.unlocked s) fid
      rw [fiberStep, hremove, ok_bind] at hstep
      cases hstep
      exact h.setEntry fun f hf => by cases hf
  | move2otherScheduler s fid pFS =>
      rw [fiberStep, move_refused (h.unlocked s) hop, ok_bind] at hstep
      cases hstep
      exact h

theorem Quiet.resumesRight (hop : w.Harmless op) : w.ResumesRight op := by
  cases op with
  | resume s fid =>
      rintro ⟨f, hstored⟩ hne
      exact absurd hstored (hop.resolve_left hne f)
  | submit s pFiber | yield s | remove s fid | move2otherScheduler s fid pFS => exact trivial

/-- Any other call leaves a fiber in a scheduler that it does not point to, or does not return. -/
theorem Quiet.harmful (h : w.Quiet) (hop : ¬ w.Harmless op) :
    ¬ w.ResumesRight op ∨ ∃ answer w', w.fiberStep op = .ok (answer, w') ∧ ¬ w'.Tracks := by
  cases op with
  | submit s pFiber =>
      cases pFiber with
      | none => exact absurd trivial hop
      | some f =>
          obtain ⟨fiber, hfiber⟩ := not_forall.mp hop
          obtain ⟨hf, howner⟩ := Classical.not_imp.mp hfiber
          refine .inr ⟨none, w.setEntry s fiber.fid (some f), ?_, fun htracks => howner ?_⟩
          · rw [fiberStep, FiberWorld.submit, submitFiber_ok (h.unlocked s) hf, ok_bind]
          · exact htracks.owner s fiber.fid f fiber (stores_setEntry w s fiber.fid f) hf
  | resume s fid =>
      obtain ⟨hne, hstored⟩ := not_or.mp hop
      obtain ⟨f, hf⟩ := not_forall.mp hstored
      have hstores : w.Stores s fid f := not_not.mp hf
      refine .inl fun hright => ?_
      obtain ⟨answer, w', hstep, -⟩ := hright ⟨f, hstores⟩ hne
      rw [fiberStep, resume_deadlock (h.unlocked s) hne hstores, error_bind] at hstep
      cases hstep
  | yield s => exact absurd trivial hop
  | remove s fid => exact absurd trivial hop
  | move2otherScheduler s fid pFS =>
      obtain ⟨hnull, hrest⟩ := not_or.mp hop
      obtain ⟨hself, hstored⟩ := not_or.mp hrest
      obtain ⟨f, hf⟩ := not_forall.mp hstored
      obtain ⟨t, rfl⟩ := Option.ne_none_iff_exists'.mp hnull
      have hne : s ≠ t := fun heq => hself (heq ▸ rfl)
      obtain ⟨fiber, hfiber, -, howner⟩ := h.stored s fid f (not_not.mp hf)
      obtain ⟨w', hmove, hobjects, hstores⟩ :=
        move_stores (h.unlocked s) (h.unlocked t) hne (not_not.mp hf) hfiber
      refine .inr ⟨some true, w', by rw [fiberStep, hmove, ok_bind], fun htracks => hne ?_⟩
      have howner' := htracks.owner t fiber.fid f fiber hstores (hobjects ▸ hfiber)
      exact Option.some.inj (howner.symm.trans howner')

/-- In a run from constructed schedulers the running fiber is kept track of, and every `resume` is
right, exactly when all calls are harmless. -/
theorem tracks_iff (made : List (UInt32 × Option S)) (nextFid : UInt32) (ops : List (FiberOp S)) :
    AlongStates fiberStep Tracks (new made nextFid) ops ∧
        Along fiberStep ResumesRight (new made nextFid) ops ↔
      Along fiberStep Harmless (new made nextFid) ops :=
  right_iff_along (fun _ _ _ _ h hop hstep => h.step hop hstep)
    (fun _ _ _ hop => Quiet.resumesRight hop) (fun _ _ h hop => h.harmful hop)
    (fun _ h => h.tracks) (new_quiet made nextFid)

/-- The first fiber of a scheduler is resumed, or moved to another scheduler. -/
theorem first_fiber_not_tracked :
    ¬ (AlongStates fiberStep Tracks (new [] 0) [.submit false none, .resume false 0] ∧
        Along fiberStep ResumesRight (new [] 0) [.submit false none, .resume false 0]) ∧
      ¬ AlongStates fiberStep Tracks (new [] 0)
        [.submit false none, .move2otherScheduler false 0 (some true)] := by
  constructor
  · rintro ⟨-, hright⟩
    have hresume := (hright.2 none _ rfl).1
    obtain ⟨answer, w', hstep, -⟩ := hresume ⟨0, rfl⟩ (by decide)
    cases hstep
  · intro htracks
    have hmoved := (htracks.2 none _ rfl).2 (some true) _ rfl
    have howner := hmoved.owner true 0 0 ⟨0, .ready, some false⟩ rfl rfl
    cases howner

end FiberWorld

end LpNet
