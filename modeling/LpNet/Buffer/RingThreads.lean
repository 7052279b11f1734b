import LpNet.Buffer.RingBuffer
import LpNet.Lib.Transition

/-!
A `RingBuffer<T>` that threads push to while another one pops.

`push` holds the mutex, `pop` does not: the thread that pops goes on between any two accesses of a
push, as `handleTriggerEvent` does while other threads add events. Any number of threads
push, one pops. `runs_exact_iff` says that what is popped and what is still held are what was
pushed, in order, in every state of a run exactly when no push fills the last cell; as long as that
is so no cell is read that is being stored.
-/

namespace LpNet

open Cyclic Transition

inductive PushPhase (T : Type)
  /-- Before the test of the size. -/
  | check (x : T)
  /-- Before `data_[put_pos_] = x`. -/
  | store (x : T)
  /-- Before `put_pos_` moves on. -/
  | publish (x : T)
  deriving DecidableEq, Repr

inductive PopPhase (T : Type)
  | idle
  /-- Before `x = data_[get_pos_]`. -/
  | read
  /-- Before `get_pos_` moves on. -/
  | advance (x : T)
  deriving DecidableEq, Repr

/-- The ring, the push that has the mutex, the pop, and the elements that were pushed and popped. -/
structure SharedRing (T : Type) where
  ring : RingBuffer T
  push : Option (PushPhase T) := none
  pop : PopPhase T := .idle
  pushed : List T := []
  popped : List T := []
  deriving DecidableEq, Repr

inductive RingStep (T : Type)
  /-- A thread that pushes locks the mutex. -/
  | lock (x : T)
  /-- The thread that has the mutex goes on, and gives it up at the end. -/
  | push
  /-- The thread that pops goes on. -/
  | pop
  /-- A thread asks `size()`, `empty()` or `full()`. -/
  | look
  deriving DecidableEq, Repr

inductive RingReply (T : Type)
  | nothing
  | pushed (refused : Bool)
  | popped (x : Option T)
  | looked (size : ℕ) (empty full : Bool)
  deriving DecidableEq, Repr

/-- The step waits for the mutex, or there is no such step. -/
inductive RingRefusal
  | blocked
  | idle
  deriving DecidableEq, Repr

namespace SharedRing

variable {T : Type} [Inhabited T]

def step (s : SharedRing T) : RingStep T → Except RingRefusal (RingReply T × SharedRing T)
  | .lock x =>
      match s.push with
      | some _ => .error .blocked
      | none => .ok (.nothing, { s with push := some (.check x) })
  | .push =>
      match s.push with
      | none => .error .idle
      | some (.check x) =>
          if s.ring.capacity ≤ s.ring.sizeInternal then
            .ok (.pushed true, { s with push := none })
          else .ok (.nothing, { s with push := some (.store x) })
      | some (.store x) =>
          .ok (.nothing, { s with
            ring := { s.ring with data := s.ring.data.set s.ring.putPos x }
            push := some (.publish x) })
      | some (.publish x) =>
          .ok (.pushed false, { s with
            ring := { s.ring with putPos := (s.ring.putPos + 1) % s.ring.capacity }
            push := none
            pushed := s.pushed ++ [x] })
  | .pop =>
      match s.pop with
      | .idle =>
          if s.ring.emptyInternal then .ok (.popped none, s)
          else .ok (.nothing, { s with pop := .read })
      | .read =>
          .ok (.nothing, { s with pop := .advance (s.ring.data.getD s.ring.getPos default) })
      | .advance x =>
          .ok (.popped (some x), { s with
            ring := { s.ring with getPos := (s.ring.getPos + 1) % s.ring.capacity }
            pop := .idle
            popped := s.popped ++ [x] })
  | .look =>
      match s.push with
      | some _ => .error .blocked
      | none =>
          .ok (.looked s.ring.sizeInternal s.ring.emptyInternal s.ring.fullInternal, s)

/-- What was popped and what is held are what was pushed, in order, and no cell is read that is
being stored. -/
structure Exact (s : SharedRing T) : Prop where
  held : s.popped ++ s.ring.contents = s.pushed
  apart : s.pop = .read → ∀ x, s.push = some (.store x) → s.ring.putPos ≠ s.ring.getPos

/-- A push does not fill the last cell. -/
def LeavesSpare (s : SharedRing T) : RingStep T → Prop
  | .push => ∀ x, s.push = some (.publish x) → s.ring.sizeInternal + 1 < s.ring.capacity
  | _ => True

/-! ### One thread at a time -/

theorem push_alone (s : SharedRing T) (hfree : s.push = none) (x : T)
    (hroom : s.ring.sizeInternal < s.ring.capacity) :
    run step s [.lock x, .push, .push, .push] =
      .ok ([.nothing, .nothing, .nothing, .pushed false],
        { s with ring := (s.ring.push x).2, pushed := s.pushed ++ [x] }) := by
  have hle : ¬ s.ring.capacity ≤ s.ring.sizeInternal := by omega
  simp [run, step, hfree, hle, RingBuffer.push]

theorem pop_alone (s : SharedRing T) (hidle : s.pop = .idle) (x : T) (ring : RingBuffer T)
    (hpop : s.ring.pop = (some x, ring)) :
    run step s [.pop, .pop, .pop] =
      .ok ([.nothing, .nothing, .popped (some x)],
        { s with ring := ring, popped := s.popped ++ [x] }) := by
  rw [RingBuffer.pop] at hpop
  split at hpop
  case isTrue => cases hpop
  case isFalse hne =>
    cases hpop
    simp [run, step, hidle, hne]

/-! ### The invariant -/

/-- The positions name cells, and what a push or a pop is about to do fits what the ring holds. -/
structure Coherent (s : SharedRing T) : Prop where
  wf : s.ring.Wf
  held : s.popped ++ s.ring.contents = s.pushed
  stored : ∀ x, s.push = some (.publish x) → s.ring.data.getD s.ring.putPos default = x
  reading : s.pop = .read → s.ring.contents ≠ []
  taken : ∀ x, s.pop = .advance x → s.ring.contents.head? = some x

variable {s s' : SharedRing T} {a : RingStep T} {reply : RingReply T}

theorem new_coherent {capacity : ℕ} (hpos : 0 < capacity) (hlt : capacity < 2 ^ 63) :
    Coherent (T := T) { ring := .new T capacity } where
  wf := RingBuffer.new_wf hpos hlt
  held := RingBuffer.new_contents hpos hlt
  stored x h := by cases h
  reading h := by cases h
  taken x h := by cases h

theorem Coherent.exact (h : s.Coherent) : s.Exact where
  held := h.held
  apart hread x _ heq := by
    refine h.reading hread ((RingBuffer.contents_eq_nil_iff h.wf).mpr ?_)
    simpa [RingBuffer.emptyInternal] using heq

/-- The cell at `put_pos_` is not among those that hold elements. -/
theorem contents_store {r : RingBuffer T} (h : r.Wf) (x : T) :
    RingBuffer.contents { r with data := r.data.set r.putPos x } = r.contents := by
  have hsize := h.size_lt
  have hwalk : (r.getPos + r.sizeInternal) % r.capacity = r.putPos := by
    rw [h.size_eq]
    exact add_gap_mod h.get_lt h.put_lt
  rw [RingBuffer.contents, RingBuffer.contents]
  change cells (r.data.set r.putPos x) r.capacity r.getPos r.sizeInternal = _
  rw [cells_eq_iff]
  intro i hi
  have hne : r.putPos ≠ (r.getPos + i) % r.capacity := by
    rw [← hwalk]
    exact (mod_ne_mod (by omega) (by omega)).symm
  simp [List.getD_eq_getElem?_getD, List.getElem?_set_ne hne]

/-- An element that was stored is appended when `put_pos_` moves on, or else all are gone. -/
theorem contents_publish {r : RingBuffer T} (h : r.Wf) :
    RingBuffer.contents { r with putPos := (r.putPos + 1) % r.capacity } =
      if r.sizeInternal + 1 < r.capacity then r.contents ++ [r.data.getD r.putPos default]
      else [] := by
  have hset : r.data.set r.putPos (r.data.getD r.putPos default) = r.data := by
    have hlt : r.putPos < r.data.length := by
      rw [h.alloc]
      exact h.put_lt
    rw [List.getD_eq_getElem _ _ hlt, List.set_getElem_self]
  have hpush := RingBuffer.push_contents h (r.data.getD r.putPos default)
  rw [RingBuffer.push_of_wf h, hset] at hpush
  exact hpush

/-- A push keeps the invariant, unless it fills the last cell. -/
theorem Coherent.push (h : s.Coherent) (hspare : s.LeavesSpare .push)
    (hstep : s.step .push = .ok (reply, s')) : s'.Coherent := by
  obtain ⟨hwf, hheld, hstored, hreading, htaken⟩ := h
  rw [step] at hstep
  split at hstep
  case h_1 => cases hstep
  case h_2 x hphase =>
    split at hstep <;> cases hstep <;>
      exact ⟨hwf, hheld, fun y hy => (by cases hy), hreading, htaken⟩
  case h_3 x hphase =>
    cases hstep
    have hlt : s.ring.putPos < s.ring.data.length := by
      rw [hwf.alloc]
      exact hwf.put_lt
    have hwf' : RingBuffer.Wf { s.ring with data := s.ring.data.set s.ring.putPos x } :=
      ⟨hwf.put_lt, hwf.get_lt, by rw [List.length_set]; exact hwf.alloc, hwf.cap_lt⟩
    refine ⟨hwf', ?_, fun y hy => ?_, fun hread => ?_, fun y hy => ?_⟩
    · rw [contents_store hwf]
      exact hheld
    · cases hy
      simp [List.getD_eq_getElem?_getD, hlt]
    · rw [contents_store hwf]
      exact hreading hread
    · rw [contents_store hwf]
      exact htaken y hy
  case h_4 x hphase =>
    cases hstep
    have hroom := hspare x hphase
    have hcontents := contents_publish hwf
    rw [if_pos hroom, hstored x hphase] at hcontents
    have hput : (s.ring.putPos + 1) % s.ring.capacity < s.ring.capacity := Nat.mod_lt _ (by omega)
    refine ⟨⟨hput, hwf.get_lt, hwf.alloc, hwf.cap_lt⟩, ?_, fun y hy => (by cases hy), fun _ => ?_,
      fun y hy => ?_⟩
    · rw [hcontents, ← List.append_assoc, hheld]
    · rw [hcontents]
      simp
    · rw [hcontents, List.head?_append, htaken y hy]
      rfl

theorem Coherent.pop (h : s.Coherent) (hstep : s.step .pop = .ok (reply, s')) : s'.Coherent := by
  obtain ⟨hwf, hheld, hstored, hreading, htaken⟩ := h
  rw [step] at hstep
  split at hstep
  case h_1 hphase =>
    split at hstep
    case isTrue =>
      cases hstep
      exact ⟨hwf, hheld, hstored, hreading, htaken⟩
    case isFalse hne =>
      cases hstep
      refine ⟨hwf, hheld, hstored, fun _ => ?_, fun y hy => by cases hy⟩
      exact fun hnil => hne ((RingBuffer.contents_eq_nil_iff hwf).mp hnil)
  case h_2 hphase =>
    cases hstep
    refine ⟨hwf, hheld, hstored, fun hread => (by cases hread), fun y hy => ?_⟩
    cases hy
    obtain ⟨x, xs, hcons⟩ := List.exists_cons_of_ne_nil (hreading hphase)
    obtain ⟨r, hpop, -, -⟩ := RingBuffer.pop_of_cons hwf hcons
    rw [RingBuffer.pop] at hpop
    split at hpop
    · cases hpop
    · rw [hcons, List.head?_cons]
      exact congrArg some (Option.some.inj (congrArg Prod.fst hpop)).symm
  case h_3 x hphase =>
    cases hstep
    obtain ⟨xs, hcons⟩ := List.head?_eq_some_iff.mp (htaken x hphase)
    obtain ⟨r, hpop, hrest, hwf'⟩ := RingBuffer.pop_of_cons hwf hcons
    rw [RingBuffer.pop] at hpop
    split at hpop
    case isTrue => cases hpop
    case isFalse =>
      obtain rfl : _ = r := congrArg Prod.snd hpop
      refine ⟨hwf', ?_, hstored, fun hread => (by cases hread), fun y hy => (by cases hy)⟩
      rw [hrest, List.append_assoc, List.singleton_append, ← hcons]
      exact hheld

theorem Coherent.step (h : s.Coherent) (hspare : s.LeavesSpare a)
    (hstep : s.step a = .ok (reply, s')) : s'.Coherent := by
  cases a with
  | push => exact h.push hspare hstep
  | pop => exact h.pop hstep
  | lock x =>
      rw [SharedRing.step] at hstep
      split at hstep <;> cases hstep
      exact ⟨h.wf, h.held, fun y hy => (by cases hy), h.reading, h.taken⟩
  | look =>
      rw [SharedRing.step] at hstep
      split at hstep <;> cases hstep
      exact h

/-- The push that fills the last cell loses what the ring holds. -/
theorem Coherent.lost (h : s.Coherent) (hfull : ¬ s.LeavesSpare a) :
    ∃ reply s', s.step a = .ok (reply, s') ∧ ¬ s'.Exact := by
  cases a with
  | push =>
      obtain ⟨x, hx⟩ := not_forall.mp hfull
      obtain ⟨hphase, hroom⟩ := Classical.not_imp.mp hx
      refine ⟨.pushed false, { s with
        ring := { s.ring with putPos := (s.ring.putPos + 1) % s.ring.capacity }
        push := none
        pushed := s.pushed ++ [x] }, by rw [SharedRing.step, hphase], fun hexact => ?_⟩
      have hheld := hexact.held
      rw [contents_publish h.wf, if_neg hroom, ← h.held] at hheld
      simp at hheld
  | pop => exact absurd trivial hfull
  | lock x => exact absurd trivial hfull
  | look => exact absurd trivial hfull

/-- In every order of the steps of threads that push and of one that pops, what was popped and what
is held are what was pushed, in order, and no cell is read that is being stored, in all states
exactly when no push fills the last cell. -/
theorem runs_exact_iff (capacity : ℕ) (hpos : 0 < capacity) (hlt : capacity < 2 ^ 63)
    (steps : List (RingStep T)) :
    AlongStates step Exact { ring := .new T capacity } steps ↔
      Along step LeavesSpare { ring := .new T capacity } steps := by
  have hvalid : Along (step (T := T)) (fun _ _ => True) { ring := .new T capacity } steps :=
    along_of_forall_mem fun _ _ => trivial
  exact alongStates_iff_along (fun s a reply s' h _ hspare hstep => h.step hspare hstep)
    (fun s a h _ hfull => h.lost hfull) (fun s h => h.exact) (new_coherent hpos hlt) hvalid

/-- A ring of two cells, whose second push comes between the steps of a pop. -/
theorem runs_exact_iff_two :
    AlongStates step Exact { ring := .new ℕ 2 }
        [.lock 7, .push, .push, .push, .pop, .lock 8, .push, .pop, .pop, .push, .push] ↔
      Along step LeavesSpare { ring := .new ℕ 2 }
        [.lock 7, .push, .push, .push, .pop, .lock 8, .push, .pop, .pop, .push, .push] :=
  runs_exact_iff 2 (by decide) (by decide) _

end SharedRing

end LpNet
