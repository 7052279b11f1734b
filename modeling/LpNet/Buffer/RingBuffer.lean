import LpNet.Lib.Cyclic
import LpNet.Memory

/-!
The class template `RingBuffer<T>`.

All `capacity_` cells are used, and the number of elements is read off the two
positions, so that a full ring and an empty one look the same. `push_contents` says
what that makes of a push: it appends, except for the one that would fill the
ring, which loses every element.
-/

namespace LpNet

open Cyclic

structure RingBuffer (T : Type) where
  capacity : ℕ
  putPos : ℕ
  getPos : ℕ
  data : List T
  deriving DecidableEq, Repr

namespace RingBuffer

variable {T : Type}

def sizeInternal (r : RingBuffer T) : ℕ :=
  SizeT.sub (SizeT.add r.capacity r.putPos) r.getPos % r.capacity

def emptyInternal (r : RingBuffer T) : Bool := r.putPos == r.getPos

def fullInternal (r : RingBuffer T) : Bool := r.sizeInternal == r.capacity

/-- `push(const T &x)`. It returns false when it refuses the element, and flows off its end
without a value when it stores it. -/
def push (r : RingBuffer T) (x : T) : Option Bool × RingBuffer T :=
  if r.capacity ≤ r.sizeInternal then (some false, r)
  else (none, { r with data := r.data.set r.putPos x, putPos := (r.putPos + 1) % r.capacity })

variable [Inhabited T]

def new (T : Type) [Inhabited T] (capacity : ℕ) : RingBuffer T :=
  ⟨capacity, 0, 0, List.replicate capacity default⟩

/-- `pop(T &x)`. Answers what is stored in `x`, or `none` for false. The cell keeps its copy. -/
def pop (r : RingBuffer T) : Option T × RingBuffer T :=
  if r.emptyInternal then (none, r)
  else (some (r.data.getD r.getPos default), { r with getPos := (r.getPos + 1) % r.capacity })

/-- The elements that are to be popped, in order. -/
def contents (r : RingBuffer T) : List T := cells r.data r.capacity r.getPos r.sizeInternal

/-! ### What the positions say -/

omit [Inhabited T] in
/-- Both positions name cells of the array. -/
structure Wf (r : RingBuffer T) : Prop where
  put_lt : r.putPos < r.capacity
  get_lt : r.getPos < r.capacity
  alloc : r.data.length = r.capacity
  cap_lt : r.capacity < 2 ^ 63

variable {r : RingBuffer T}

theorem new_wf {capacity : ℕ} (hpos : 0 < capacity) (hlt : capacity < 2 ^ 63) :
    (new T capacity).Wf where
  put_lt := hpos
  get_lt := hpos
  alloc := List.length_replicate
  cap_lt := hlt

omit [Inhabited T] in
theorem Wf.size_eq (h : r.Wf) : r.sizeInternal = gap r.capacity r.getPos r.putPos := by
  have hput := h.put_lt
  have hget := h.get_lt
  have hcap := h.cap_lt
  rw [sizeInternal, SizeT.add_eq (by omega), SizeT.sub_eq (by omega) (by omega), gap]

omit [Inhabited T] in
theorem Wf.size_lt (h : r.Wf) : r.sizeInternal < r.capacity := by
  rw [h.size_eq]
  exact gap_lt (by have := h.put_lt; omega)

@[simp] theorem contents_length (r : RingBuffer T) : r.contents.length = r.sizeInternal := by
  rw [contents, cells_length]

theorem new_contents {capacity : ℕ} (hpos : 0 < capacity) (hlt : capacity < 2 ^ 63) :
    (new T capacity).contents = [] := by
  rw [← List.length_eq_zero_iff, contents_length, (new_wf hpos hlt).size_eq]
  exact gap_self

/-! ### `push` and `pop` -/

omit [Inhabited T] in
theorem push_of_wf (h : r.Wf) (x : T) :
    r.push x =
      (none, { r with data := r.data.set r.putPos x, putPos := (r.putPos + 1) % r.capacity }) := by
  rw [push, if_neg (not_le.mpr h.size_lt)]

omit [Inhabited T] in
theorem Wf.push (h : r.Wf) (x : T) : (r.push x).2.Wf := by
  rw [push_of_wf h]
  refine ⟨Nat.mod_lt _ ?_, h.get_lt, ?_, h.cap_lt⟩
  · exact lt_of_le_of_lt (Nat.zero_le _) h.put_lt
  · rw [List.length_set]
    exact h.alloc

theorem Wf.pop (h : r.Wf) : r.pop.2.Wf := by
  rw [RingBuffer.pop]
  split
  · exact h
  · refine ⟨h.put_lt, Nat.mod_lt _ ?_, h.alloc, h.cap_lt⟩
    exact lt_of_le_of_lt (Nat.zero_le _) h.put_lt

/-- A push appends, but for the one that fills the ring: it leaves an empty one. -/
theorem push_contents (h : r.Wf) (x : T) :
    (r.push x).2.contents =
      if r.sizeInternal + 1 < r.capacity then r.contents ++ [x] else [] := by
  have hput := h.put_lt
  have hget := h.get_lt
  have hsize := h.size_lt
  have hwalk : (r.getPos + r.sizeInternal) % r.capacity = r.putPos := by
    rw [h.size_eq]
    exact add_gap_mod hget hput
  have hput' : (r.putPos + 1) % r.capacity =
      (r.getPos + (r.sizeInternal + 1)) % r.capacity := by
    rw [← hwalk, Nat.mod_add_mod, Nat.add_assoc]
  have hsize' : (r.push x).2.sizeInternal =
      gap r.capacity r.getPos ((r.getPos + (r.sizeInternal + 1)) % r.capacity) := by
    rw [(h.push x).size_eq, push_of_wf h, ← hput']
  split
  case isTrue hroom =>
    rw [gap_add_mod hget hroom] at hsize'
    rw [contents, hsize', push_of_wf h, contents]
    have hstore : r.data.set r.putPos x =
        putCells r.data r.capacity (r.getPos + r.sizeInternal) [x] := by
      rw [putCells, hwalk, putCells_nil]
    dsimp only
    rw [hstore]
    have hone : r.sizeInternal + [x].length ≤ r.capacity := by simpa using hroom.le
    refine cells_putCells_append hone fun i hi => ?_
    rw [h.alloc]
    exact Nat.mod_lt _ (by omega)
  case isFalse hfull =>
    rw [← List.length_eq_zero_iff, contents_length, hsize',
      show r.sizeInternal + 1 = r.capacity by omega, Nat.add_mod_right, Nat.mod_eq_of_lt hget,
      gap_self]

theorem contents_eq_nil_iff (h : r.Wf) : r.contents = [] ↔ r.emptyInternal = true := by
  rw [← List.length_eq_zero_iff, contents_length, h.size_eq, gap_eq_zero_iff h.get_lt h.put_lt,
    emptyInternal, beq_iff_eq]
  exact eq_comm

theorem pop_of_nil (h : r.Wf) (hnil : r.contents = []) : r.pop = (none, r) := by
  rw [pop, if_pos ((contents_eq_nil_iff h).mp hnil)]

theorem pop_of_cons (h : r.Wf) {x : T} {xs : List T} (hcons : r.contents = x :: xs) :
    ∃ r', r.pop = (some x, r') ∧ r'.contents = xs ∧ r'.Wf := by
  have hne : ¬ r.emptyInternal = true := by
    rw [← contents_eq_nil_iff h, hcons]
    exact List.cons_ne_nil _ _
  have hlen : r.sizeInternal = xs.length + 1 := by
    rw [← contents_length, hcons, List.length_cons]
  have hpop := h.pop
  rw [pop, if_neg hne] at hpop ⊢
  have hcells := hcons
  rw [contents, hlen, cells_succ, Nat.mod_eq_of_lt h.get_lt] at hcells
  injection hcells with hx hxs
  refine ⟨_, by rw [hx], ?_, hpop⟩
  have hsize := hpop.size_eq
  have hle : 1 ≤ gap r.capacity r.getPos r.putPos := by
    rw [← h.size_eq]
    omega
  dsimp only at hsize
  rw [gap_advance h.get_lt h.put_lt hle, ← h.size_eq, hlen, Nat.add_sub_cancel] at hsize
  rw [contents, hsize, cells_mod]
  exact hxs

end RingBuffer

end LpNet
