import LpNet.Lib.Cyclic
import LpNet.Memory

/-!
The class `Buffer`: a byte queue in an array of `capacity_ + 1` cells used
cyclically, one cell always spare so that the two positions tell an empty
buffer from a full one.

Every member function is translated with its loops and with the integer types
of the source. The second half computes what each of them does from a state
whose positions lie in the array, in terms of `contents`, the `size()` bytes
from `get_pos_` on: these are the lemmas that later modules use in place of the
definitions.
-/

namespace LpNet

open Cyclic Transition

structure Buffer where
  capacity : ℕ
  putPos : ℕ
  getPos : ℕ
  data : List Byte
  deriving DecidableEq, Repr

namespace Buffer

/-- `kMaxBytesPerRead`, as a `size_t`. -/
def kMaxBytesPerRead : ℕ := 4096

def new (junk : ℕ → Byte) (capacity : ℕ) : Buffer where
  capacity := capacity
  putPos := 0
  getPos := 0
  data := newChars junk (SizeT.add capacity 1)

def size (b : Buffer) : ℕ :=
  SizeT.sub (SizeT.add (SizeT.add b.capacity 1) b.putPos) b.getPos % SizeT.add b.capacity 1

def readableBytes (b : Buffer) : ℕ := b.size

def writableBytes (b : Buffer) : ℕ := SizeT.sub b.capacity b.size

def full (b : Buffer) : Bool := b.size == b.capacity

def empty (b : Buffer) : Bool := b.putPos == b.getPos

def clear (b : Buffer) : Buffer := { b with getPos := 0, putPos := 0 }

def indexOf (b : Buffer) (pos n : ℕ) : ℕ := SizeT.add pos n % SizeT.add b.capacity 1

/-- The loop of `read`, with `n` of its turns left. -/
def readLoop (b : Buffer) : List Byte → ℕ → ℕ → Except Fault (List Byte)
  | s, _, 0 => .ok s
  | s, i, n + 1 => do
      let c ← load b.data (b.indexOf b.getPos i)
      let s ← storeArg s i c
      b.readLoop s (i + 1) n

/-- `read(s, n)`; no destination is `read(nullptr, n)`. Answers the count, the
destination after the copy and the buffer. -/
def read (b : Buffer) (s : Option (List Byte)) (n : ℕ) :
    Except Fault (ℕ × Option (List Byte) × Buffer) := do
  let bytesRead := if b.readableBytes > n then n else b.readableBytes
  let s ← match s with
    | none => .ok none
    | some s => do
        let s ← b.readLoop s 0 bytesRead
        .ok (some s)
  .ok (bytesRead, s, { b with getPos := b.indexOf b.getPos bytesRead })

/-- The loop of `write`, with `n` of its turns left. -/
def writeLoop (b : Buffer) (s : List Byte) : List Byte → ℕ → ℕ → Except Fault (List Byte)
  | data, _, 0 => .ok data
  | data, i, n + 1 => do
      let c ← loadArg s i
      let data ← store data (b.indexOf b.putPos i) c
      b.writeLoop s data (i + 1) n

/-- `write(s, n)`; no source is `write(nullptr, n)`. -/
def write (b : Buffer) (s : Option (List Byte)) (n : ℕ) : Except Fault (ℕ × Buffer) := do
  let room := SizeT.sub b.capacity b.size
  let bytesWrite := if room > n then n else room
  let data ← match s with
    | none => .ok b.data
    | some s => b.writeLoop s b.data 0 bytesWrite
  .ok (bytesWrite, { b with data := data, putPos := b.indexOf b.putPos bytesWrite })

/-- The region of `data_` that `read(fd)` hands to `recv`: first index and length. -/
def recvRegion (b : Buffer) : ℕ × ℕ :=
  (b.putPos, if b.writableBytes ≥ kMaxBytesPerRead then kMaxBytesPerRead else b.writableBytes)

def readFd (b : Buffer) (outcome : RecvOutcome) : Except Fault (ℤ × Buffer) := do
  let (bytesWrite, data) ← SocketApi.recv b.data b.recvRegion.1 b.recvRegion.2 outcome
  let b := { b with data := data }
  if bytesWrite > 0 then
    .ok (bytesWrite, { b with putPos := b.indexOf b.putPos (ofInt bytesWrite) })
  else .ok (bytesWrite, b)

/-- The region of `data_` that `write(fd, size)` hands to `send`, which is where `peek()`
points. -/
def sendRegion (b : Buffer) (size : ℕ) : ℕ × ℕ :=
  (b.getPos, if size < b.readableBytes then size else b.readableBytes)

/-- `write(fd, size)`. Answers the result, the bytes the socket accepted and the buffer. The
blocking mode that `ms_timeout` sets for the call is a flag of the descriptor, outside
the buffer. -/
def writeFd (b : Buffer) (size : ℕ) (outcome : SendOutcome) :
    Except Fault (ℤ × List Byte × Buffer) := do
  let (bytesRead, accepted) ←
    SocketApi.send b.data (b.sendRegion size).1 (b.sendRegion size).2 outcome
  if bytesRead > 0 then
    .ok (bytesRead, accepted, { b with getPos := b.indexOf b.getPos (ofInt bytesRead) })
  else .ok (bytesRead, accepted, b)

/-- The loop of `reset`: `new_data[i] = data_[indexOf(get_pos_, i)]`. -/
def resetLoop (b : Buffer) : List Byte → ℕ → ℕ → Except Fault (List Byte)
  | newData, _, 0 => .ok newData
  | newData, i, n + 1 => do
      let c ← load b.data (b.indexOf b.getPos i)
      let newData ← store newData i c
      b.resetLoop newData (i + 1) n

/-- `reset(newCapacity)`. The new array has `newCapacity` cells, not the `newCapacity + 1`
of the constructor. -/
def reset (junk : ℕ → Byte) (b : Buffer) (newCapacity : ℕ) : Except Fault Buffer :=
  if allocatable newCapacity then do
    let n := if b.size ≥ newCapacity then newCapacity else b.size
    let newData ← b.resetLoop (newChars junk newCapacity) 0 n
    .ok { capacity := newCapacity, putPos := n, getPos := 0, data := newData }
  else .error .badAlloc

/-- The inner loop of `find` at offset `j`, with `n` of its turns left: `none` is the early
return at `put_pos_`, `some i` the index it breaks or ends with. -/
def scan (b : Buffer) (target : List Byte) (j : ℕ) : ℕ → ℕ → Except Fault (Option ℕ)
  | i, 0 => .ok (some i)
  | i, n + 1 => do
      let idx := b.indexOf (SizeT.add j b.getPos) i
      -- the contents end here, and `find` gives up
      if idx = b.putPos then .ok none
      else do
        let c ← load b.data idx
        -- the terminator is a character of the target like any other
        let t ← loadArg (target ++ [0]) i
        if c ≠ t then .ok (some i) else b.scan target j (i + 1) n

/-- The outer loop of `find` from offset `j` on, with `n` of its turns left. -/
def findFrom (b : Buffer) (target : List Byte) (len : ℕ) : ℕ → ℕ → Except Fault ℤ
  | _, 0 => .ok (-1)
  | j, n + 1 => do
      match ← b.scan target j 0 len with
      | none => .ok (-1)
      | some i => if i = len then .ok (toInt j) else b.findFrom target len (j + 1) n

/-- `find(target)`. The target is a string without its terminator; its length goes through
an `int` before it is compared with a `size_t`. -/
def find (b : Buffer) (target : List Byte) : Except Fault ℤ :=
  b.findFrom target (ofInt (toInt target.length)) 0 b.size

/-! ### States whose positions lie in the array -/

/-- The positions lie in the ring of `capacity_ + 1` cells and the array is no longer
than that. The constructor allocates the whole ring, `reset` one cell less. -/
structure Wf (b : Buffer) : Prop where
  cap_lt : b.capacity < 2 ^ 63
  put_le : b.putPos ≤ b.capacity
  get_le : b.getPos ≤ b.capacity
  alloc_le : b.data.length ≤ b.capacity + 1

/-- The queue: `size()` bytes from `get_pos_` on, modulo `capacity_ + 1`. -/
def contents (b : Buffer) : List Byte := cells b.data (b.capacity + 1) b.getPos b.size

/-- Every byte of the contents lies inside the allocated array. -/
def Held (b : Buffer) : Prop :=
  ∀ i < b.size, (b.getPos + i) % (b.capacity + 1) < b.data.length

variable {b : Buffer}

theorem Wf.modulus_eq (h : b.Wf) : SizeT.add b.capacity 1 = b.capacity + 1 :=
  SizeT.add_eq (by have := h.cap_lt; omega)

/-- The modular size formula is the distance between the positions. -/
theorem Wf.size_eq (h : b.Wf) : b.size = gap (b.capacity + 1) b.getPos b.putPos := by
  have hcap := h.cap_lt
  have hput := h.put_le
  have hget := h.get_le
  rw [size, h.modulus_eq, SizeT.add_eq (by omega), SizeT.sub_eq (by omega) (by omega), gap]

theorem Wf.size_le (h : b.Wf) : b.size ≤ b.capacity := by
  rw [h.size_eq]
  exact Nat.le_of_lt_succ (gap_lt (Nat.succ_pos _))

theorem Wf.get_add_size (h : b.Wf) : (b.getPos + b.size) % (b.capacity + 1) = b.putPos := by
  rw [h.size_eq]
  exact add_gap_mod (Nat.lt_succ_of_le h.get_le) (Nat.lt_succ_of_le h.put_le)

theorem Wf.writableBytes_eq (h : b.Wf) : b.writableBytes = b.capacity - b.size :=
  SizeT.sub_eq h.size_le (by have := h.cap_lt; omega)

theorem Wf.indexOf_eq (h : b.Wf) {pos n : ℕ} (hsum : pos + n < 2 ^ 64) :
    b.indexOf pos n = (pos + n) % (b.capacity + 1) := by
  rw [indexOf, h.modulus_eq, SizeT.add_eq hsum]

theorem Wf.size_eq_zero_iff (h : b.Wf) : b.size = 0 ↔ b.empty = true := by
  rw [h.size_eq, gap_eq_zero_iff (Nat.lt_succ_of_le h.get_le) (Nat.lt_succ_of_le h.put_le),
    empty, beq_iff_eq, eq_comm]

@[simp] theorem contents_length (b : Buffer) : b.contents.length = b.size := by simp [contents]

theorem held_of_alloc (h : b.data.length = b.capacity + 1) : b.Held := by
  intro i _
  rw [h]
  exact Nat.mod_lt _ (Nat.succ_pos _)

theorem new_wf (junk : ℕ → Byte) {capacity : ℕ} (h : capacity < 2 ^ 63) :
    (new junk capacity).Wf where
  cap_lt := h
  put_le := Nat.zero_le _
  get_le := Nat.zero_le _
  alloc_le := by simp [new, SizeT.add_eq (show capacity + 1 < 2 ^ 64 by omega)]

theorem new_alloc (junk : ℕ → Byte) {capacity : ℕ} (h : capacity < 2 ^ 63) :
    (new junk capacity).data.length = (new junk capacity).capacity + 1 := by
  simp [new, SizeT.add_eq (show capacity + 1 < 2 ^ 64 by omega)]

theorem new_size (junk : ℕ → Byte) {capacity : ℕ} (h : capacity < 2 ^ 63) :
    (new junk capacity).size = 0 := by
  rw [(new_wf junk h).size_eq_zero_iff]
  rfl

/-! ### `read` -/

theorem readLoop_eq (h : b.Wf) {s : List Byte} {i n : ℕ} (hs : i + n ≤ s.length)
    (hi : i + n ≤ b.size)
    (hin : ∀ k < i + n, (b.getPos + k) % (b.capacity + 1) < b.data.length) :
    b.readLoop s i n =
      .ok (s.take i ++ cells b.data (b.capacity + 1) (b.getPos + i) n ++ s.drop (i + n)) := by
  have hsize := h.size_le
  have hcap := h.cap_lt
  have hget := h.get_le
  induction n generalizing s i with
  | zero => simp [readLoop]
  | succ n ih =>
      have hidx : b.indexOf b.getPos i = (b.getPos + i) % (b.capacity + 1) :=
        h.indexOf_eq (by omega)
      have hlen : i < s.length := by omega
      rw [readLoop, hidx, load_ok (hin i (by omega)), ok_bind, storeArg_ok _ hlen, ok_bind,
        ih (by simpa using by omega) (by omega) (fun k hk => hin k (by omega)), cells_succ]
      have htake : (s.set i (b.data.getD ((b.getPos + i) % (b.capacity + 1)) 0)).take (i + 1) =
          s.take i ++ [b.data.getD ((b.getPos + i) % (b.capacity + 1)) 0] := by
        rw [List.take_succ_eq_append_getElem (by simpa using hlen), List.getElem_set_self,
          List.take_set_of_le (le_refl i)]
      rw [htake, List.drop_set_of_lt (by omega),
        show b.getPos + (i + 1) = b.getPos + i + 1 by omega,
        show i + 1 + n = i + (n + 1) by omega]
      simp
      rfl

/-- Copying keeps the length of the destination, whatever the state. -/
theorem readLoop_length {s s' : List Byte} {i n : ℕ} (h : b.readLoop s i n = .ok s') :
    s'.length = s.length := by
  induction n generalizing s i with
  | zero =>
      injection h with h
      rw [h]
  | succ n ih =>
      rw [readLoop, bind_eq_ok] at h
      obtain ⟨c, -, h⟩ := h
      rw [bind_eq_ok] at h
      obtain ⟨t, hstore, h⟩ := h
      rw [ih h]
      simp only [storeArg] at hstore
      split at hstore
      · injection hstore with hstore
        rw [← hstore, List.length_set]
      · cases hstore

/-- The buffer after `k` bytes are taken off its front. -/
def advance (b : Buffer) (k : ℕ) : Buffer :=
  { b with getPos := (b.getPos + k) % (b.capacity + 1) }

theorem Wf.advance (h : b.Wf) (k : ℕ) : (b.advance k).Wf where
  cap_lt := h.cap_lt
  put_le := h.put_le
  get_le := Nat.le_of_lt_succ (Nat.mod_lt _ (Nat.succ_pos _))
  alloc_le := h.alloc_le

theorem advance_size (h : b.Wf) {k : ℕ} (hk : k ≤ b.size) :
    (b.advance k).size = b.size - k := by
  rw [(h.advance k).size_eq, h.size_eq]
  rw [h.size_eq] at hk
  exact gap_advance (Nat.lt_succ_of_le h.get_le) (Nat.lt_succ_of_le h.put_le) hk

theorem advance_contents (h : b.Wf) {k : ℕ} (hk : k ≤ b.size) :
    (b.advance k).contents = b.contents.drop k := by
  rw [contents, advance_size h hk, contents, cells_drop _ _ _ hk]
  exact cells_mod ..

theorem Held.advance (h : b.Wf) (hheld : b.Held) {k : ℕ} (hk : k ≤ b.size) :
    (b.advance k).Held := by
  intro i hi
  rw [advance_size h hk] at hi
  have := hheld (k + i) (by omega)
  simpa [Buffer.advance, Nat.mod_add_mod, Nat.add_assoc] using this

theorem read_count (b : Buffer) (n : ℕ) :
    (if b.readableBytes > n then n else b.readableBytes) = min n b.size := by
  rw [readableBytes]
  split <;> omega

theorem read_dest_length {s s' : List Byte} {n k : ℕ} {b' : Buffer}
    (h : b.read (some s) n = .ok (k, some s', b')) : s'.length = s.length := by
  rw [read] at h
  dsimp only at h
  rw [bind_eq_ok] at h
  obtain ⟨dest, hloop, h⟩ := h
  rw [ok_bind] at h
  injection h with h
  have hs : some dest = some s' := (Prod.mk.inj (Prod.mk.inj h).2).1
  injection hs with hs
  rw [← hs]
  exact readLoop_length hloop

/-- `read(nullptr, n)` drops the first `min(n, size())` bytes. -/
theorem read_none (h : b.Wf) (n : ℕ) :
    b.read none n = .ok (min n b.size, none, b.advance (min n b.size)) := by
  have hsize := h.size_le
  have hcap := h.cap_lt
  have hget := h.get_le
  simp only [read, read_count, ok_bind, Buffer.advance]
  rw [h.indexOf_eq (by omega)]

theorem read_some (h : b.Wf) {s : List Byte} {n : ℕ}
    (hin : ∀ i < min n b.size, (b.getPos + i) % (b.capacity + 1) < b.data.length)
    (hs : min n b.size ≤ s.length) :
    b.read (some s) n = .ok (min n b.size,
      some (b.contents.take n ++ s.drop (min n b.size)), b.advance (min n b.size)) := by
  have hsize := h.size_le
  have hcap := h.cap_lt
  have hget := h.get_le
  have htake : b.contents.take n = cells b.data (b.capacity + 1) b.getPos (min n b.size) := by
    rw [← cells_take _ _ _ (Nat.min_le_right n b.size), ← contents, List.take_eq_take_iff]
    simp
  simp only [read, read_count, Buffer.advance]
  rw [readLoop_eq h (by omega) (by omega) (fun k hk => hin k (by omega)),
    h.indexOf_eq (by omega)]
  simp [htake]

theorem read_of_held (h : b.Wf) (hheld : b.Held) {s : List Byte} {n : ℕ}
    (hs : min n b.size ≤ s.length) :
    b.read (some s) n = .ok (min n b.size,
      some (b.contents.take n ++ s.drop (min n b.size)), b.advance (min n b.size)) :=
  read_some h (fun i hi => hheld i (by omega)) hs

/-! ### `write` -/

theorem writeLoop_eq (h : b.Wf) {s data : List Byte} {i n : ℕ} (hs : i + n ≤ s.length)
    (hi : i + n ≤ b.capacity)
    (hin : ∀ k < i + n, (b.putPos + k) % (b.capacity + 1) < data.length) :
    b.writeLoop s data i n =
      .ok (putCells data (b.capacity + 1) (b.putPos + i) ((s.drop i).take n)) := by
  have hcap := h.cap_lt
  have hput := h.put_le
  induction n generalizing data i with
  | zero => simp [writeLoop]
  | succ n ih =>
      have hidx : b.indexOf b.putPos i = (b.putPos + i) % (b.capacity + 1) :=
        h.indexOf_eq (by omega)
      have hlen : i < s.length := by omega
      rw [writeLoop, hidx, loadArg_ok hlen, ok_bind, store_ok _ (hin i (by omega)), ok_bind,
        ih (by omega) (by omega) (fun k hk => by simpa using hin k (by omega)),
        List.drop_eq_getElem_cons hlen, List.take_succ_cons, putCells,
        List.getD_eq_getElem _ _ hlen]
      rfl

/-- A write loop that meets a cell past the array faults. -/
theorem writeLoop_error (h : b.Wf) {s data : List Byte} {i n : ℕ} (hs : i + n ≤ s.length)
    (hi : i + n ≤ b.capacity)
    (hout : ∃ k < n, data.length ≤ (b.putPos + (i + k)) % (b.capacity + 1)) :
    b.writeLoop s data i n = .error .outOfBounds := by
  have hcap := h.cap_lt
  have hput := h.put_le
  induction n generalizing data i with
  | zero => simp at hout
  | succ n ih =>
      have hidx : b.indexOf b.putPos i = (b.putPos + i) % (b.capacity + 1) :=
        h.indexOf_eq (by omega)
      rw [writeLoop, hidx, loadArg_ok (by omega), ok_bind]
      by_cases hfirst : (b.putPos + i) % (b.capacity + 1) < data.length
      case neg => rw [store_error _ (by omega), error_bind]
      case pos =>
        -- the first cell is inside, so the bad one is met later
        rw [store_ok _ hfirst, ok_bind]
        apply ih (by omega) (by omega)
        obtain ⟨k, hk, hlen⟩ := hout
        cases k with
        | zero => simp only [Nat.add_zero] at hlen; omega
        | succ k =>
            refine ⟨k, by omega, ?_⟩
            rw [List.length_set, show i + 1 + k = i + (k + 1) by omega]
            exact hlen

/-- The number of bytes `write(s, n)` takes. -/
def accepted (b : Buffer) (n : ℕ) : ℕ := min n (b.capacity - b.size)

theorem write_count (h : b.Wf) (n : ℕ) :
    (if SizeT.sub b.capacity b.size > n then n else SizeT.sub b.capacity b.size) =
      b.accepted n := by
  rw [SizeT.sub_eq h.size_le (by have := h.cap_lt; omega), accepted]
  split <;> omega

/-- The buffer after the list is stored behind its contents. -/
def extend (b : Buffer) (xs : List Byte) : Buffer :=
  { b with data := putCells b.data (b.capacity + 1) b.putPos xs,
           putPos := (b.putPos + xs.length) % (b.capacity + 1) }

theorem Wf.extend (h : b.Wf) (xs : List Byte) : (b.extend xs).Wf where
  cap_lt := h.cap_lt
  put_le := Nat.le_of_lt_succ (Nat.mod_lt _ (Nat.succ_pos _))
  get_le := h.get_le
  alloc_le := by simpa [Buffer.extend] using h.alloc_le

theorem extend_size (h : b.Wf) {xs : List Byte} (hroom : b.size + xs.length ≤ b.capacity) :
    (b.extend xs).size = b.size + xs.length := by
  rw [(h.extend xs).size_eq]
  -- `put_pos_` is as far behind `get_pos_` as the new size says
  have hput : (b.extend xs).putPos = (b.getPos + (b.size + xs.length)) % (b.capacity + 1) := by
    rw [← Nat.add_assoc, ← Nat.mod_add_mod, h.get_add_size]
    rfl
  rw [hput]
  show gap (b.capacity + 1) b.getPos _ = _
  exact gap_add_mod (Nat.lt_succ_of_le h.get_le) (by omega)

theorem extend_contents (h : b.Wf) {xs : List Byte} (hroom : b.size + xs.length ≤ b.capacity)
    (hin : ∀ i < xs.length, (b.putPos + i) % (b.capacity + 1) < b.data.length) :
    (b.extend xs).contents = b.contents ++ xs := by
  have hdata : (b.extend xs).data =
      putCells b.data (b.capacity + 1) (b.getPos + b.size) xs := by
    rw [← putCells_mod _ _ (b.getPos + b.size), h.get_add_size]
    rfl
  rw [contents, extend_size h hroom, hdata]
  apply cells_putCells_append
  · omega
  · intro i hi
    rw [← Nat.mod_add_mod, h.get_add_size]
    exact hin i hi

theorem write_eq (h : b.Wf) {s : List Byte} {n : ℕ} (hs : b.accepted n ≤ s.length)
    (hin : ∀ i < b.accepted n, (b.putPos + i) % (b.capacity + 1) < b.data.length) :
    b.write (some s) n = .ok (b.accepted n, b.extend (s.take (b.accepted n))) := by
  have hsize := h.size_le
  have hcap := h.cap_lt
  have hput := h.put_le
  have hacc : b.accepted n ≤ b.capacity := by unfold accepted; omega
  simp only [write, write_count h]
  rw [writeLoop_eq h (by omega) (by omega) (fun k hk => hin k (by omega)), ok_bind,
    h.indexOf_eq (by omega)]
  simp [extend, Nat.min_eq_left hs]

theorem write_error (h : b.Wf) {s : List Byte} {n : ℕ} (hs : b.accepted n ≤ s.length)
    (hout : ∃ i < b.accepted n, b.data.length ≤ (b.putPos + i) % (b.capacity + 1)) :
    b.write (some s) n = .error .outOfBounds := by
  have hcap := h.cap_lt
  have hacc : b.accepted n ≤ b.capacity := by unfold accepted; omega
  simp only [write, write_count h]
  rw [writeLoop_error h (by omega) (by omega) (by simpa using hout), error_bind]

/-- A buffer that has its whole ring never faults on a write of enough bytes. -/
theorem write_of_alloc (h : b.Wf) (halloc : b.data.length = b.capacity + 1) {s : List Byte}
    {n : ℕ} (hs : b.accepted n ≤ s.length) :
    b.write (some s) n = .ok (b.accepted n, b.extend (s.take (b.accepted n))) := by
  apply write_eq h hs
  intro i _
  rw [halloc]
  exact Nat.mod_lt _ (Nat.succ_pos _)

/-- The contents `AAB` around the end of the array, with room for one byte more. -/
def wrapped : Buffer where
  capacity := 4
  putPos := 2
  getPos := 4
  data := [65, 66, 0, 0, 65]

theorem wrapped_wf : wrapped.Wf where
  cap_lt := by decide
  put_le := by decide
  get_le := by decide
  alloc_le := by decide

theorem wrapped_held : wrapped.Held := held_of_alloc rfl

end Buffer

end LpNet
