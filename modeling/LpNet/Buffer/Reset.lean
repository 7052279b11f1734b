import LpNet.Buffer.Queue

/-!
`Buffer::reset` against building the buffer anew.

`reset(newCapacity)` allocates `newCapacity` cells for a ring of
`newCapacity + 1`. `Twin` relates the buffer after a reset to the buffer a fresh
constructor and one `write` would give: the same positions and the same
contents, in an array that is one cell shorter. The two answer alike until a
write reaches the last cell of the ring (`ReachesLastCell`), and that write is
out of bounds. Since the contents start at cell 0 and no write wraps before
reaching that cell, nothing else touches it.
-/

namespace LpNet

open Cyclic Transition

namespace Buffer

inductive Op
  | queue (op : QueueOp)
  /-- `find(target)` -/
  | find (target : List Byte)
  /-- `reset(newCapacity)` -/
  | reset (newCapacity : ℕ)

/-- The arrays the caller passes are as long as it says. -/
def Op.Valid : Op → Prop
  | .queue op => op.Valid
  | .find _ | .reset _ => True

def step (junk : ℕ → Byte) (b : Buffer) : Op → Except Fault (Res × Buffer)
  | .queue op => b.queueStep op
  | .find target => do
      let i ← b.find target
      .ok (.index i, b)
  | .reset newCapacity => do
      let b ← reset junk b newCapacity
      .ok (.none, b)

/-- The call stores bytes up to the last cell of the ring, the one with index `capacity_`. -/
def ReachesLastCell (b : Buffer) : Op → Prop
  | .queue (.write _ n) => b.capacity < b.putPos + b.accepted n
  | _ => False

variable {b : Buffer}

/-! ### What `reset` makes -/

theorem resetLoop_eq_readLoop {newData : List Byte} {i n : ℕ} (h : i + n ≤ newData.length) :
    b.resetLoop newData i n = b.readLoop newData i n := by
  induction n generalizing newData i with
  | zero => rfl
  | succ n ih =>
      rw [resetLoop, readLoop]
      cases load b.data (b.indexOf b.getPos i) with
      | error e => rfl
      | ok c =>
          rw [ok_bind, ok_bind, store_ok c (by omega), storeArg_ok c (by omega), ok_bind, ok_bind,
            ih (by simpa using by omega)]

def resized (junk : ℕ → Byte) (xs : List Byte) (newCapacity : ℕ) : Buffer where
  capacity := newCapacity
  putPos := xs.length
  getPos := 0
  data := xs ++ (newChars junk newCapacity).drop xs.length

/-- The bytes that `reset(newCapacity)` keeps lie inside the array. -/
def KeepsHeld (b : Buffer) (newCapacity : ℕ) : Prop :=
  ∀ i < min newCapacity b.size, (b.getPos + i) % (b.capacity + 1) < b.data.length

theorem Held.keepsHeld (h : b.Held) (newCapacity : ℕ) : b.KeepsHeld newCapacity :=
  fun i hi => h i (lt_of_lt_of_le hi (Nat.min_le_right ..))

/-- A reset loop that meets a cell past the old array faults. -/
theorem resetLoop_error (h : b.Wf) {newData : List Byte} {i n : ℕ} (hnew : i + n ≤ newData.length)
    (hi : i + n ≤ b.size)
    (hout : ∃ k < n, b.data.length ≤ (b.getPos + (i + k)) % (b.capacity + 1)) :
    b.resetLoop newData i n = .error .outOfBounds := by
  have hsize := h.size_le
  have hcap := h.cap_lt
  have hget := h.get_le
  induction n generalizing newData i with
  | zero => simp at hout
  | succ n ih =>
      have hidx : b.indexOf b.getPos i = (b.getPos + i) % (b.capacity + 1) :=
        h.indexOf_eq (by omega)
      rw [resetLoop, hidx]
      by_cases hfirst : (b.getPos + i) % (b.capacity + 1) < b.data.length
      case neg => rw [load_error (not_lt.mp hfirst), error_bind]
      case pos =>
        rw [load_ok hfirst, ok_bind, store_ok _ (by omega), ok_bind]
        apply ih (by rw [List.length_set]; omega) (by omega)
        obtain ⟨k, hk, hlen⟩ := hout
        cases k with
        | zero => exact absurd hfirst (not_lt.mpr hlen)
        | succ k =>
            refine ⟨k, by omega, ?_⟩
            rw [show i + 1 + k = i + (k + 1) by omega]
            exact hlen

theorem reset_count (b : Buffer) (newCapacity : ℕ) :
    (if b.size ≥ newCapacity then newCapacity else b.size) = min newCapacity b.size := by
  split <;> omega

theorem reset_error (junk : ℕ → Byte) (h : b.Wf) {newCapacity : ℕ} (hcap : newCapacity < 2 ^ 63)
    (hout : ¬ b.KeepsHeld newCapacity) : reset junk b newCapacity = .error .outOfBounds := by
  simp only [KeepsHeld, not_forall, not_lt] at hout
  obtain ⟨i, hi, hcell⟩ := hout
  rw [reset, if_pos (by simpa [allocatable] using hcap)]
  simp only [reset_count]
  rw [resetLoop_error h (by simp) (by omega) ⟨i, hi, by rw [Nat.zero_add]; exact hcell⟩,
    error_bind]

theorem reset_eq (junk : ℕ → Byte) (h : b.Wf) {newCapacity : ℕ} (hcap : newCapacity < 2 ^ 63)
    (hkept : b.KeepsHeld newCapacity) :
    reset junk b newCapacity = .ok (resized junk (b.contents.take newCapacity) newCapacity) := by
  have htake : cells b.data (b.capacity + 1) b.getPos (min newCapacity b.size) =
      b.contents.take newCapacity := by
    rw [← cells_take _ _ _ (Nat.min_le_right newCapacity b.size), ← contents,
      List.take_eq_take_iff]
    simp
  rw [reset, if_pos (by simpa [allocatable] using hcap)]
  simp only [reset_count]
  rw [resetLoop_eq_readLoop (by simp), readLoop_eq h (by simp) (by omega)
    (fun k hk => hkept k (by omega)), ok_bind]
  simp [resized, htake]

theorem resized_wf (junk : ℕ → Byte) {xs : List Byte} {newCapacity : ℕ}
    (hlen : xs.length ≤ newCapacity) (hcap : newCapacity < 2 ^ 63) :
    (resized junk xs newCapacity).Wf where
  cap_lt := hcap
  put_le := hlen
  get_le := Nat.zero_le _
  alloc_le := by simp [resized]; omega

theorem resized_alloc (junk : ℕ → Byte) {xs : List Byte} {newCapacity : ℕ}
    (hlen : xs.length ≤ newCapacity) :
    (resized junk xs newCapacity).data.length = newCapacity := by
  simp [resized]
  omega

theorem resized_contents (junk : ℕ → Byte) {xs : List Byte} {newCapacity : ℕ}
    (hlen : xs.length ≤ newCapacity) (hcap : newCapacity < 2 ^ 63) :
    (resized junk xs newCapacity).contents = xs := by
  have hsize : (resized junk xs newCapacity).size = xs.length := by
    rw [(resized_wf junk hlen hcap).size_eq, gap_eq (by simp [resized])
      (by simp [resized]; omega)]
    simp [resized]
  rw [contents, hsize, cells_eq_slice (by simp [resized]; omega) (by simp [resized])]
  simp [resized]

/-! ### Twins -/

/-- The same queue in the same place, in an array without the last cell of the ring on the
left, with at least as many cells on the right, and not wrapped around. -/
structure Twin (r t : Buffer) : Prop where
  wf : r.Wf
  wf' : t.Wf
  capacity_eq : r.capacity = t.capacity
  put_eq : r.putPos = t.putPos
  get_eq : r.getPos = t.getPos
  unwrapped : r.getPos ≤ r.putPos
  alloc : r.data.length = r.capacity
  alloc' : r.capacity ≤ t.data.length
  contents_eq : r.contents = t.contents

variable {r t : Buffer}

theorem Twin.size_eq (h : Twin r t) : r.size = t.size := by
  rw [← contents_length, h.contents_eq, contents_length]

theorem Twin.size_add (h : Twin r t) : r.getPos + r.size = r.putPos := by
  have hput := h.wf.put_le
  have hunwrapped := h.unwrapped
  rw [h.wf.size_eq, gap_eq (by omega) (by omega), if_pos hunwrapped]
  omega

theorem Twin.held (h : Twin r t) : r.Held := by
  intro i hi
  have hadd := h.size_add
  have hput := h.wf.put_le
  rw [h.alloc, Nat.mod_eq_of_lt (by omega)]
  omega

theorem Twin.held' (h : Twin r t) : t.Held := by
  intro i hi
  have hi' := h.held i (by rw [h.size_eq]; exact hi)
  rw [h.alloc, h.capacity_eq, h.get_eq] at hi'
  have halloc := h.alloc'
  rw [h.capacity_eq] at halloc
  omega

theorem Twin.cell_eq (h : Twin r t) {i : ℕ} (hi : i < r.size) :
    r.data.getD ((r.getPos + i) % (r.capacity + 1)) 0 =
      t.data.getD ((t.getPos + i) % (t.capacity + 1)) 0 := by
  have hcells := h.contents_eq
  rw [contents, contents, h.size_eq, h.capacity_eq, h.get_eq] at hcells
  rw [h.capacity_eq, h.get_eq]
  exact cells_eq_iff.mp hcells i (by rw [← h.size_eq]; exact hi)

theorem Twin.advance (h : Twin r t) {k : ℕ} (hk : k ≤ r.size) :
    Twin (r.advance k) (t.advance k) where
  wf := h.wf.advance k
  wf' := h.wf'.advance k
  capacity_eq := h.capacity_eq
  put_eq := h.put_eq
  get_eq := by simp [Buffer.advance, h.get_eq, h.capacity_eq]
  unwrapped := by
    have hadd := h.size_add
    have hput := h.wf.put_le
    simp only [Buffer.advance]
    rw [Nat.mod_eq_of_lt (by omega)]
    omega
  alloc := h.alloc
  alloc' := h.alloc'
  contents_eq := by
    rw [advance_contents h.wf hk, advance_contents h.wf' (by rw [← h.size_eq]; exact hk),
      h.contents_eq]

/-- Storing short of the last cell keeps the twins. -/
theorem Twin.extend (h : Twin r t) (xs : List Byte)
    (hroom : r.size + xs.length ≤ r.capacity) (hshort : r.putPos + xs.length ≤ r.capacity) :
    Twin (r.extend xs) (t.extend xs) where
  wf := h.wf.extend xs
  wf' := h.wf'.extend xs
  capacity_eq := h.capacity_eq
  put_eq := by simp [Buffer.extend, h.put_eq, h.capacity_eq]
  get_eq := h.get_eq
  unwrapped := by
    have hunwrapped := h.unwrapped
    simp only [Buffer.extend]
    rw [Nat.mod_eq_of_lt (by omega)]
    omega
  alloc := by simpa [Buffer.extend] using h.alloc
  alloc' := by simpa [Buffer.extend] using h.alloc'
  contents_eq := by
    have halloc := h.alloc
    have halloc' := h.alloc'
    have hput := h.put_eq
    have hcap := h.capacity_eq
    have hsize := h.size_eq
    rw [extend_contents h.wf hroom, extend_contents h.wf' (by omega), h.contents_eq]
    · intro i hi
      rw [Nat.mod_eq_of_lt (by omega)]
      omega
    · intro i hi
      rw [Nat.mod_eq_of_lt (by omega)]
      omega

theorem Twin.clear (h : Twin r t) : Twin r.clear t.clear where
  wf := clear_wf h.wf
  wf' := clear_wf h.wf'
  capacity_eq := h.capacity_eq
  put_eq := rfl
  get_eq := rfl
  unwrapped := le_refl _
  alloc := h.alloc
  alloc' := h.alloc'
  contents_eq := by rw [clear_contents h.wf, clear_contents h.wf']

theorem twin_resized (junk : ℕ → Byte) {xs : List Byte} {newCapacity : ℕ}
    (hlen : xs.length ≤ newCapacity) (hcap : newCapacity < 2 ^ 63) :
    Twin (resized junk xs newCapacity) (resized junk xs newCapacity) where
  wf := resized_wf junk hlen hcap
  wf' := resized_wf junk hlen hcap
  capacity_eq := rfl
  put_eq := rfl
  get_eq := rfl
  unwrapped := Nat.zero_le _
  alloc := resized_alloc junk hlen
  alloc' := le_of_eq (resized_alloc junk hlen).symm
  contents_eq := rfl

/-- The buffer a reset leaves and the one a constructor and a write would give are twins. -/
theorem twin_rebuilt (junk junk' : ℕ → Byte) {xs : List Byte} {newCapacity : ℕ}
    (hlen : xs.length ≤ newCapacity) (hcap : newCapacity < 2 ^ 63) :
    Twin (resized junk xs newCapacity) ((new junk' newCapacity).extend xs) where
  wf := resized_wf junk hlen hcap
  wf' := (new_wf junk' hcap).extend xs
  capacity_eq := rfl
  put_eq := by
    simp only [resized, Buffer.extend, new, Nat.zero_add]
    exact (Nat.mod_eq_of_lt (by omega)).symm
  get_eq := rfl
  unwrapped := Nat.zero_le _
  alloc := resized_alloc junk hlen
  alloc' := by
    have halloc := new_alloc junk' hcap
    simp only [Buffer.extend, putCells_length, halloc]
    exact Nat.le_succ _
  contents_eq := by
    have hnew := new_wf junk' hcap
    have hsize := new_size junk' hcap
    have hempty : (new junk' newCapacity).contents = [] := by
      rw [contents, hsize, cells_zero]
    have hroom : (new junk' newCapacity).size + xs.length ≤ newCapacity := by
      rw [hsize]
      omega
    rw [resized_contents junk hlen hcap, extend_contents hnew hroom, hempty, List.nil_append]
    intro i _
    rw [new_alloc junk' hcap]
    exact Nat.mod_lt _ (Nat.succ_pos _)

/-! ### `find` on twins -/

theorem Twin.indexOf_eq (h : Twin r t) (pos n : ℕ) : r.indexOf pos n = t.indexOf pos n := by
  rw [indexOf, indexOf, h.capacity_eq]

/-- The inner loop of `find` reads bytes of the contents only. -/
theorem Twin.scan_eq (h : Twin r t) (target : List Byte) {i j n : ℕ} (hij : j + i ≤ r.size) :
    r.scan target j i n = t.scan target j i n ∧
      r.scan target j i n ≠ .error .outOfBounds := by
  have hcap := h.wf.cap_lt
  have hget := h.wf.get_le
  have hsize := h.wf.size_le
  induction n generalizing i with
  | zero => exact ⟨rfl, by simp [scan]⟩
  | succ n ih =>
      have hidx : r.indexOf (SizeT.add j r.getPos) i =
          (r.getPos + (j + i)) % (r.capacity + 1) := by
        rw [SizeT.add_eq (by omega), h.wf.indexOf_eq (by omega),
          show j + r.getPos + i = r.getPos + (j + i) by omega]
      have hidx' : t.indexOf (SizeT.add j t.getPos) i =
          (r.getPos + (j + i)) % (r.capacity + 1) := by
        rw [← h.indexOf_eq, ← h.get_eq, hidx]
      rw [scan, scan, hidx, hidx', ← h.put_eq]
      by_cases hend : (r.getPos + (j + i)) % (r.capacity + 1) = r.putPos
      case pos => rw [if_pos hend, if_pos hend]; exact ⟨rfl, by simp⟩
      case neg =>
        -- before the end of the contents both buffers hold the same byte
        have hlt : j + i < r.size := by
          rcases Nat.lt_or_eq_of_le hij with hlt | heq
          · exact hlt
          · rw [heq, h.wf.get_add_size] at hend
            exact absurd rfl hend
        have hload := load_ok (h.held _ hlt)
        have hload' : load t.data ((r.getPos + (j + i)) % (r.capacity + 1)) =
            .ok (r.data.getD ((r.getPos + (j + i)) % (r.capacity + 1)) 0) := by
          rw [h.cell_eq hlt, h.get_eq, h.capacity_eq]
          exact load_ok (h.held' _ (by rw [← h.size_eq]; exact hlt))
        rw [if_neg hend, if_neg hend, hload, hload', ok_bind, ok_bind]
        by_cases harg : i < (target ++ [0]).length
        case neg =>
          have hfail : loadArg (target ++ [0]) i = .error .badArgument := if_neg harg
          rw [hfail, error_bind, error_bind]
          exact ⟨rfl, by simp⟩
        case pos =>
          rw [loadArg_ok harg, ok_bind, ok_bind]
          split
          · exact ⟨rfl, by simp⟩
          · exact ih (by omega)

theorem Twin.findFrom_eq (h : Twin r t) (target : List Byte) (len : ℕ) {j n : ℕ}
    (hjn : j + n ≤ r.size) :
    r.findFrom target len j n = t.findFrom target len j n ∧
      r.findFrom target len j n ≠ .error .outOfBounds := by
  induction n generalizing j with
  | zero => exact ⟨rfl, by simp [findFrom]⟩
  | succ n ih =>
      obtain ⟨hscan, hne⟩ := h.scan_eq target (i := 0) (j := j) (n := len) (by omega)
      rw [findFrom, findFrom, ← hscan]
      cases hcase : r.scan target j 0 len with
      | error e =>
          rw [error_bind, error_bind]
          refine ⟨rfl, fun he => hne ?_⟩
          injection he with he
          rw [hcase, he]
      | ok found =>
          cases found with
          | none => exact ⟨rfl, by simp⟩
          | some i =>
              simp only [ok_bind]
              split
              · exact ⟨rfl, by simp⟩
              · exact ih (by omega)

theorem Twin.find_eq (h : Twin r t) (target : List Byte) :
    r.find target = t.find target ∧ r.find target ≠ .error .outOfBounds := by
  rw [find, find, ← h.size_eq]
  exact h.findFrom_eq target _ (by omega)

/-! ### One call on twins -/

theorem Twin.step_error (junk : ℕ → Byte) (h : Twin r t) {op : Op} (hvalid : op.Valid)
    (hlast : r.ReachesLastCell op) : r.step junk op = .error .outOfBounds := by
  cases op with
  | find target => exact hlast.elim
  | reset newCapacity => exact hlast.elim
  | queue op =>
      cases op with
      | read s n => exact hlast.elim
      | skip n => exact hlast.elim
      | clear => exact hlast.elim
      | write s n =>
          have hput := h.wf.put_le
          have hacc : r.accepted n ≤ n := Nat.min_le_left ..
          have hs : n ≤ s.length := hvalid
          simp only [ReachesLastCell] at hlast
          -- the byte that goes to the cell with index `capacity_`
          have hout : ∃ i < r.accepted n,
              r.data.length ≤ (r.putPos + i) % (r.capacity + 1) := by
            refine ⟨r.capacity - r.putPos, by omega, ?_⟩
            rw [Nat.add_sub_cancel' hput, Nat.mod_eq_of_lt (by omega), h.alloc]
          rw [step, queueStep, write_error h.wf (by omega) hout, error_bind]

theorem Twin.write (junk : ℕ → Byte) (h : Twin r t) {s : List Byte} {n : ℕ} (hs : n ≤ s.length)
    (hshort : ¬ r.ReachesLastCell (.queue (.write s n))) :
    ∃ r' t', r.step junk (.queue (.write s n)) = .ok (.count (r.accepted n), r') ∧
      t.step junk (.queue (.write s n)) = .ok (.count (r.accepted n), t') ∧ Twin r' t' := by
  have hsize := h.size_eq
  have hacc : r.accepted n ≤ n := Nat.min_le_left ..
  have hacc' : t.accepted n = r.accepted n := by
    rw [accepted, accepted, h.capacity_eq, hsize]
  have hroom : r.size + r.accepted n ≤ r.capacity := by
    have := h.wf.size_le
    simp only [accepted]
    omega
  have hlen : (s.take (r.accepted n)).length = r.accepted n := by
    rw [List.length_take]
    omega
  simp only [ReachesLastCell, not_lt] at hshort
  have halloc := h.alloc
  have halloc' := h.alloc'
  have hputs := h.put_eq
  have hcaps := h.capacity_eq
  refine ⟨_, _, ?_, ?_, h.extend (s.take (r.accepted n)) (by omega) (by omega)⟩
  · rw [step, queueStep, write_eq h.wf (by omega), ok_bind]
    intro i hi
    rw [Nat.mod_eq_of_lt (by omega)]
    omega
  · rw [step, queueStep, write_eq h.wf' (by omega), ok_bind, hacc']
    intro i hi
    rw [hacc'] at hi
    rw [Nat.mod_eq_of_lt (by omega)]
    omega

/-- Any other call answers alike on twins and leaves twins, or both throw alike. -/
theorem Twin.step_eq (junk : ℕ → Byte) (h : Twin r t) {op : Op} (hvalid : op.Valid)
    (hshort : ¬ r.ReachesLastCell op) :
    (∃ res r' t', r.step junk op = .ok (res, r') ∧ t.step junk op = .ok (res, t') ∧
      Twin r' t') ∨
    ∃ e, r.step junk op = .error e ∧ t.step junk op = .error e ∧ e ≠ .outOfBounds := by
  have hsize := h.size_eq
  cases op with
  | find target =>
      obtain ⟨heq, hne⟩ := h.find_eq target
      cases hcase : r.find target with
      | ok i =>
          refine .inl ⟨.index i, r, t, ?_, ?_, h⟩
          · rw [step, hcase, ok_bind]
          · rw [step, ← heq, hcase, ok_bind]
      | error e =>
          refine .inr ⟨e, ?_, ?_, fun he => hne (by rw [hcase, he])⟩
          · rw [step, hcase, error_bind]
          · rw [step, ← heq, hcase, error_bind]
  | reset newCapacity =>
      by_cases hcap : newCapacity < 2 ^ 63
      case pos =>
        have hlen : (r.contents.take newCapacity).length ≤ newCapacity := by simp
        refine .inl ⟨.none, _, _, ?_, ?_, twin_resized junk hlen hcap⟩
        · rw [step, reset_eq junk h.wf hcap (h.held.keepsHeld _), ok_bind]
        · rw [step, reset_eq junk h.wf' hcap (h.held'.keepsHeld _), ok_bind, h.contents_eq]
      case neg =>
        have hfail : allocatable newCapacity = false := by simpa [allocatable] using hcap
        refine .inr ⟨.badAlloc, ?_, ?_, by decide⟩ <;> simp [step, reset, hfail]
  | queue op =>
      refine .inl ?_
      cases op with
      | write s n =>
          obtain ⟨r', t', hstep, hstep', htwin⟩ := h.write junk hvalid hshort
          exact ⟨.count (r.accepted n), r', t', hstep, hstep', htwin⟩
      | read s n =>
          have hs : n ≤ s.length := hvalid
          have hk : min n r.size ≤ r.size := Nat.min_le_right ..
          refine ⟨.copied (min n r.size) (r.contents.take n ++ s.drop (min n r.size)), _, _, ?_, ?_,
            h.advance hk⟩
          · rw [step, queueStep, read_of_held h.wf h.held (by omega), ok_bind]
            rfl
          · rw [step, queueStep, read_of_held h.wf' h.held' (by omega), ok_bind, ← h.contents_eq,
              ← hsize]
            rfl
      | skip n =>
          have hk : min n r.size ≤ r.size := Nat.min_le_right ..
          refine ⟨.count (min n r.size), _, _, ?_, ?_, h.advance hk⟩
          · rw [step, queueStep, read_none h.wf, ok_bind]
          · rw [step, queueStep, read_none h.wf', ok_bind, ← hsize]
      | clear => exact ⟨.none, r.clear, t.clear, rfl, rfl, h.clear⟩

/-! ### Runs after a reset -/

/-- The calls answer alike on both buffers, faults included, and none touches an index past
the array of the first. -/
def BehavesLike (junk : ℕ → Byte) (r t : Buffer) (ops : List Op) : Prop :=
  (run (step junk) r ops).map Prod.fst = (run (step junk) t ops).map Prod.fst ∧
    run (step junk) r ops ≠ .error .outOfBounds

/-- `reset(newCapacity)` keeps the first bytes of the contents, and the calls after it do what
they do to a new buffer into which these bytes were written. -/
def RebuildsLike (junk junk' : ℕ → Byte) (b : Buffer) (newCapacity : ℕ) (ops : List Op) : Prop :=
  ∃ r t, reset junk b newCapacity = .ok r ∧
    r.contents = b.contents.take (min b.size newCapacity) ∧
    (new junk' newCapacity).write (some r.contents) r.contents.length =
      .ok (r.contents.length, t) ∧
    BehavesLike junk r t ops

/-- A new buffer takes the bytes that a reset keeps. -/
theorem write_kept (junk' : ℕ → Byte) {newCapacity : ℕ} (hcap : newCapacity < 2 ^ 63)
    {xs : List Byte} (hlen : xs.length ≤ newCapacity) :
    (new junk' newCapacity).write (some xs) xs.length =
      .ok (xs.length, (new junk' newCapacity).extend xs) := by
  have hacc : (new junk' newCapacity).accepted xs.length = xs.length := by
    rw [accepted, new_size junk' hcap]
    exact Nat.min_eq_left hlen
  have hwrite := write_of_alloc (new_wf junk' hcap) (new_alloc junk' hcap) (s := xs) (le_of_eq hacc)
  rw [hacc, List.take_length] at hwrite
  exact hwrite

/-- A reset does what building the buffer anew does exactly when the bytes it keeps lie inside
the array and no later write reaches the last cell of the ring. -/
theorem reset_behaves_like_rebuilt_iff (junk junk' : ℕ → Byte) (b : Buffer) (h : b.Wf)
    (newCapacity : ℕ) (hcap : newCapacity < 2 ^ 63) (ops : List Op)
    (hops : ∀ op ∈ ops, op.Valid) :
    RebuildsLike junk junk' b newCapacity ops ↔
      b.KeepsHeld newCapacity ∧
        ∀ r, reset junk b newCapacity = .ok r →
          Along (step junk) (fun s op => ¬ s.ReachesLastCell op) r ops := by
  by_cases hkept : b.KeepsHeld newCapacity
  case neg =>
    -- `reset` itself reads past the array
    have hfault := reset_error junk h hcap hkept
    refine iff_of_false ?_ fun hall => hkept hall.1
    rintro ⟨r, t, hreset, -⟩
    rw [hfault] at hreset
    cases hreset
  case pos =>
    have hlen : (b.contents.take newCapacity).length ≤ newCapacity := by simp
    have hreset := reset_eq junk h hcap hkept
    have hcontents := resized_contents junk hlen hcap
    have hwrite := write_kept junk' hcap hlen
    have hagree : BehavesLike junk (resized junk (b.contents.take newCapacity) newCapacity)
        ((new junk' newCapacity).extend (b.contents.take newCapacity)) ops ↔
          Along (step junk) (fun s op => ¬ s.ReachesLastCell op)
            (resized junk (b.contents.take newCapacity) newCapacity) ops :=
      answers_agree_iff (R := Twin) (fun r t op hR hV hP => hR.step_eq junk hV hP)
        (fun r t op hR hV hP => hR.step_error junk hV (not_not.mp hP))
        (twin_rebuilt junk junk' hlen hcap) hops
    constructor
    · rintro ⟨r, t, hr, -, ht, hbehaves⟩
      refine ⟨hkept, fun r' hr' => ?_⟩
      rw [hreset] at hr hr'
      injection hr with hr
      injection hr' with hr'
      subst hr hr'
      rw [hcontents, hwrite] at ht
      injection ht with ht
      rw [← (Prod.mk.inj ht).2] at hbehaves
      exact hagree.mp hbehaves
    · rintro ⟨-, halong⟩
      refine ⟨_, _, hreset, ?_, ?_, hagree.mpr (halong _ hreset)⟩
      · rw [hcontents, List.take_eq_take_iff]
        simp [Nat.min_comm]
      · rw [hcontents]
        exact hwrite

theorem reset_behaves_like_rebuilt_wrapped :
    RebuildsLike (fun _ => 0) (fun _ => 9) wrapped 5
        [.queue (.write [67] 1), .find [66, 67], .queue (.read [0, 0] 2)] ↔
      wrapped.KeepsHeld 5 ∧
        ∀ r, reset (fun _ => 0) wrapped 5 = .ok r →
          Along (step fun _ => 0) (fun s op => ¬ s.ReachesLastCell op) r
            [.queue (.write [67] 1), .find [66, 67], .queue (.read [0, 0] 2)] :=
  reset_behaves_like_rebuilt_iff (fun _ => 0) (fun _ => 9) wrapped wrapped_wf 5 (by decide)
    [.queue (.write [67] 1), .find [66, 67], .queue (.read [0, 0] 2)]
    (by simp [Op.Valid, QueueOp.Valid])

/-- An empty buffer of capacity 1 reset to the same capacity: one byte in, out, and the next
byte is stored past the array, where the rebuilt buffer takes it. -/
theorem reset_overruns_last_cell :
    ¬ RebuildsLike (fun _ => 0) (fun _ => 0) (new (fun _ => 0) 1) 1
        [.queue (.write [5] 1), .queue (.skip 1), .queue (.write [6] 1)] := by
  rintro ⟨r, t, hreset, -, -, -, hinside⟩
  have hr : reset (fun _ => 0) (new (fun _ => 0) 1) 1 = .ok ⟨1, 0, 0, [0]⟩ := by decide +kernel
  rw [hr] at hreset
  injection hreset with hreset
  subst hreset
  exact hinside (by decide +kernel)

end Buffer

end LpNet
