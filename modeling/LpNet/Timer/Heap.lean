import LpNet.Lib.BinaryHeap
import LpNet.Timer.TaskSet

/-!
The class `TimerTaskHeap`.

The loops get as many rounds as the array has cells, and a loop that needs more
faults. `remove` sifts the removed task down to a cell without children and then
drops the last cell, which is the same one only on some paths; `moveDown` never
moves its `cur`, so that it sifts by one level. `Keeps` is the condition under
which a call does to the array what it should, and `heapStep_refines` says that it
then does to the tasks what the call does to a set of tasks.
-/

namespace LpNet

open BinaryHeap Transition

structure TimerTaskHeap (Cb : Type) where
  data : List (TimerTask Cb)
  capacity : ℕ
  size : ℕ
  deriving DecidableEq, Repr

namespace TimerTaskHeap

variable {Cb : Type}

abbrev timeAt (data : List (TimerTask Cb)) : ℕ → ℕ := keys TimerTask.expiredTime data

/-- The constructor, with `size_` started at 0. -/
def new (Cb : Type) (capacity : ℕ) : TimerTaskHeap Cb :=
  ⟨List.replicate capacity default, capacity, 0⟩

def top (h : TimerTaskHeap Cb) : TimerTask Cb :=
  if h.data.isEmpty then default else h.data.getD 0 default

/-- `indexOf(id)`, with `none` for -1. -/
def indexOf (h : TimerTaskHeap Cb) (id : ℕ) : Option ℕ :=
  (h.data.take h.size).findIdx? fun task => task.id == id

def moveUpFrom : ℕ → List (TimerTask Cb) → ℕ → Except Fault (List (TimerTask Cb))
  | 0, _, _ => .error .diverges
  | rounds + 1, data, cur =>
      let pa := (cur - 1) / 2
      if 0 < cur ∧ timeAt data cur < timeAt data pa then
        moveUpFrom rounds (swap data cur pa) pa
      else .ok data

def moveUp (h : TimerTaskHeap Cb) (idx : ℕ) : Except Fault (TimerTaskHeap Cb) :=
  if idx = 0 then .ok h
  else do
    let data ← moveUpFrom (h.size + 1) h.data idx
    .ok { h with data := data }

def moveDownFrom (size cur : ℕ) :
    ℕ → List (TimerTask Cb) → ℕ → Except Fault (List (TimerTask Cb))
  | 0, _, _ => .error .diverges
  | rounds + 1, data, child =>
      if child < size then
        let child :=
          if child + 1 < size ∧ timeAt data child > timeAt data (child + 1) then child + 1
          else child
        -- after an exchange the loop goes on with the same two cells
        if timeAt data child < timeAt data cur then
          moveDownFrom size cur rounds (swap data child cur) child
        else .ok data
      else .ok data

def moveDown (h : TimerTaskHeap Cb) (idx : ℕ) : Except Fault (TimerTaskHeap Cb) := do
  let data ← moveDownFrom h.size idx (h.size + 1) h.data (idx * 2 + 1)
  .ok { h with data := data }

def add (h : TimerTaskHeap Cb) (task : TimerTask Cb) :
    Except Fault (ℕ × TimerTaskHeap Cb) :=
  if h.size < h.data.length then do
    let h ← moveUp { h with data := h.data.set h.size task, size := h.size + 1 } h.size
    .ok (task.id, h)
  else .error .outOfBounds

/-- The loop of `remove`. -/
def siftOut (size : ℕ) : ℕ → List (TimerTask Cb) → ℕ → Except Fault (List (TimerTask Cb))
  | 0, _, _ => .error .diverges
  | rounds + 1, data, pa =>
      let child := pa * 2 + 1
      if child < size then
        let child :=
          if child + 1 < size ∧ timeAt data child > timeAt data (child + 1) then child + 1
          else child
        siftOut size rounds (swap data child pa) child
      else .ok data

def remove (h : TimerTaskHeap Cb) (id : ℕ) : Except Fault (Bool × TimerTaskHeap Cb) :=
  match h.indexOf id with
  | none => .ok (false, h)
  | some idx => do
      let data ← siftOut h.size (h.size + 1) h.data idx
      -- the last cell is given up, be the removed task in it or another
      .ok (true, { h with data := data, size := h.size - 1 })

def modify (h : TimerTaskHeap Cb) (id duration : ℕ) (cycled : Bool) (now : ℕ) :
    Except Fault (Bool × TimerTaskHeap Cb) :=
  match h.indexOf id with
  | none => .ok (false, h)
  | some idx => do
      let task := ((h.data.getD idx default).setExpiredTime now duration).setCycle cycled
      let h := { h with data := h.data.set idx task }
      if idx = 0 then do
        let h ← h.moveDown idx
        .ok (true, h)
      else
        let pa := (idx - 1) / 2
        if timeAt h.data pa < timeAt h.data idx then do
          let h ← h.moveDown idx
          .ok (true, h)
        else do
          let h ← h.moveUp idx
          .ok (true, h)

def pop (h : TimerTaskHeap Cb) : Except Fault (Bool × TimerTaskHeap Cb) :=
  if h.size = 0 then .ok (false, h)
  else do
    let (_, h) ← h.remove (h.data.getD 0 default).id
    .ok (true, h)

/-- `pop(task)`. Answers what is stored in `task`, or `none` for false. -/
def popTask (h : TimerTaskHeap Cb) (now : ℕ) :
    Except Fault (Option (TimerTask Cb) × TimerTaskHeap Cb) :=
  if h.size = 0 then .ok (none, h)
  else do
    let task := h.data.getD 0 default
    let (_, h) ← h.remove task.id
    if task.cycled then do
      let task := task.setExpiredTime now task.duration
      let (_, h) ← h.add task
      .ok (some task, h)
    else .ok (some task, h)

def perform (h : TimerTaskHeap Cb) :
    TimerOp Cb → Except Fault (TimerResult Cb × TimerTaskHeap Cb)
  | .add task => do
      let (id, h) ← h.add task
      .ok (.added id, h)
  | .remove id => do
      let (ok, h) ← h.remove id
      .ok (.done ok, h)
  | .modify id duration cycled now => do
      let (ok, h) ← h.modify id duration cycled now
      .ok (.done ok, h)
  | .pop => do
      let (ok, h) ← h.pop
      .ok (.done ok, h)
  | .popTask now => do
      let (task, h) ← h.popTask now
      .ok (.popped task, h)

def heapStep (h : TimerTaskHeap Cb) (op : TimerOp Cb) :
    Except Fault (TimerAnswer Cb × TimerTaskHeap Cb) := do
  let (result, h) ← h.perform op
  .ok (⟨result, h.size, if h.size = 0 then none else some h.top⟩, h)

/-! ### The loops -/

variable {data : List (TimerTask Cb)} {n cur : ℕ}

/-- Both sifts down look at the lesser child. -/
theorem child_eq (data : List (TimerTask Cb)) (n pa : ℕ) :
    (if pa * 2 + 1 + 1 < n ∧ timeAt data (pa * 2 + 1) > timeAt data (pa * 2 + 1 + 1) then
        pa * 2 + 1 + 1 else pa * 2 + 1) = lesserChild (timeAt data) n pa := by
  rw [lesserChild, Nat.mul_comm pa 2]

/-- What a loop leaves behind: the same tasks in the first `n` cells of an array of the same
length. -/
structure Rearranged (n : ℕ) (data data' : List (TimerTask Cb)) : Prop where
  length_eq : data'.length = data.length
  perm : (data'.take n).Perm (data.take n)

theorem Rearranged.refl (n : ℕ) (data : List (TimerTask Cb)) : Rearranged n data data :=
  ⟨rfl, .refl _⟩

theorem Rearranged.trans {data' data'' : List (TimerTask Cb)} (h : Rearranged n data data')
    (h' : Rearranged n data' data'') : Rearranged n data data'' :=
  ⟨h'.length_eq.trans h.length_eq, h'.perm.trans h.perm⟩

theorem rearranged_swap {x y : ℕ} (hn : n ≤ data.length) (hx : x < n) (hy : y < n) :
    Rearranged n data (swap data x y) :=
  ⟨swap_length .., take_swap_perm hn hx hy⟩

/-- `moveUp` ends with the same tasks, and restores the order when only the parent of its cell can
be late. -/
theorem moveUpFrom_spec (rounds : ℕ) (hn : n ≤ data.length) (hcur : cur < n)
    (hrounds : cur < rounds) :
    ∃ data', moveUpFrom rounds data cur = .ok data' ∧ Rearranged n data data' ∧
      (Hole (timeAt data) n cur → AboveChildren (timeAt data) n cur →
        Ordered (timeAt data') n) := by
  induction rounds generalizing data cur with
  | zero => exact absurd hrounds (Nat.not_lt_zero _)
  | succ rounds ih =>
      rw [moveUpFrom]
      split
      case isTrue hup =>
        obtain ⟨hpos, hlt⟩ := hup
        have hp : parent cur < cur := parent_lt hpos
        have hkeys := keys_swap TimerTask.expiredTime (x := cur) (y := parent cur)
          (by omega : cur < data.length) (by omega)
        have hswap := rearranged_swap hn hcur (by omega : parent cur < n)
        obtain ⟨data', hloop, hperm, hord⟩ :=
          ih (by rw [swap_length]; exact hn : n ≤ (swap data cur (parent cur)).length)
            (by omega : parent cur < n) (by omega)
        refine ⟨data', hloop, hswap.trans hperm, fun hhole habove => ?_⟩
        -- the hole moves to the parent, and its children are not earlier than the task
        obtain ⟨hhole', habove'⟩ := hhole.swap_up habove hpos hcur hlt
        rw [timeAt, ← hkeys] at hhole' habove'
        exact hord hhole' habove'
      case isFalse hstop =>
        refine ⟨data, rfl, .refl n data, fun hhole habove => hhole.ordered habove fun hpos => ?_⟩
        exact not_lt.mp fun hlt => hstop ⟨hpos, hlt⟩

/-- The loop of `remove` ends where the lesser children lead to, with the removed task
there, and if there was order, the hole is there too. -/
theorem siftOut_spec (rounds : ℕ) {pa last : ℕ} (hn : n ≤ data.length) (hpa : pa < n)
    (hrounds : n < pa + rounds) (hleads : LeadsTo (timeAt data) n pa last) :
    ∃ data', siftOut n rounds data pa = .ok data' ∧ Rearranged n data data' ∧ last < n ∧
      data'.getD last default = data.getD pa default ∧
      (Hole (timeAt data) n pa → Hole (timeAt data') n last) := by
  induction rounds generalizing data pa with
  | zero => omega
  | succ rounds ih =>
      rw [siftOut]
      dsimp only
      cases hleads with
      | leaf hleaf =>
          rw [if_neg (by omega)]
          exact ⟨data, rfl, .refl n data, hpa, rfl, id⟩
      | down hchild hrest =>
          rw [if_pos (by omega), child_eq]
          have hcn := lesserChild_lt (k := timeAt data) hchild
          have hgt := lt_lesserChild (timeAt data) n pa
          have hdown := fun hhole : Hole (timeAt data) n pa => hhole.swap_down hchild
          generalize lesserChild (timeAt data) n pa = child at *
          have hlen : child < data.length := by omega
          have hkeys := keys_swap TimerTask.expiredTime hlen (by omega : pa < data.length)
          rw [timeAt, ← hkeys] at hdown
          -- the exchange is above the rest of the path
          have hleads' : LeadsTo (timeAt (swap data child pa)) n child last := by
            refine hrest.congr fun l hl => ?_
            rw [timeAt, hkeys]
            simp only [Function.comp_apply]
            rw [Equiv.swap_apply_of_ne_of_ne (by omega) (by omega)]
          have hswap := rearranged_swap hn hcn hpa
          obtain ⟨data', hloop, hperm, hlt, hget, hlast⟩ :=
            ih (by rw [swap_length]; exact hn) hcn (by omega) hleads'
          refine ⟨data', hloop, hswap.trans hperm, hlt, ?_, fun hhole => hlast (hdown hhole)⟩
          rw [hget, getD_swap hlen (by omega), Equiv.swap_apply_left]

/-- A deadline `x` in cell `cur` is in place at once or one level down: no child is earlier,
or the lesser child is and none of its own children; and where that child is the right one,
`moveDown` does not go on to take the cell next to it for a child of `cur`. -/
def Settles (k : ℕ → ℕ) (n cur x : ℕ) : Prop :=
  n ≤ 2 * cur + 1 ∨ x ≤ k (lesserChild k n cur) ∨
    AboveChildren (Function.update k (lesserChild k n cur) x) n (lesserChild k n cur) ∧
      (lesserChild k n cur = 2 * cur + 2 → 2 * cur + 3 < n → k (2 * cur + 3) < x →
        k (lesserChild k n cur) ≤ k (2 * cur + 3))

instance (k : ℕ → ℕ) (n cur x : ℕ) : Decidable (Settles k n cur x) := by
  unfold Settles
  infer_instance

theorem Settles.congr {k k' : ℕ → ℕ} {x : ℕ} (h : Settles k n cur x)
    (hk : ∀ i, cur < i → k' i = k i) : Settles k' n cur x := by
  have hgt := lt_lesserChild k n cur
  rw [Settles, lesserChild_congr hk, hk _ hgt, hk _ (by omega)]
  refine h.imp_right (Or.imp_right fun hmove => ⟨?_, hmove.2⟩)
  intro i hpos hi hparent
  have hlt := parent_lt hpos
  have hi' := hmove.1 i hpos hi hparent
  rw [Function.update_self, Function.update_of_ne (by omega)] at hi' ⊢
  rw [hk _ (by omega)]
  exact hi'

/-- The loop of `moveDown` ends where neither of the two cells it compares is earlier. -/
theorem moveDownFrom_stays (rounds : ℕ) {child : ℕ} (hchild : timeAt data cur ≤ timeAt data child)
    (hnext : child + 1 < n → timeAt data (child + 1) < timeAt data child →
      timeAt data cur ≤ timeAt data (child + 1)) :
    moveDownFrom n cur (rounds + 1) data child = .ok data := by
  rw [moveDownFrom]
  dsimp only
  split
  case isFalse => rfl
  case isTrue =>
    split
    case isTrue hlater => exact if_neg (not_lt.mpr (hnext hlater.1 hlater.2))
    case isFalse => exact if_neg (not_lt.mpr hchild)

/-- `moveDown` ends, and restores the order when the deadline in its cell settles. -/
theorem moveDownFrom_spec (rounds : ℕ) (hn : n ≤ data.length) (hcur : cur < n)
    (hrounds : 2 ≤ rounds) (hhole : Hole (timeAt data) n cur)
    (hbelow : BelowParent (timeAt data) cur)
    (hsettles : Settles (timeAt data) n cur (timeAt data cur)) :
    ∃ data', moveDownFrom n cur rounds data (cur * 2 + 1) = .ok data' ∧
      Rearranged n data data' ∧ Ordered (timeAt data') n := by
  obtain ⟨rounds, rfl⟩ : ∃ r, rounds = r + 2 := ⟨rounds - 2, by omega⟩
  rw [moveDownFrom]
  dsimp only
  by_cases hleaf : n ≤ 2 * cur + 1
  case pos =>
    rw [if_neg (by omega)]
    refine ⟨data, rfl, .refl n data, hhole.ordered (fun i hpos hi hparent => ?_) hbelow⟩
    have := (parent_eq_iff hpos).mp hparent
    omega
  rw [if_pos (by omega), child_eq]
  have hchild : 2 * cur + 1 < n := by omega
  have hcn := lesserChild_lt (k := timeAt data) hchild
  have hgt := lt_lesserChild (timeAt data) n cur
  have hor := lesserChild_eq_or (timeAt data) n cur
  have hle := fun j => lesserChild_le (k := timeAt data) (n := n) (i := cur) (j := j)
  have hparent := parent_lesserChild (timeAt data) n cur
  have hhole' := hhole.swap_down hchild
  rw [Settles] at hsettles
  generalize lesserChild (timeAt data) n cur = child at *
  split
  case isFalse hstay =>
    refine ⟨data, rfl, .refl n data, hhole.ordered (fun i hpos hi hpi => ?_) hbelow⟩
    exact le_trans (not_lt.mp hstay) (hle i hpos hi hpi)
  case isTrue hdown =>
    -- one exchange, after which `child` holds the moved task and `cur` its former one
    obtain ⟨habove, hcousin⟩ : AboveChildren
        (Function.update (timeAt data) child (timeAt data cur)) n child ∧
        (child = 2 * cur + 2 → 2 * cur + 3 < n → timeAt data (2 * cur + 3) < timeAt data cur →
          timeAt data child ≤ timeAt data (2 * cur + 3)) := by
      rcases hsettles with h | h | h
      · omega
      · omega
      · exact h
    have hlen : child < data.length := by omega
    have hlen' : cur < data.length := by omega
    have hat_child : timeAt (swap data child cur) child = timeAt data cur :=
      keys_swap_left _ hlen hlen'
    have hat_cur : timeAt (swap data child cur) cur = timeAt data child :=
      keys_swap_right _ hlen hlen'
    have hat_off : ∀ i, i ≠ child → i ≠ cur → timeAt (swap data child cur) i = timeAt data i :=
      fun i hic hicur => keys_swap_of_ne _ hlen hlen' hic hicur
    rw [timeAt, ← keys_swap _ hlen hlen'] at hhole'
    refine ⟨swap data child cur, ?_, rearranged_swap hn hcn hcur,
      hhole'.ordered (fun i hpos hi hpi => ?_) fun _ => ?_⟩
    · -- the second round finds nothing earlier than the new task in `cur`
      refine moveDownFrom_stays rounds ?_ fun hnext_lt hnext => ?_
      · rw [hat_cur, hat_child]
        exact hdown.le
      · rw [hat_child, hat_off _ (by omega) (by omega)] at hnext
        rw [hat_cur, hat_off _ (by omega) (by omega)]
        rcases hor with rfl | rfl
        · exact hle _ (by omega) hnext_lt ((parent_eq_iff (by omega)).mpr (.inr rfl))
        · exact hcousin rfl hnext_lt hnext
    · have hlt := parent_lt hpos
      have hmove := habove i hpos hi hpi
      rw [Function.update_self, Function.update_of_ne (by omega)] at hmove
      show timeAt (swap data child cur) child ≤ timeAt (swap data child cur) i
      rw [hat_child, hat_off i (by omega) (by omega)]
      exact hmove
    · show timeAt (swap data child cur) (parent child) ≤ timeAt (swap data child cur) child
      rw [hparent, hat_cur, hat_child]
      exact hdown.le

/-- Once the task in `cur` is not later than the one in `child`, every further exchange is with
the cell after it, and `moveDown` ends. -/
theorem moveDownFrom_settled (rounds : ℕ) {child : ℕ} (hn : n ≤ data.length) (hcur : cur < n)
    (hchild : cur < child) (hrounds : n ≤ child + rounds)
    (hle : timeAt data cur ≤ timeAt data child) :
    ∃ data', moveDownFrom n cur (rounds + 1) data child = .ok data' ∧ Rearranged n data data' := by
  induction rounds generalizing data child with
  | zero =>
      rw [moveDownFrom]
      dsimp only
      rw [if_neg (by omega)]
      exact ⟨data, rfl, .refl n data⟩
  | succ rounds ih =>
      rw [moveDownFrom]
      dsimp only
      split
      case isFalse => exact ⟨data, rfl, .refl n data⟩
      case isTrue hin =>
        split
        case isTrue hnext =>
          split
          case isTrue hlt =>
            have hswap := rearranged_swap hn hnext.1 hcur
            have hle' : timeAt (swap data (child + 1) cur) cur ≤
                timeAt (swap data (child + 1) cur) (child + 1) := by
              rw [timeAt, keys_swap_left _ (by omega) (by omega),
                keys_swap_right _ (by omega) (by omega)]
              exact hlt.le
            obtain ⟨data', hloop, hre⟩ :=
              ih (by rw [swap_length]; exact hn) (by omega : cur < child + 1) (by omega) hle'
            exact ⟨data', hloop, hswap.trans hre⟩
          case isFalse => exact ⟨data, rfl, .refl n data⟩
        case isFalse =>
          rw [if_neg (not_lt.mpr hle)]
          exact ⟨data, rfl, .refl n data⟩

/-- `moveDown` ends with the same tasks, wherever it leaves them. -/
theorem moveDownFrom_rearranged (rounds : ℕ) {child : ℕ} (hn : n ≤ data.length) (hcur : cur < n)
    (hchild : cur < child) (hrounds : n ≤ child + rounds) :
    ∃ data', moveDownFrom n cur (rounds + 2) data child = .ok data' ∧ Rearranged n data data' := by
  rw [moveDownFrom]
  dsimp only
  split
  case isFalse => exact ⟨data, rfl, .refl n data⟩
  case isTrue hin =>
    have hnext : (if child + 1 < n ∧ timeAt data child > timeAt data (child + 1) then child + 1
        else child) < n ∧ child ≤ (if child + 1 < n ∧
        timeAt data child > timeAt data (child + 1) then child + 1 else child) := by
      split
      case isTrue hright => exact ⟨hright.1, by omega⟩
      case isFalse => exact ⟨hin, le_refl _⟩
    generalize (if child + 1 < n ∧ timeAt data child > timeAt data (child + 1) then child + 1
        else child) = next at hnext ⊢
    split
    case isFalse => exact ⟨data, rfl, .refl n data⟩
    case isTrue hlt =>
      have hswap := rearranged_swap hn hnext.1 hcur
      have hle : timeAt (swap data next cur) cur ≤ timeAt (swap data next cur) next := by
        rw [timeAt, keys_swap_left _ (by omega) (by omega),
          keys_swap_right _ (by omega) (by omega)]
        exact hlt.le
      obtain ⟨data', hloop, hre⟩ := moveDownFrom_settled rounds (by rw [swap_length]; exact hn)
        hcur (by omega : cur < next) (by omega) hle
      exact ⟨data', hloop, hswap.trans hre⟩

/-! ### The calls on a heap that holds a set of tasks -/

/-- The cells in use of an array of `capacity` many hold the tasks of the set, in heap order. -/
structure Holds (capacity : ℕ) (h : TimerTaskHeap Cb) (s : TaskSet Cb) : Prop where
  order : Ordered (timeAt h.data) h.size
  size_le : h.size ≤ h.data.length
  alloc : h.data.length = capacity
  perm : (h.data.take h.size).Perm s

variable {capacity : ℕ} {h : TimerTaskHeap Cb} {s : TaskSet Cb} {id idx : ℕ}

theorem holds_new (Cb : Type) (capacity : ℕ) : Holds capacity (new Cb capacity) [] where
  order := ordered_zero _
  size_le := Nat.zero_le _
  alloc := List.length_replicate
  perm := .refl _

theorem Holds.size_eq (hh : Holds capacity h s) : h.size = s.length := by
  have hle := hh.size_le
  rw [← hh.perm.length_eq, List.length_take]
  omega

theorem Holds.perm_cons (hh : Holds capacity h s) (hidx : idx < h.size) :
    s.Perm (h.data.getD idx default :: (h.data.take h.size).eraseIdx idx) :=
  hh.perm.symm.trans (take_perm_cons hh.size_le hidx)

theorem top_eq_getD (hle : h.size ≤ h.data.length) (hpos : 0 < h.size) :
    h.top = h.data.getD 0 default := by
  have hdata : h.data.isEmpty = false := by
    rw [List.isEmpty_eq_false_iff]
    intro hnil
    rw [hnil, List.length_nil] at hle
    omega
  rw [top, hdata]
  rfl

/-- No task of a heap in order is earlier than the root. -/
theorem first_le (horder : Ordered (timeAt h.data) h.size) :
    ∀ u ∈ h.data.take h.size, (h.data.getD 0 default).expiredTime ≤ u.expiredTime := by
  intro u hu
  obtain ⟨i, hi, rfl⟩ := List.getElem_of_mem hu
  have hi' : i < h.size := by
    rw [List.length_take] at hi
    omega
  have hroot := horder.root_le hi'
  rw [← List.getD_eq_getElem _ default hi, getD_take hi']
  exact hroot

theorem Holds.earliest_eq (hh : Holds capacity h s) (hs : s.Distinct) (hpos : 0 < h.size) :
    s.earliest = some (h.data.getD 0 default) := by
  refine TaskSet.earliest_eq hs (hh.perm_cons hpos) fun y hy => ?_
  exact first_le hh.order y (List.mem_of_mem_eraseIdx hy)

theorem Holds.top_eq (hh : Holds capacity h s) (hs : s.Distinct) :
    (if h.size = 0 then none else some h.top) = s.earliest := by
  split
  case isTrue hzero =>
    rw [hh.size_eq, List.length_eq_zero_iff] at hzero
    rw [hzero]
    rfl
  case isFalse hne =>
    have hpos : 0 < h.size := Nat.pos_of_ne_zero hne
    rw [hh.earliest_eq hs hpos, top_eq_getD hh.size_le hpos]

theorem Holds.indexOf_none (hh : Holds capacity h s) (hid : h.indexOf id = none) :
    ∀ y ∈ s, y.id ≠ id := by
  intro y hy
  rw [indexOf, List.findIdx?_eq_none_iff] at hid
  simpa using hid y (hh.perm.mem_iff.mpr hy)

theorem indexOf_some (hid : h.indexOf id = some idx) :
    idx < h.size ∧ (h.data.getD idx default).id = id := by
  rw [indexOf, List.findIdx?_eq_some_iff_getElem] at hid
  obtain ⟨hlt, heq, -⟩ := hid
  have hidx : idx < h.size := by
    rw [List.length_take] at hlt
    omega
  refine ⟨hidx, ?_⟩
  rw [← getD_take hidx, List.getD_eq_getElem _ _ hlt]
  simpa using heq

theorem indexOf_root (hpos : 0 < h.size) (hle : h.size ≤ h.data.length) :
    h.indexOf (h.data.getD 0 default).id = some 0 := by
  have hlen : 0 < (h.data.take h.size).length := by
    rw [List.length_take]
    omega
  rw [indexOf, List.findIdx?_eq_some_iff_getElem]
  refine ⟨hlen, ?_, fun j hj => absurd hj (Nat.not_lt_zero j)⟩
  rw [← getD_take hpos, List.getD_eq_getElem _ _ hlen]
  simp

theorem timeAt_set_self {task : TimerTask Cb} (hlen : idx < h.data.length) :
    timeAt (h.data.set idx task) idx = task.expiredTime := keys_set_self _ hlen task

theorem timeAt_set_of_ne {task : TimerTask Cb} {i : ℕ} (hi : i ≠ idx) :
    timeAt (h.data.set idx task) i = timeAt h.data i := keys_set_of_ne _ hi task

/-- The parent of the cell keeps its deadline, by the index that `modify` and the loops compute. -/
theorem timeAt_set_parent {task : TimerTask Cb} (hpos : 0 < idx) :
    timeAt (h.data.set idx task) ((idx - 1) / 2) = timeAt h.data (parent idx) :=
  timeAt_set_of_ne (parent_lt hpos).ne

theorem Holds.add (hh : Holds capacity h s) (hroom : s.length < capacity) (task : TimerTask Cb) :
    ∃ h', h.add task = .ok (task.id, h') ∧ Holds capacity h' (task :: s) := by
  have hsize := hh.size_eq
  have halloc := hh.alloc
  have hlt : h.size < h.data.length := by omega
  have hlt' : h.size + 1 ≤ (h.data.set h.size task).length := by
    rw [List.length_set]
    omega
  have hord : Ordered (timeAt (h.data.set h.size task)) h.size := by
    intro i hpos hi
    have hp := parent_lt hpos
    rw [timeAt_set_of_ne (by omega), timeAt_set_of_ne (by omega)]
    exact hh.order i hpos hi
  obtain ⟨hhole, habove⟩ := hord.hole_succ
  have hperm : ((h.data.set h.size task).take (h.size + 1)).Perm (task :: s) := by
    refine (take_succ_perm (by omega)).trans ?_
    rw [List.getD_eq_getElem _ _ (by omega), List.getElem_set_self, List.take_set_of_le (le_refl _)]
    exact hh.perm.cons task
  rw [TimerTaskHeap.add, if_pos hlt, moveUp]
  split
  case isTrue hzero =>
    refine ⟨_, rfl, ⟨?_, hlt', ?_, hperm⟩⟩
    · simp only [hzero]
      exact fun i hpos hi => absurd hi (by omega)
    · simpa using halloc
  case isFalse =>
    obtain ⟨data', hloop, hre, hord'⟩ :=
      moveUpFrom_spec (h.size + 1 + 1) hlt' (Nat.lt_succ_self h.size) (by omega)
    simp only [hloop, ok_bind]
    refine ⟨_, rfl, ⟨hord' hhole habove, ?_, ?_, hre.perm.trans hperm⟩⟩
    · rw [hre.length_eq]
      exact hlt'
    · rw [hre.length_eq, List.length_set]
      exact halloc

/-- `remove` takes out its task when the last cell is where the task is sifted to. -/
theorem Holds.remove (hh : Holds capacity h s) (hs : s.Distinct) (hid : h.indexOf id = some idx)
    (hleads : LeadsTo (timeAt h.data) h.size idx (h.size - 1)) :
    ∃ h', h.remove id = .ok (true, h') ∧ Holds capacity h' (s.without id) := by
  obtain ⟨hidx, hidx_id⟩ := indexOf_some hid
  have hle := hh.size_le
  obtain ⟨data', hloop, hre, hlast, hget, hhole⟩ :=
    siftOut_spec (h.size + 1) hle hidx (by omega) hleads
  have hhole := hhole (hh.order.hole hidx)
  obtain ⟨n, hn⟩ : ∃ n, h.size = n + 1 := ⟨h.size - 1, by omega⟩
  have hlen := hre.length_eq
  have hperm : s.Perm (h.data.getD idx default :: data'.take n) := by
    have hroom : n < data'.length := by omega
    have hsucc := take_succ_perm hroom
    rw [show n = h.size - 1 by omega, hget, show h.size - 1 + 1 = h.size by omega] at hsucc
    rw [show n = h.size - 1 by omega]
    exact (hh.perm.symm.trans hre.perm.symm).trans hsucc
  rw [TimerTaskHeap.remove, hid]
  simp only [hloop, ok_bind]
  refine ⟨_, rfl, ⟨?_, ?_, ?_, ?_⟩⟩
  · rw [hn] at hhole
    simp only [hn, Nat.add_sub_cancel] at hhole ⊢
    exact hhole.drop_last
  · rw [hlen]
    exact le_trans (Nat.sub_le ..) hle
  · rw [hlen]
    exact hh.alloc
  · have hwithout := TaskSet.without_perm hs hperm
    rw [hidx_id] at hwithout
    simp only [hn, Nat.add_sub_cancel]
    exact hwithout.symm

/-- The condition under which a call does to the array what it should. A removed task is sifted
to the last cell; a changed deadline that is not earlier than its parent's settles. -/
def Keeps (h : TimerTaskHeap Cb) : TimerOp Cb → Prop
  | .add _ => True
  | .remove id =>
      ∀ idx ∈ h.indexOf id, LeadsTo (timeAt h.data) h.size idx (h.size - 1)
  | .modify id duration _ now =>
      ∀ idx ∈ h.indexOf id,
        0 < idx ∧ SizeT.add now duration ≤ timeAt h.data (parent idx) ∨
          Settles (timeAt h.data) h.size idx (SizeT.add now duration)
  | .pop | .popTask _ => 0 < h.size → LeadsTo (timeAt h.data) h.size 0 (h.size - 1)

/-! `modify` stores the changed task in its cell and moves it. -/

section Store

variable {task : TimerTask Cb} {s' : TaskSet Cb}

/-- Storing a task leaves a hole in the order at its cell. -/
theorem Holds.hole_set (hh : Holds capacity h s) (hidx : idx < h.size) :
    Hole (timeAt (h.data.set idx task)) h.size idx :=
  (hh.order.hole hidx).congr fun _ hi => timeAt_set_of_ne hi

theorem Holds.of_rearranged (hh : Holds capacity h s)
    (hperm : ((h.data.set idx task).take h.size).Perm s') {data' : List (TimerTask Cb)}
    (hre : Rearranged h.size (h.data.set idx task) data')
    (hord : Ordered (timeAt data') h.size) : Holds capacity { h with data := data' } s' := by
  have hlength : data'.length = h.data.length := by rw [hre.length_eq, List.length_set]
  refine ⟨hord, ?_, ?_, hre.perm.trans hperm⟩
  · rw [hlength]
    exact hh.size_le
  · rw [hlength]
    exact hh.alloc

theorem Holds.moveDown_set (hh : Holds capacity h s) (hidx : idx < h.size)
    (hperm : ((h.data.set idx task).take h.size).Perm s')
    (hbelow : 0 < idx → timeAt h.data (parent idx) ≤ task.expiredTime)
    (hsettles : Settles (timeAt h.data) h.size idx task.expiredTime) :
    ∃ h', ({ h with data := h.data.set idx task } : TimerTaskHeap Cb).moveDown idx = .ok h' ∧
      Holds capacity h' s' := by
  have hle := hh.size_le
  have hself : timeAt (h.data.set idx task) idx = task.expiredTime :=
    timeAt_set_self (by omega)
  have hle' : h.size ≤ (h.data.set idx task).length := by
    rw [List.length_set]
    exact hle
  have hbelow' : BelowParent (timeAt (h.data.set idx task)) idx := by
    intro hpos
    rw [hself, parent, timeAt_set_parent hpos]
    exact hbelow hpos
  have hsettles' : Settles (timeAt (h.data.set idx task)) h.size idx
      (timeAt (h.data.set idx task) idx) := by
    rw [hself]
    exact hsettles.congr fun i hi => timeAt_set_of_ne (by omega)
  obtain ⟨data', hloop, hre, hord⟩ :=
    moveDownFrom_spec (h.size + 1) hle' hidx (by omega) (hh.hole_set hidx) hbelow' hsettles'
  refine ⟨{ h with data := data' }, ?_, hh.of_rearranged hperm hre hord⟩
  simp only [moveDown, hloop, ok_bind]

theorem Holds.moveUp_set (hh : Holds capacity h s) (hidx : idx < h.size)
    (hperm : ((h.data.set idx task).take h.size).Perm s') (hpos : 0 < idx)
    (hearly : task.expiredTime ≤ timeAt h.data (parent idx)) :
    ∃ h', ({ h with data := h.data.set idx task } : TimerTaskHeap Cb).moveUp idx = .ok h' ∧
      Holds capacity h' s' := by
  have hle := hh.size_le
  have hself : timeAt (h.data.set idx task) idx = task.expiredTime :=
    timeAt_set_self (by omega)
  have hle' : h.size ≤ (h.data.set idx task).length := by
    rw [List.length_set]
    exact hle
  have habove : AboveChildren (timeAt (h.data.set idx task)) h.size idx := by
    intro i hi hin hpi
    -- the children of a hole are not earlier than its parent
    refine le_trans ?_ ((hh.hole_set hidx).across hpos i hi hin hpi)
    rw [hself, parent, timeAt_set_parent hpos]
    exact hearly
  obtain ⟨data', hloop, hre, hord⟩ :=
    moveUpFrom_spec (h.size + 1) hle' hidx (by omega)
  refine ⟨{ h with data := data' }, ?_, hh.of_rearranged hperm hre (hord (hh.hole_set hidx) habove)⟩
  simp only [moveUp, if_neg hpos.ne', hloop, ok_bind]

end Store

/-- `modify` ends with its task in place when the new deadline is not later than the parent's,
or settles. -/
theorem Holds.modify (hh : Holds capacity h s) (hs : s.Distinct) (hid : h.indexOf id = some idx)
    {duration now : ℕ} (cycled : Bool)
    (hfits : 0 < idx ∧ SizeT.add now duration ≤ timeAt h.data (parent idx) ∨
      Settles (timeAt h.data) h.size idx (SizeT.add now duration)) :
    ∃ h', h.modify id duration cycled now = .ok (true, h') ∧
      Holds capacity h'
        (s.update id fun task => (task.setExpiredTime now duration).setCycle cycled) := by
  obtain ⟨hidx, hidx_id⟩ := indexOf_some hid
  have hle := hh.size_le
  have hupdate := TaskSet.update_perm hs (hh.perm_cons hidx)
    fun task => (task.setExpiredTime now duration).setCycle cycled
  rw [hidx_id] at hupdate
  rw [TimerTaskHeap.modify, hid]
  dsimp only
  set task := ((h.data.getD idx default).setExpiredTime now duration).setCycle cycled with htask
  have htime : task.expiredTime = SizeT.add now duration := rfl
  have hperm := (take_set_perm_cons hle hidx task).trans hupdate.symm
  rw [← htime] at hfits
  split
  case isTrue hzero =>
    obtain ⟨h', hmove, hholds⟩ := hh.moveDown_set hidx hperm (fun hpos => by omega)
      (hfits.resolve_left fun hup => by omega)
    exact ⟨h', by rw [hmove, ok_bind], hholds⟩
  case isFalse hne =>
    have hpos : 0 < idx := Nat.pos_of_ne_zero hne
    rw [timeAt_set_self (by omega), timeAt_set_parent hpos]
    split
    case isTrue hlate =>
      obtain ⟨h', hmove, hholds⟩ := hh.moveDown_set hidx hperm (fun _ => hlate.le)
        (hfits.resolve_left fun hup => by omega)
      exact ⟨h', by rw [hmove, ok_bind], hholds⟩
    case isFalse hearly =>
      obtain ⟨h', hmove, hholds⟩ := hh.moveUp_set hidx hperm hpos (not_lt.mp hearly)
      exact ⟨h', by rw [hmove, ok_bind], hholds⟩

instance (h : TimerTaskHeap Cb) (op : TimerOp Cb) : Decidable (h.Keeps op) :=
  match op with
  | .add _ => .isTrue trivial
  | .remove id => inferInstanceAs (Decidable (∀ idx ∈ h.indexOf id, LeadsTo _ _ idx _))
  | .modify id .. =>
      inferInstanceAs (Decidable (∀ idx ∈ h.indexOf id, 0 < idx ∧ _ ≤ _ ∨ Settles _ _ idx _))
  | .pop | .popTask _ => inferInstanceAs (Decidable (0 < h.size → LeadsTo _ _ _ _))

theorem Holds.remove_root (hh : Holds capacity h s) (hs : s.Distinct) (hpos : 0 < h.size)
    (hleads : LeadsTo (timeAt h.data) h.size 0 (h.size - 1)) :
    ∃ h', h.remove (h.data.getD 0 default).id = .ok (true, h') ∧
      Holds capacity h' (s.without (h.data.getD 0 default).id) :=
  hh.remove hs (indexOf_root hpos hh.size_le) hleads

theorem Holds.eq_nil (hh : Holds capacity h s) (hzero : h.size = 0) : s = [] :=
  List.length_eq_zero_iff.mp (hh.size_eq.symm.trans hzero)

theorem Holds.perform (hh : Holds capacity h s) (hs : s.Distinct) {op : TimerOp Cb}
    (hadmits : s.Admits capacity op) (hkeeps : h.Keeps op) :
    ∃ h', h.perform op = .ok ((s.apply op).1, h') ∧ Holds capacity h' (s.apply op).2 := by
  have hsize := hh.size_eq
  cases op with
  | add task =>
      have hlength : s.length + 1 ≤ capacity := hadmits.length_le
      obtain ⟨h', hadd, hholds⟩ := hh.add (by omega) task
      refine ⟨h', ?_, hholds⟩
      rw [TimerTaskHeap.perform, hadd, ok_bind]
      rfl
  | remove id =>
      rw [TaskSet.apply, TimerTaskHeap.perform]
      cases hid : h.indexOf id with
      | none =>
          have habsent := hh.indexOf_none hid
          rw [TaskSet.has_eq_false habsent, TaskSet.without_of_absent habsent,
            TimerTaskHeap.remove, hid, ok_bind]
          exact ⟨h, rfl, hh⟩
      | some idx =>
          obtain ⟨h', hremove, hholds⟩ := hh.remove hs hid (hkeeps idx hid)
          obtain ⟨hidx, rfl⟩ := indexOf_some hid
          rw [TaskSet.has_eq_true (hh.perm_cons hidx), hremove, ok_bind]
          exact ⟨h', rfl, hholds⟩
  | modify id duration cycled now =>
      rw [TaskSet.apply, TimerTaskHeap.perform]
      cases hid : h.indexOf id with
      | none =>
          have habsent := hh.indexOf_none hid
          rw [TaskSet.has_eq_false habsent, TaskSet.update_of_absent habsent,
            TimerTaskHeap.modify, hid, ok_bind]
          exact ⟨h, rfl, hh⟩
      | some idx =>
          obtain ⟨h', hmodify, hholds⟩ := hh.modify hs hid cycled (hkeeps idx hid)
          obtain ⟨hidx, rfl⟩ := indexOf_some hid
          rw [TaskSet.has_eq_true (hh.perm_cons hidx), hmodify, ok_bind]
          exact ⟨h', rfl, hholds⟩
  | pop =>
      rw [TaskSet.apply, TimerTaskHeap.perform, TimerTaskHeap.pop]
      split
      case isTrue hzero =>
        obtain rfl := hh.eq_nil hzero
        exact ⟨h, rfl, hh⟩
      case isFalse hne =>
        have hpos : 0 < h.size := Nat.pos_of_ne_zero hne
        obtain ⟨h', hremove, hholds⟩ := hh.remove_root hs hpos (hkeeps hpos)
        rw [hh.earliest_eq hs hpos, hremove]
        exact ⟨h', rfl, hholds⟩
  | popTask now =>
      rw [TimerTaskHeap.perform, TimerTaskHeap.popTask]
      split
      case isTrue hzero =>
        obtain rfl := hh.eq_nil hzero
        exact ⟨h, rfl, hh⟩
      case isFalse hne =>
        have hpos : 0 < h.size := Nat.pos_of_ne_zero hne
        obtain ⟨h', hremove, hholds⟩ := hh.remove_root hs hpos (hkeeps hpos)
        have hlength := hadmits.length_le
        rw [TaskSet.apply, hh.earliest_eq hs hpos] at hlength ⊢
        dsimp only at hlength ⊢
        rw [hremove, ok_bind]
        dsimp only
        split at hlength
        case isTrue hcycled =>
          rw [if_pos hcycled, if_pos hcycled]
          obtain ⟨h'', hadd, hholds'⟩ := hholds.add hlength
            ((h.data.getD 0 default).setExpiredTime now (h.data.getD 0 default).duration)
          rw [hadd]
          exact ⟨h'', rfl, hholds'⟩
        case isFalse hcycled =>
          rw [if_neg hcycled, if_neg hcycled]
          exact ⟨h', rfl, hholds⟩

theorem heapStep_refines (hh : Holds capacity h s) (hs : s.Distinct) {op : TimerOp Cb}
    (hadmits : s.Admits capacity op) (hkeeps : h.Keeps op) :
    ∃ answer h' s', h.heapStep op = .ok (answer, h') ∧ s.step op = .ok (answer, s') ∧
      Holds capacity h' s' ∧ s'.Distinct := by
  obtain ⟨h', hperform, hholds⟩ := hh.perform hs hadmits hkeeps
  refine ⟨TaskSet.answer (s.apply op).1 (s.apply op).2, h', (s.apply op).2, ?_, rfl, hholds,
    hadmits.distinct⟩
  rw [heapStep, hperform, ok_bind, TaskSet.answer, ← hholds.size_eq,
    ← hholds.top_eq hadmits.distinct]

end TimerTaskHeap

end LpNet
