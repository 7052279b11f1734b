import LpNet.Timer.Content

/-!
Which cells of its array `TimerTaskHeap` touches.

Every access of `data_[i]` of a call is translated once more, as one that faults past the
end of the array. `perform_eq` says that as long as `size_` is no more than the length of the
array only an `add` into a full one can fault, and that the calls are otherwise those of
`Heap`. `inside_iff` is about all runs from a constructed heap, of which `size_` is not
set.
-/

namespace LpNet

open BinaryHeap Transition

variable {Cb : Type}

namespace TimerTaskHeap

/-! ### Checked accesses -/

namespace Checked

def readCell (data : List (TimerTask Cb)) (i : ℕ) : Except Fault (TimerTask Cb) :=
  match data[i]? with
  | some task => .ok task
  | none => .error .outOfBounds

def writeCell (data : List (TimerTask Cb)) (i : ℕ) (task : TimerTask Cb) :
    Except Fault (List (TimerTask Cb)) :=
  if i < data.length then .ok (data.set i task) else .error .outOfBounds

def swap (data : List (TimerTask Cb)) (x y : ℕ) : Except Fault (List (TimerTask Cb)) := do
  let tmp ← readCell data x
  let other ← readCell data y
  let data ← writeCell data x other
  writeCell data y tmp

/-- The loop of `indexOf`, with the number of cells in use from `pa` on. -/
def indexOfFrom (data : List (TimerTask Cb)) (id : ℕ) : ℕ → ℕ → Except Fault (Option ℕ)
  | 0, _ => .ok none
  | left + 1, pa => do
      let task ← readCell data pa
      if task.id == id then .ok (some pa) else indexOfFrom data id left (pa + 1)

def indexOf (h : TimerTaskHeap Cb) (id : ℕ) : Except Fault (Option ℕ) :=
  indexOfFrom h.data id h.size 0

def moveUpFrom : ℕ → List (TimerTask Cb) → ℕ → Except Fault (List (TimerTask Cb))
  | 0, _, _ => .error .diverges
  | rounds + 1, data, cur =>
      let pa := (cur - 1) / 2
      if 0 < cur then do
        let task ← readCell data cur
        let above ← readCell data pa
        if task.expiredTime < above.expiredTime then do
          let data ← swap data cur pa
          moveUpFrom rounds data pa
        else .ok data
      else .ok data

def moveUp (h : TimerTaskHeap Cb) (idx : ℕ) : Except Fault (TimerTaskHeap Cb) :=
  if idx = 0 then .ok h
  else do
    let data ← moveUpFrom (h.size + 1) h.data idx
    .ok { h with data := data }

/-- The lesser of the cell and the one behind it. -/
def lesser (size : ℕ) (data : List (TimerTask Cb)) (child : ℕ) : Except Fault ℕ :=
  if child + 1 < size then do
    let left ← readCell data child
    let right ← readCell data (child + 1)
    .ok (if left.expiredTime > right.expiredTime then child + 1 else child)
  else .ok child

def moveDownFrom (size cur : ℕ) :
    ℕ → List (TimerTask Cb) → ℕ → Except Fault (List (TimerTask Cb))
  | 0, _, _ => .error .diverges
  | rounds + 1, data, child =>
      if child < size then do
        let child ← lesser size data child
        let below ← readCell data child
        let task ← readCell data cur
        if below.expiredTime < task.expiredTime then do
          let data ← swap data child cur
          moveDownFrom size cur rounds data child
        else .ok data
      else .ok data

def moveDown (h : TimerTaskHeap Cb) (idx : ℕ) : Except Fault (TimerTaskHeap Cb) := do
  let data ← moveDownFrom h.size idx (h.size + 1) h.data (idx * 2 + 1)
  .ok { h with data := data }

def add (h : TimerTaskHeap Cb) (task : TimerTask Cb) : Except Fault (ℕ × TimerTaskHeap Cb) := do
  let data ← writeCell h.data h.size task
  let h ← moveUp { h with data := data, size := h.size + 1 } h.size
  .ok (task.id, h)

/-- The loop of `remove`. -/
def siftOut (size : ℕ) : ℕ → List (TimerTask Cb) → ℕ → Except Fault (List (TimerTask Cb))
  | 0, _, _ => .error .diverges
  | rounds + 1, data, pa =>
      let child := pa * 2 + 1
      if child < size then do
        let child ← lesser size data child
        let data ← swap data child pa
        siftOut size rounds data child
      else .ok data

def remove (h : TimerTaskHeap Cb) (id : ℕ) : Except Fault (Bool × TimerTaskHeap Cb) := do
  match ← indexOf h id with
  | none => .ok (false, h)
  | some idx => do
      let data ← siftOut h.size (h.size + 1) h.data idx
      .ok (true, { h with data := data, size := h.size - 1 })

def modify (h : TimerTaskHeap Cb) (id duration : ℕ) (cycled : Bool) (now : ℕ) :
    Except Fault (Bool × TimerTaskHeap Cb) := do
  match ← indexOf h id with
  | none => .ok (false, h)
  | some idx => do
      let task ← readCell h.data idx
      let data ← writeCell h.data idx ((task.setExpiredTime now duration).setCycle cycled)
      let h := { h with data := data }
      if idx = 0 then do
        let h ← moveDown h idx
        .ok (true, h)
      else do
        let above ← readCell h.data ((idx - 1) / 2)
        let task ← readCell h.data idx
        if above.expiredTime < task.expiredTime then do
          let h ← moveDown h idx
          .ok (true, h)
        else do
          let h ← moveUp h idx
          .ok (true, h)

def pop (h : TimerTaskHeap Cb) : Except Fault (Bool × TimerTaskHeap Cb) :=
  if h.size = 0 then .ok (false, h)
  else do
    let task ← readCell h.data 0
    let (_, h) ← remove h task.id
    .ok (true, h)

/-- `pop(task)`. -/
def popTask (h : TimerTaskHeap Cb) (now : ℕ) :
    Except Fault (Option (TimerTask Cb) × TimerTaskHeap Cb) :=
  if h.size = 0 then .ok (none, h)
  else do
    let task ← readCell h.data 0
    let (_, h) ← remove h task.id
    if task.cycled then do
      let task := task.setExpiredTime now task.duration
      let (_, h) ← add h task
      .ok (some task, h)
    else .ok (some task, h)

def perform (h : TimerTaskHeap Cb) :
    TimerOp Cb → Except Fault (TimerResult Cb × TimerTaskHeap Cb)
  | .add task => do
      let (id, h) ← add h task
      .ok (.added id, h)
  | .remove id => do
      let (ok, h) ← remove h id
      .ok (.done ok, h)
  | .modify id duration cycled now => do
      let (ok, h) ← modify h id duration cycled now
      .ok (.done ok, h)
  | .pop => do
      let (ok, h) ← pop h
      .ok (.done ok, h)
  | .popTask now => do
      let (task, h) ← popTask h now
      .ok (.popped task, h)

/-! ### Inside the array nothing faults -/

variable {data : List (TimerTask Cb)} {h : TimerTaskHeap Cb} {size i x y cur id : ℕ}

theorem readCell_ok (hi : i < data.length) : readCell data i = .ok (data.getD i default) := by
  rw [readCell, List.getElem?_eq_getElem hi, List.getD_eq_getElem _ _ hi]

theorem writeCell_ok (hi : i < data.length) (task : TimerTask Cb) :
    writeCell data i task = .ok (data.set i task) := by
  rw [writeCell, if_pos hi]

theorem swap_ok (hx : x < data.length) (hy : y < data.length) :
    swap data x y = .ok (BinaryHeap.swap data x y) := by
  rw [swap, readCell_ok hx, ok_bind, readCell_ok hy, ok_bind, writeCell_ok hx, ok_bind,
    writeCell_ok (by rwa [List.length_set]), BinaryHeap.swap]

theorem indexOfFrom_eq (id : ℕ) {left pa : ℕ} (hleft : pa + left ≤ data.length) :
    indexOfFrom data id left pa =
      .ok ((((data.drop pa).take left).findIdx? fun task => task.id == id).map (· + pa)) := by
  induction left generalizing pa with
  | zero => rfl
  | succ left ih =>
      have hpa : pa < data.length := by omega
      rw [indexOfFrom, readCell_ok hpa, ok_bind, ih (by omega), List.drop_eq_getElem_cons hpa,
        List.take_succ_cons, List.findIdx?_cons, List.getD_eq_getElem _ _ hpa]
      split
      · simp
      · rw [Option.map_map]
        congr 2
        funext j
        exact (Nat.succ_add_eq_add_succ j pa).symm

theorem indexOf_eq (hfits : h.Fits) (id : ℕ) : indexOf h id = .ok (h.indexOf id) := by
  have hle : 0 + h.size ≤ h.data.length := (Nat.zero_add _).trans_le hfits
  rw [indexOf, indexOfFrom_eq id hle, TimerTaskHeap.indexOf]
  simp

theorem moveUpFrom_eq (rounds : ℕ) (hcur : cur < data.length) :
    moveUpFrom rounds data cur = TimerTaskHeap.moveUpFrom rounds data cur := by
  induction rounds generalizing data cur with
  | zero => rfl
  | succ rounds ih =>
      have hpa : (cur - 1) / 2 < data.length := by omega
      rw [moveUpFrom, TimerTaskHeap.moveUpFrom]
      by_cases hpos : 0 < cur
      case neg => rw [if_neg hpos, if_neg fun hand => hpos hand.1]
      case pos =>
        rw [if_pos hpos, readCell_ok hcur, ok_bind, readCell_ok hpa, ok_bind, swap_ok hcur hpa,
          ok_bind, ih (by rwa [swap_length])]
        simp only [hpos, true_and]
        rfl

theorem lesser_eq {child : ℕ} (hsize : size ≤ data.length) :
    lesser size data child =
      .ok (if child + 1 < size ∧ timeAt data child > timeAt data (child + 1) then child + 1
        else child) := by
  rw [lesser]
  by_cases hright : child + 1 < size
  case neg => rw [if_neg hright, if_neg fun hand => hright hand.1]
  case pos =>
    rw [if_pos hright, readCell_ok (by omega), ok_bind, readCell_ok (by omega), ok_bind]
    simp only [hright, true_and]
    rfl

theorem moveDownFrom_eq (rounds : ℕ) {child : ℕ} (hsize : size ≤ data.length)
    (hcur : cur < data.length) :
    moveDownFrom size cur rounds data child =
      TimerTaskHeap.moveDownFrom size cur rounds data child := by
  induction rounds generalizing data child with
  | zero => rfl
  | succ rounds ih =>
      rw [moveDownFrom, TimerTaskHeap.moveDownFrom]
      by_cases hchild : child < size
      case neg => rw [if_neg hchild, if_neg hchild]
      case pos =>
        rw [if_pos hchild, if_pos hchild, lesser_eq hsize, ok_bind]
        dsimp only
        set c := if child + 1 < size ∧ timeAt data child > timeAt data (child + 1) then child + 1
          else child with hc
        have hclt : c < data.length := by
          rw [hc]
          split <;> omega
        rw [readCell_ok hclt, ok_bind, readCell_ok hcur, ok_bind, swap_ok hclt hcur, ok_bind,
          ih (by rwa [swap_length]) (by rwa [swap_length])]
        rfl

theorem siftOut_eq (rounds : ℕ) {pa : ℕ} (hsize : size ≤ data.length) (hpa : pa < data.length) :
    siftOut size rounds data pa = TimerTaskHeap.siftOut size rounds data pa := by
  induction rounds generalizing data pa with
  | zero => rfl
  | succ rounds ih =>
      rw [siftOut, TimerTaskHeap.siftOut]
      dsimp only
      by_cases hchild : pa * 2 + 1 < size
      case neg => rw [if_neg hchild, if_neg hchild]
      case pos =>
        rw [if_pos hchild, if_pos hchild, lesser_eq hsize, ok_bind]
        set c := if pa * 2 + 1 + 1 < size ∧ timeAt data (pa * 2 + 1) > timeAt data (pa * 2 + 1 + 1)
          then pa * 2 + 1 + 1 else pa * 2 + 1 with hc
        have hclt : c < data.length := by
          rw [hc]
          split <;> omega
        rw [swap_ok hclt hpa, ok_bind, ih (by rwa [swap_length]) (by rwa [swap_length])]

/-! ### The calls -/

theorem moveUp_eq {idx : ℕ} (hidx : idx < h.data.length) : moveUp h idx = h.moveUp idx := by
  rw [moveUp, TimerTaskHeap.moveUp, moveUpFrom_eq _ hidx]

theorem moveDown_eq {idx : ℕ} (hfits : h.Fits) (hidx : idx < h.data.length) :
    moveDown h idx = h.moveDown idx := by
  rw [moveDown, TimerTaskHeap.moveDown, moveDownFrom_eq _ hfits hidx]

theorem add_eq (h : TimerTaskHeap Cb) (task : TimerTask Cb) : add h task = h.add task := by
  rw [add, TimerTaskHeap.add, writeCell]
  split
  case isTrue hroom =>
    rw [ok_bind, moveUp_eq (by simpa using hroom)]
  case isFalse => rfl

theorem remove_eq (hfits : h.Fits) (id : ℕ) : remove h id = h.remove id := by
  have hle : h.size ≤ h.data.length := hfits
  rw [remove, TimerTaskHeap.remove, indexOf_eq hfits, ok_bind]
  cases hid : h.indexOf id with
  | none => rfl
  | some idx =>
      obtain ⟨hidx, -⟩ := indexOf_some hid
      simp only [siftOut_eq _ hle (by omega : idx < h.data.length)]

theorem modify_eq (hfits : h.Fits) (id duration : ℕ) (cycled : Bool) (now : ℕ) :
    modify h id duration cycled now = h.modify id duration cycled now := by
  have hle : h.size ≤ h.data.length := hfits
  rw [modify, TimerTaskHeap.modify, indexOf_eq hfits, ok_bind]
  cases hid : h.indexOf id with
  | none => rfl
  | some idx =>
      obtain ⟨hidx, -⟩ := indexOf_some hid
      have hlen : idx < h.data.length := by omega
      dsimp only
      rw [readCell_ok hlen, ok_bind, writeCell_ok hlen, ok_bind]
      set task := ((h.data.getD idx default).setExpiredTime now duration).setCycle cycled
      have hlen' : idx < (h.data.set idx task).length := by rwa [List.length_set]
      have hdown : moveDown { h with data := h.data.set idx task } idx =
          ({ h with data := h.data.set idx task } : TimerTaskHeap Cb).moveDown idx :=
        moveDown_eq (hle.trans_eq List.length_set.symm) hlen'
      have hup : moveUp { h with data := h.data.set idx task } idx =
          ({ h with data := h.data.set idx task } : TimerTaskHeap Cb).moveUp idx :=
        moveUp_eq hlen'
      rw [hdown, hup, readCell_ok (by omega : (idx - 1) / 2 < _), ok_bind, readCell_ok hlen',
        ok_bind]
      rfl

theorem pop_eq (hfits : h.Fits) : pop h = h.pop := by
  have hle : h.size ≤ h.data.length := hfits
  rw [pop, TimerTaskHeap.pop]
  split
  case isTrue => rfl
  case isFalse hne => rw [readCell_ok (by omega), ok_bind, remove_eq hfits]

theorem popTask_eq (hfits : h.Fits) (now : ℕ) : popTask h now = h.popTask now := by
  have hle : h.size ≤ h.data.length := hfits
  rw [popTask, TimerTaskHeap.popTask]
  split
  case isTrue => rfl
  case isFalse hne =>
    rw [readCell_ok (by omega), ok_bind, remove_eq hfits]
    simp only [add_eq]

/-- The accesses of a call lie inside the array, but for those of an `add` into a full one. -/
theorem perform_eq (hfits : h.Fits) (op : TimerOp Cb) : perform h op = h.perform op := by
  cases op with
  | add task => rw [perform, TimerTaskHeap.perform, add_eq]
  | remove id => rw [perform, TimerTaskHeap.perform, remove_eq hfits]
  | modify id duration cycled now => rw [perform, TimerTaskHeap.perform, modify_eq hfits]
  | pop => rw [perform, TimerTaskHeap.perform, pop_eq hfits]
  | popTask now => rw [perform, TimerTaskHeap.perform, popTask_eq hfits]

end Checked

end TimerTaskHeap

/-! ### Counting the tasks -/

namespace TimerOp

def IsAdd : TimerOp Cb → Prop
  | .add _ => True
  | _ => False

instance (op : TimerOp Cb) : Decidable op.IsAdd :=
  match op with
  | .add _ => isTrue trivial
  | .remove _ | .modify .. | .pop | .popTask _ => isFalse id

theorem isAdd_iff {op : TimerOp Cb} : op.IsAdd ↔ ∃ task, op = .add task := by
  constructor
  · intro hadd
    cases op with
    | add task => exact ⟨task, rfl⟩
    | remove id | modify id duration cycled now | pop | popTask now => exact hadd.elim
  · rintro ⟨task, rfl⟩
    exact trivial

/-- How many tasks are stored after a call that answered `result` on `n` of them. -/
def tasksAfter (n : ℕ) : TimerOp Cb → TimerResult Cb → ℕ
  | .add _, _ => n + 1
  | .remove _, .done true | .pop, .done true => n - 1
  | .popTask _, .popped (some task) => if task.cycled then n else n - 1
  | _, _ => n

theorem tasksAfter_le {op : TimerOp Cb} (hop : ¬ op.IsAdd) (n : ℕ) (result : TimerResult Cb) :
    op.tasksAfter n result ≤ n := by
  cases op with
  | add task => exact absurd trivial hop
  | modify id duration cycled now => exact le_refl n
  | remove id | pop =>
      cases result with
      | done ok =>
          cases ok with
          | false => exact le_refl n
          | true => exact Nat.sub_le n 1
      | added id | popped task => exact le_refl n
  | popTask now =>
      cases result with
      | popped task =>
          cases task with
          | none => exact le_refl n
          | some task =>
              rw [tasksAfter]
              split <;> omega
      | added id | done ok => exact le_refl n

end TimerOp

namespace TimerTaskHeap

variable {h h' : TimerTaskHeap Cb} {op : TimerOp Cb} {result : TimerResult Cb}

theorem remove_ok (hfits : h.Fits) (id : ℕ) :
    ∃ ok h', h.remove id = .ok (ok, h') ∧ h'.data.length = h.data.length ∧
      h'.size = if ok then h.size - 1 else h.size := by
  cases hid : h.indexOf id with
  | none => exact ⟨false, h, by rw [remove, hid], rfl, rfl⟩
  | some idx =>
      obtain ⟨h', dropped, hremove, hsize, hlength, -⟩ := remove_stored hfits hid
      exact ⟨true, h', hremove, hlength, hsize⟩

theorem popTask_ok (hfits : h.Fits) (now : ℕ) :
    ∃ task h', h.popTask now = .ok (task, h') ∧ h'.data.length = h.data.length ∧
      h'.size = (TimerOp.popTask now).tasksAfter h.size (.popped task) := by
  have hle : h.size ≤ h.data.length := hfits
  by_cases hzero : h.size = 0
  case pos => exact ⟨none, h, by rw [popTask, if_pos hzero], rfl, rfl⟩
  case neg =>
    obtain ⟨h₁, dropped, hremove, hsize, hlength, -⟩ :=
      remove_stored hfits (indexOf_root (Nat.pos_of_ne_zero hzero) hfits)
    rw [popTask, if_neg hzero]
    dsimp only
    rw [hremove, ok_bind]
    set task := h.data.getD 0 default
    dsimp only
    cases hcycled : task.cycled with
    | false =>
        refine ⟨some task, h₁, rfl, hlength, ?_⟩
        rw [TimerOp.tasksAfter, hcycled, hsize]
        rfl
    | true =>
        -- the task goes back to the cell that has become free
        obtain ⟨h₂, hadd, hsize₂, hlength₂, -⟩ := add_stored
          (by omega : h₁.size < h₁.data.length) (task.setExpiredTime now task.duration)
        refine ⟨some (task.setExpiredTime now task.duration), h₂, ?_, by omega, ?_⟩
        · rw [if_pos rfl, hadd, ok_bind]
        · have hcycled' : (task.setExpiredTime now task.duration).cycled = true := hcycled
          rw [TimerOp.tasksAfter, hcycled', if_pos rfl]
          omega

theorem perform_ok (hfits : h.Fits) (hroom : op.IsAdd → h.size < h.data.length) :
    ∃ result h', h.perform op = .ok (result, h') ∧ h'.data.length = h.data.length ∧
      h'.size = op.tasksAfter h.size result := by
  cases op with
  | add task =>
      obtain ⟨h', hadd, hsize, hlength, -⟩ := add_stored (hroom trivial) task
      exact ⟨.added task.id, h', by rw [perform, hadd, ok_bind], hlength, hsize⟩
  | remove id =>
      obtain ⟨ok, h', hremove, hlength, hsize⟩ := remove_ok hfits id
      refine ⟨.done ok, h', by rw [perform, hremove, ok_bind], hlength, hsize.trans ?_⟩
      cases ok <;> rfl
  | modify id duration cycled now =>
      cases hid : h.indexOf id with
      | none => exact ⟨.done false, h, by rw [perform, modify, hid, ok_bind], rfl, rfl⟩
      | some idx =>
          obtain ⟨h', hmodify, hsize, hlength, -⟩ := modify_stored hfits hid duration cycled now
          exact ⟨.done true, h', by rw [perform, hmodify, ok_bind], hlength, hsize⟩
  | pop =>
      by_cases hzero : h.size = 0
      case pos => exact ⟨.done false, h, by rw [perform, pop, if_pos hzero, ok_bind], rfl, rfl⟩
      case neg =>
        obtain ⟨h', dropped, hremove, hsize, hlength, -⟩ :=
          remove_stored hfits (indexOf_root (Nat.pos_of_ne_zero hzero) hfits)
        refine ⟨.done true, h', ?_, hlength, hsize⟩
        rw [perform, pop, if_neg hzero, hremove, ok_bind, ok_bind]
  | popTask now =>
      obtain ⟨task, h', hpop, hlength, hsize⟩ := popTask_ok hfits now
      exact ⟨.popped task, h', by rw [perform, hpop, ok_bind], hlength, hsize⟩

theorem perform_size (hfits : h.Fits) (hperform : h.perform op = .ok (result, h')) :
    h'.Fits ∧ h'.data.length = h.data.length ∧ h'.size = op.tasksAfter h.size result := by
  have hle : h.size ≤ h.data.length := hfits
  have hroom (hadd : op.IsAdd) : h.size < h.data.length := by
    obtain ⟨task, rfl⟩ := TimerOp.isAdd_iff.mp hadd
    by_contra hfull
    rw [perform, add_full (not_lt.mp hfull), error_bind] at hperform
    cases hperform
  obtain ⟨result', h'', hperform', hlength, hsize⟩ := perform_ok hfits hroom
  rw [hperform] at hperform'
  cases hperform'
  refine ⟨?_, hlength, hsize⟩
  show h'.size ≤ h'.data.length
  by_cases hadd : op.IsAdd
  case pos =>
    have hlt := hroom hadd
    obtain ⟨task, rfl⟩ := TimerOp.isAdd_iff.mp hadd
    have hsize' : h'.size = h.size + 1 := hsize
    omega
  case neg =>
    have hless := op.tasksAfter_le hadd h.size result
    omega

end TimerTaskHeap

/-! ### Runs -/

/-- A heap and the number of the tasks stored in it. -/
structure CountedHeap (Cb : Type) where
  heap : TimerTaskHeap Cb
  tasks : ℕ
  deriving DecidableEq

namespace CountedHeap

/-- A constructed heap. `size` is what there is in memory where the heap has `size_`, which the
constructor does not set. -/
def new (Cb : Type) (capacity size : ℕ) : CountedHeap Cb :=
  ⟨{ TimerTaskHeap.new Cb capacity with size := size }, 0⟩

def countedStep (c : CountedHeap Cb) (op : TimerOp Cb) :
    Except Fault (TimerResult Cb × CountedHeap Cb) := do
  let (result, h) ← TimerTaskHeap.Checked.perform c.heap op
  .ok (result, ⟨h, op.tasksAfter c.tasks result⟩)

/-- `size_` is the number of the stored tasks, and no more than the length of the array. -/
structure Inside (c : CountedHeap Cb) : Prop where
  size_eq : c.heap.size = c.tasks
  fits : c.heap.Fits

/-- The call touches no cell outside of the array. -/
def StaysInside (c : CountedHeap Cb) (op : TimerOp Cb) : Prop :=
  countedStep c op ≠ .error .outOfBounds

/-- An added task finds a cell. -/
def HasCell (c : CountedHeap Cb) (op : TimerOp Cb) : Prop :=
  op.IsAdd → c.heap.size < c.heap.data.length

variable {c c' : CountedHeap Cb} {op : TimerOp Cb} {result : TimerResult Cb}

theorem step_eq (hc : c.Inside) : countedStep c op = (do
    let (result, h) ← c.heap.perform op
    .ok (result, ⟨h, op.tasksAfter c.tasks result⟩)) := by
  rw [countedStep, TimerTaskHeap.Checked.perform_eq hc.fits]

theorem Inside.step (hc : c.Inside) (hstep : countedStep c op = .ok (result, c')) :
    c'.Inside := by
  rw [step_eq hc, bind_eq_ok] at hstep
  obtain ⟨⟨result', h'⟩, hperform, hstep⟩ := hstep
  cases hstep
  obtain ⟨hfits, -, hsize⟩ := TimerTaskHeap.perform_size hc.fits hperform
  refine ⟨hsize.trans ?_, hfits⟩
  rw [hc.size_eq]

theorem Inside.staysInside_iff (hc : c.Inside) : c.StaysInside op ↔ c.HasCell op := by
  rw [StaysInside, step_eq hc]
  by_cases hcell : c.HasCell op
  case pos =>
    obtain ⟨result, h', hperform, -⟩ := TimerTaskHeap.perform_ok hc.fits hcell
    rw [hperform, ok_bind]
    exact iff_of_true (fun h => by cases h) hcell
  case neg =>
    refine iff_of_false (fun hinside => hinside ?_) hcell
    obtain ⟨hadd, hfull⟩ := Classical.not_imp.mp hcell
    obtain ⟨task, rfl⟩ := TimerOp.isAdd_iff.mp hadd
    rw [TimerTaskHeap.perform, TimerTaskHeap.add_full (not_lt.mp hfull), error_bind, error_bind]

/-- From a constructed heap all states and all accesses are right exactly when `size_` happens to
start at 0 and every added task finds a cell. -/
theorem inside_iff (capacity size : ℕ) (ops : List (TimerOp Cb)) :
    AlongStates countedStep Inside (new Cb capacity size) ops ∧
        Along countedStep StaysInside (new Cb capacity size) ops ↔
      size = 0 ∧ Along countedStep HasCell (new Cb capacity size) ops := by
  by_cases hsize : size = 0
  case pos =>
    subst hsize
    have hnew : (new Cb capacity 0).Inside := ⟨rfl, Nat.zero_le _⟩
    rw [and_iff_right rfl]
    exact right_iff_along (fun c op result c' hc _ => hc.step)
      (fun c op hc => hc.staysInside_iff.mpr)
      (fun c op hc hcell => .inl fun hinside => hcell (hc.staysInside_iff.mp hinside))
      (fun c hc => hc) hnew
  case neg => exact iff_of_false (fun h => hsize h.1.head.size_eq) fun h => hsize h.1

/-- The second task that is added to a heap for one is stored outside of the array. -/
theorem second_task_outside :
    ¬ (AlongStates countedStep Inside (new Unit 1 0) [.add default, .add default] ∧
      Along countedStep StaysInside (new Unit 1 0) [.add default, .add default]) := by
  rintro ⟨-, hinside⟩
  exact (hinside.2 (.added 0) ⟨⟨[default], 1, 1⟩, 1⟩ rfl).1 rfl

end CountedHeap

end LpNet
