import LpNet.Timer.Content

/-!
When `TimerTaskHeap::remove` removes the task it is asked for.

`remove` sifts the task down to a cell without children and then drops the last cell in
use. The two are the same exactly on the paths of lesser children that end in the last
cell; on any other the task stays and the one in the last cell is lost.
`removesExactly_iff` says so of `remove` and of both `pop`s, for any heap in order.
-/

namespace LpNet

open BinaryHeap Transition

namespace TimerTaskHeap

variable {Cb : Type} {h h' : TimerTaskHeap Cb} {id idx : ℕ}

/-- A heap in order: the cells in use lie in the array, no deadline is below its parent's, and
no two tasks share an id. -/
structure Valid (h : TimerTaskHeap Cb) : Prop where
  fits : h.Fits
  order : Ordered (timeAt h.data) h.size
  ids : (h.stored.map TimerTask.id).Nodup

instance (h : TimerTaskHeap Cb) : Decidable h.Fits := inferInstanceAs (Decidable (_ ≤ _))

/-- The tasks are those of before without this one, in order. -/
structure TakesOut (h h' : TimerTaskHeap Cb) (task : TimerTask Cb) : Prop where
  perm : h.stored.Perm (task :: h'.stored)
  order : Ordered (timeAt h'.data) h'.size

/-- `remove(id)` says whether the task is there and takes out that task, or nothing. -/
structure RemovesExactly (h : TimerTaskHeap Cb) (id : ℕ) : Prop where
  absent : (∀ task ∈ h.stored, task.id ≠ id) → h.remove id = .ok (false, h)
  present : ∀ task ∈ h.stored, task.id = id →
    ∃ h', h.remove id = .ok (true, h') ∧ h.TakesOut h' task

structure IsEarliest (h : TimerTaskHeap Cb) (task : TimerTask Cb) : Prop where
  top_eq : h.top = task
  stored : task ∈ h.stored
  le : ∀ u ∈ h.stored, task.expiredTime ≤ u.expiredTime

def PopsEarliest (h : TimerTaskHeap Cb) : Prop :=
  0 < h.size → ∃ task h', h.IsEarliest task ∧ h.pop = .ok (true, h') ∧ h.TakesOut h' task

/-- `pop(task)` answers the earliest task, and takes it out when it is not cyclic. -/
def PopTasksEarliest (h : TimerTaskHeap Cb) (now : ℕ) : Prop :=
  0 < h.size → h.top.cycled = false →
    ∃ task h', h.IsEarliest task ∧ h.popTask now = .ok (some task, h') ∧ h.TakesOut h' task

/-- The lesser children lead from the cell to the last one in use. -/
def EndsLast (h : TimerTaskHeap Cb) (idx : ℕ) : Prop :=
  LeadsTo (timeAt h.data) h.size idx (h.size - 1)

/-! ### The root -/

theorem getD_mem (hfits : h.Fits) (hidx : idx < h.size) : h.data.getD idx default ∈ h.stored :=
  (take_perm_cons hfits hidx).mem_iff.mpr (List.mem_cons_self ..)

theorem isEarliest_root (hfits : h.Fits) (horder : Ordered (timeAt h.data) h.size)
    (hpos : 0 < h.size) : h.IsEarliest (h.data.getD 0 default) where
  top_eq := top_eq_getD hfits hpos
  stored := getD_mem hfits hpos
  le := first_le horder

theorem Valid.isEarliest (hv : h.Valid) (hpos : 0 < h.size) :
    h.IsEarliest (h.data.getD 0 default) := isEarliest_root hv.fits hv.order hpos

/-! ### What `remove` does -/

/-- The task is taken out when it is sifted to the last cell. -/
theorem Valid.takesOut (hv : h.Valid) (hid : h.indexOf id = some idx) (hends : h.EndsLast idx) :
    ∃ h', h.remove id = .ok (true, h') ∧ h.TakesOut h' (h.data.getD idx default) := by
  obtain ⟨hidx, -⟩ := indexOf_some hid
  have hfits : h.size ≤ h.data.length := hv.fits
  obtain ⟨data', hloop, hre, -, hget, hhole⟩ :=
    siftOut_spec (h.size + 1) hfits hidx (by omega) hends
  have hhole := hhole (hv.order.hole hidx)
  obtain ⟨n, hn⟩ : ∃ n, h.size = n + 1 := ⟨h.size - 1, by omega⟩
  have hlength := hre.length_eq
  refine ⟨{ h with data := data', size := h.size - 1 }, ?_, ?_, ?_⟩
  · rw [remove, hid]
    simp only [hloop, ok_bind]
  · have hsucc := take_succ_perm (by omega : h.size - 1 < data'.length)
    rw [hget, show h.size - 1 + 1 = h.size by omega] at hsucc
    exact hre.perm.symm.trans hsucc
  · simp only [hn, Nat.add_sub_cancel] at hhole ⊢
    exact hhole.drop_last

/-- A task that is not sifted to the last cell is not taken out. -/
theorem Valid.not_takesOut (hv : h.Valid) (hid : h.indexOf id = some idx)
    (hends : ¬ h.EndsLast idx) (hremove : h.remove id = .ok (true, h')) :
    ¬ h.TakesOut h' (h.data.getD idx default) := by
  intro hout
  obtain ⟨h'', dropped, hremove', -, -, -, -, hstays⟩ := remove_stored hv.fits hid
  rw [hremove'] at hremove
  cases hremove
  -- the task is still there, so that its id would have been there twice
  have hnodup := (hout.perm.map TimerTask.id).nodup_iff.mp hv.ids
  rw [List.map_cons, List.nodup_cons] at hnodup
  exact hnodup.1 (List.mem_map_of_mem (hstays hends))

theorem Valid.eq_getD (hv : h.Valid) (hid : h.indexOf id = some idx) {task : TimerTask Cb}
    (htask : task ∈ h.stored) (heq : task.id = id) : task = h.data.getD idx default := by
  obtain ⟨-, hidx_id⟩ := indexOf_some hid
  exact List.inj_on_of_nodup_map hv.ids htask (getD_mem_stored hv.fits hid).1
    (heq.trans hidx_id.symm)

/-- `remove` does what it should exactly when the path from its task ends in the last cell. -/
theorem Valid.removesExactly_iff (hv : h.Valid) (id : ℕ) :
    h.RemovesExactly id ↔ ∀ idx ∈ h.indexOf id, h.EndsLast idx := by
  constructor
  · intro hexact idx hid
    by_contra hends
    obtain ⟨hmem, -⟩ := getD_mem_stored hv.fits hid
    obtain ⟨h', hremove, hout⟩ := hexact.present _ hmem (indexOf_some hid).2
    exact hv.not_takesOut hid hends hremove hout
  · intro hends
    refine ⟨fun habsent => ?_, fun task htask heq => ?_⟩
    · rw [remove, indexOf_eq_none_iff.mpr habsent]
    · cases hid : h.indexOf id with
      | none => exact absurd heq (indexOf_eq_none_iff.mp hid task htask)
      | some idx =>
          rw [hv.eq_getD hid htask heq]
          exact hv.takesOut hid (hends idx hid)

/-! ### The two `pop`s -/

/-- Both `pop`s take out the root exactly when the path from it ends in the last cell. -/
theorem Valid.remove_root_iff (hv : h.Valid) (hpos : 0 < h.size) :
    (∃ h', h.remove (h.data.getD 0 default).id = .ok (true, h') ∧
      h.TakesOut h' (h.data.getD 0 default)) ↔ h.EndsLast 0 := by
  have hid := indexOf_root hpos hv.fits
  constructor
  · rintro ⟨h', hremove, hout⟩
    by_contra hends
    exact hv.not_takesOut hid hends hremove hout
  · exact hv.takesOut hid

theorem remove_root_ok (hfits : h.Fits) (hpos : 0 < h.size) :
    ∃ h', h.remove (h.data.getD 0 default).id = .ok (true, h') := by
  obtain ⟨h', dropped, hremove, -⟩ := remove_stored hfits (indexOf_root hpos hfits)
  exact ⟨h', hremove⟩

theorem Valid.popsEarliest_iff (hv : h.Valid) :
    h.PopsEarliest ↔ (0 < h.size → h.EndsLast 0) := by
  refine forall_congr' fun hpos => ?_
  rw [← hv.remove_root_iff hpos]
  obtain ⟨h₁, hremove⟩ := remove_root_ok hv.fits hpos
  have hpop : h.pop = .ok (true, h₁) := by
    rw [pop, if_neg (by omega), hremove, ok_bind]
  rw [hpop, hremove]
  constructor
  · rintro ⟨task, h', hearliest, heq, hout⟩
    cases heq
    rw [← hearliest.top_eq, top_eq_getD hv.fits hpos] at hout
    exact ⟨_, rfl, hout⟩
  · rintro ⟨h', heq, hout⟩
    exact ⟨_, h', hv.isEarliest hpos, heq, hout⟩

theorem Valid.popTasksEarliest_iff (hv : h.Valid) (now : ℕ) :
    h.PopTasksEarliest now ↔ (0 < h.size → h.top.cycled = false → h.EndsLast 0) := by
  refine forall_congr' fun hpos => forall_congr' fun honce => ?_
  rw [← hv.remove_root_iff hpos]
  obtain ⟨h₁, hremove⟩ := remove_root_ok hv.fits hpos
  have hpop : h.popTask now = .ok (some (h.data.getD 0 default), h₁) := by
    rw [top_eq_getD hv.fits hpos] at honce
    rw [popTask, if_neg (by omega)]
    simp only [hremove, ok_bind, honce, Bool.false_eq_true, if_false]
  rw [hpop, hremove]
  constructor
  · rintro ⟨task, h', hearliest, heq, hout⟩
    cases heq
    exact ⟨_, rfl, hout⟩
  · rintro ⟨h', heq, hout⟩
    cases heq
    exact ⟨_, _, hv.isEarliest hpos, rfl, hout⟩

/-- On a heap in order `remove`, `pop()` and `pop(task)` take out exactly the task they should
if and only if the lesser children lead from that task to the last cell in use. -/
theorem removes_exactly_iff (h : TimerTaskHeap Cb) (hv : h.Valid) :
    (∀ id, h.RemovesExactly id ↔ ∀ idx ∈ h.indexOf id, h.EndsLast idx) ∧
      (h.PopsEarliest ↔ (0 < h.size → h.EndsLast 0)) ∧
      ∀ now, h.PopTasksEarliest now ↔ (0 < h.size → h.top.cycled = false → h.EndsLast 0) :=
  ⟨hv.removesExactly_iff, hv.popsEarliest_iff, hv.popTasksEarliest_iff⟩

def threeTasks : TimerTaskHeap Unit :=
  ⟨[⟨1, 1, false, none, 10⟩, ⟨2, 2, false, none, 11⟩, ⟨3, 3, false, none, 12⟩], 3, 3⟩

theorem threeTasks_valid : threeTasks.Valid where
  fits := by decide
  order := by
    intro i hpos hi
    have hcell : i = 1 ∨ i = 2 := by
      have : i < 3 := hi
      omega
    rcases hcell with rfl | rfl <;> decide
  ids := by decide

theorem removes_exactly_three :
    (∀ id, threeTasks.RemovesExactly id ↔ ∀ idx ∈ threeTasks.indexOf id, threeTasks.EndsLast idx) ∧
      (threeTasks.PopsEarliest ↔ (0 < threeTasks.size → threeTasks.EndsLast 0)) ∧
      ∀ now, threeTasks.PopTasksEarliest now ↔
        (0 < threeTasks.size → threeTasks.top.cycled = false → threeTasks.EndsLast 0) :=
  removes_exactly_iff threeTasks threeTasks_valid

/-- Asked for the task that is due at 1, `remove` says true, keeps it and loses the one that is due
at 3. -/
theorem remove_loses_another : threeTasks.Valid ∧ ¬ threeTasks.RemovesExactly 10 := by
  refine ⟨threeTasks_valid, fun hexact => ?_⟩
  obtain ⟨h', hremove, hout⟩ :=
    hexact.present ⟨1, 1, false, none, 10⟩ (by decide) rfl
  have hleft : threeTasks.remove 10 = .ok (true,
      ⟨[⟨2, 2, false, none, 11⟩, ⟨1, 1, false, none, 10⟩, ⟨3, 3, false, none, 12⟩], 3, 2⟩) := rfl
  rw [hleft] at hremove
  cases hremove
  exact absurd hout.perm (by decide)

end TimerTaskHeap

end LpNet
