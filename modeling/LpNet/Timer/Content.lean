import LpNet.Timer.Heap
import LpNet.Timer.Map

/-!
Which tasks the two back ends of `Timer` store.

`TimerTaskHeap` gives up the last cell when it removes a task, be the task in it or
not, and after that neither its order nor its ids can be relied on. What is said about it
here needs neither. `TimerTaskMap` is sorted by deadline on tasks with distinct ids, and a task
whose deadline another one has cannot be put into it.
-/

namespace LpNet

open BinaryHeap Transition

variable {Cb : Type}

/-! ### The heap -/

namespace TimerTaskHeap

def stored (h : TimerTaskHeap Cb) : TaskSet Cb := h.data.take h.size

variable {h : TimerTaskHeap Cb} {id idx : ℕ}

def Fits (h : TimerTaskHeap Cb) : Prop := h.size ≤ h.data.length

theorem add_stored (hroom : h.size < h.data.length) (task : TimerTask Cb) :
    ∃ h', h.add task = .ok (task.id, h') ∧ h'.size = h.size + 1 ∧
      h'.data.length = h.data.length ∧ h'.stored.Perm (task :: h.stored) := by
  have hlength : (h.data.set h.size task).length = h.data.length := List.length_set
  have hperm : ((h.data.set h.size task).take (h.size + 1)).Perm (task :: h.stored) := by
    refine (take_succ_perm (by omega)).trans ?_
    rw [List.getD_eq_getElem _ _ (by omega), List.getElem_set_self, List.take_set_of_le (le_refl _)]
    exact .refl _
  rw [add, if_pos hroom, moveUp]
  split
  case isTrue => exact ⟨_, rfl, rfl, hlength, hperm⟩
  case isFalse =>
    obtain ⟨data', hloop, hre, -⟩ := moveUpFrom_spec (h.size + 1 + 1)
      (by omega : h.size + 1 ≤ (h.data.set h.size task).length) (Nat.lt_succ_self h.size) (by omega)
    simp only [hloop, ok_bind]
    exact ⟨_, rfl, rfl, hre.length_eq.trans hlength, hre.perm.trans hperm⟩

theorem add_full (hfull : h.data.length ≤ h.size) (task : TimerTask Cb) :
    h.add task = .error .outOfBounds := by
  rw [add, if_neg (by omega)]

/-- `remove` drops one task: the one it was to remove, if that is sifted to the last cell, and
otherwise another, while the removed one stays. -/
theorem remove_stored (hfits : h.Fits) (hid : h.indexOf id = some idx) :
    ∃ h' dropped, h.remove id = .ok (true, h') ∧ h'.size = h.size - 1 ∧
      h'.data.length = h.data.length ∧ h.stored.Perm (dropped :: h'.stored) ∧
      (LeadsTo (timeAt h.data) h.size idx (h.size - 1) → dropped = h.data.getD idx default) ∧
      (¬ LeadsTo (timeAt h.data) h.size idx (h.size - 1) →
        h.data.getD idx default ∈ h'.stored) := by
  obtain ⟨hidx, -⟩ := indexOf_some hid
  obtain ⟨last, hleads⟩ := exists_leadsTo (timeAt h.data) h.size idx
  obtain ⟨data', hloop, hre, hlast, hget, -⟩ :=
    siftOut_spec (h.size + 1) hfits hidx (by omega) hleads
  have hfits' : h.size ≤ h.data.length := hfits
  have hlength := hre.length_eq
  refine ⟨{ h with data := data', size := h.size - 1 }, data'.getD (h.size - 1) default, ?_, rfl,
    hlength, ?_, fun hend => ?_, fun hend => ?_⟩
  · rw [remove, hid]
    simp only [hloop, ok_bind]
  · have hsucc := take_succ_perm (by omega : h.size - 1 < data'.length)
    rw [show h.size - 1 + 1 = h.size by omega] at hsucc
    exact hre.perm.symm.trans hsucc
  · rw [← hget, hleads.unique hend]
  · -- the sift ends before the last cell
    have hne : last ≠ h.size - 1 := fun heq => hend (heq ▸ hleads)
    have hlt : last < (data'.take (h.size - 1)).length := by
      rw [List.length_take]
      omega
    rw [← hget, ← getD_take (by omega : last < h.size - 1), List.getD_eq_getElem _ _ hlt]
    exact List.getElem_mem hlt

/-- `modify` changes its task and moves tasks around. -/
theorem modify_stored (hfits : h.Fits) (hid : h.indexOf id = some idx) (duration : ℕ)
    (cycled : Bool) (now : ℕ) :
    ∃ h', h.modify id duration cycled now = .ok (true, h') ∧ h'.size = h.size ∧
      h'.data.length = h.data.length ∧
      h'.stored.Perm (((h.data.getD idx default).setExpiredTime now duration).setCycle cycled ::
        h.stored.eraseIdx idx) := by
  obtain ⟨hidx, -⟩ := indexOf_some hid
  have hfits' : h.size ≤ h.data.length := hfits
  rw [modify, hid]
  dsimp only
  generalize ((h.data.getD idx default).setExpiredTime now duration).setCycle cycled = task
  have hlength : (h.data.set idx task).length = h.data.length := List.length_set
  have hperm := take_set_perm_cons hfits hidx task
  -- both ways of moving the task rearrange the cells
  have hdown : ∃ h', ({ h with data := h.data.set idx task } : TimerTaskHeap Cb).moveDown idx =
      .ok h' ∧ h'.size = h.size ∧ h'.data.length = h.data.length ∧
      h'.stored.Perm (task :: h.stored.eraseIdx idx) := by
    obtain ⟨rounds, hrounds⟩ : ∃ rounds, h.size + 1 = rounds + 2 := ⟨h.size - 1, by omega⟩
    obtain ⟨data', hloop, hre⟩ := moveDownFrom_rearranged rounds
      (by omega : h.size ≤ (h.data.set idx task).length) hidx (by omega : idx < idx * 2 + 1)
      (by omega)
    refine ⟨{ h with data := data' }, ?_, rfl, hre.length_eq.trans hlength, hre.perm.trans hperm⟩
    simp only [moveDown, hrounds, hloop, ok_bind]
  have hup : idx ≠ 0 → ∃ h', ({ h with data := h.data.set idx task } : TimerTaskHeap Cb).moveUp
      idx = .ok h' ∧ h'.size = h.size ∧ h'.data.length = h.data.length ∧
      h'.stored.Perm (task :: h.stored.eraseIdx idx) := by
    intro hne
    obtain ⟨data', hloop, hre, -⟩ := moveUpFrom_spec (h.size + 1)
      (by omega : h.size ≤ (h.data.set idx task).length) hidx (by omega)
    refine ⟨{ h with data := data' }, ?_, rfl, hre.length_eq.trans hlength, hre.perm.trans hperm⟩
    simp only [moveUp, if_neg hne, hloop, ok_bind]
  obtain ⟨h', hmove, hrest⟩ := hdown
  split
  case isTrue => exact ⟨h', by rw [hmove, ok_bind], hrest⟩
  case isFalse hne =>
    split
    case isTrue => exact ⟨h', by rw [hmove, ok_bind], hrest⟩
    case isFalse =>
      obtain ⟨h'', hmove', hrest'⟩ := hup hne
      exact ⟨h'', by rw [hmove', ok_bind], hrest'⟩

theorem indexOf_eq_none_iff : h.indexOf id = none ↔ ∀ task ∈ h.stored, task.id ≠ id := by
  rw [indexOf, List.findIdx?_eq_none_iff, stored]
  simp only [beq_eq_false_iff_ne, ne_eq]

theorem getD_mem_stored (hfits : h.Fits) (hid : h.indexOf id = some idx) :
    h.data.getD idx default ∈ h.stored ∧
      h.stored.Perm (h.data.getD idx default :: h.stored.eraseIdx idx) := by
  obtain ⟨hidx, -⟩ := indexOf_some hid
  have hperm := take_perm_cons hfits hidx
  exact ⟨hperm.mem_iff.mpr (List.mem_cons_self ..), hperm⟩

/-- `pop(task)` drops the root, if that is sifted to the last cell, and otherwise another task,
and adds the root again when it is cyclic. -/
theorem popTask_stored (hfits : h.Fits) (hpos : 0 < h.size) (now : ℕ) :
    ∃ popped h' dropped rest, h.popTask now = .ok (some popped, h') ∧ h'.Fits ∧
      h.stored.Perm (dropped :: rest) ∧
      (LeadsTo (timeAt h.data) h.size 0 (h.size - 1) → dropped = h.data.getD 0 default) ∧
      (¬ LeadsTo (timeAt h.data) h.size 0 (h.size - 1) → h.data.getD 0 default ∈ rest) ∧
      ((h.data.getD 0 default).cycled = false ∧ popped = h.data.getD 0 default ∧
          h'.stored.Perm rest ∨
        (h.data.getD 0 default).cycled = true ∧
          popped = (h.data.getD 0 default).setExpiredTime now (h.data.getD 0 default).duration ∧
          h'.stored.Perm (popped :: rest)) := by
  obtain ⟨h', dropped, hremove, hsize, hlength, hperm, hends, hstays⟩ :=
    remove_stored hfits (indexOf_root hpos hfits)
  have hfits' : h.size ≤ h.data.length := hfits
  rw [popTask, if_neg (by omega)]
  simp only [hremove, ok_bind]
  cases hcycled : (h.data.getD 0 default).cycled with
  | false =>
      refine ⟨_, h', dropped, h'.stored, rfl, ?_, hperm, hends, hstays, .inl ⟨rfl, rfl, .refl _⟩⟩
      show h'.size ≤ h'.data.length
      omega
  | true =>
      obtain ⟨h'', hadd, hsize', hlength', hstored⟩ := add_stored
        (by omega : h'.size < h'.data.length)
        ((h.data.getD 0 default).setExpiredTime now (h.data.getD 0 default).duration)
      refine ⟨_, h'', dropped, h'.stored, by rw [if_pos rfl, hadd, ok_bind], ?_, hperm, hends,
        hstays, .inr ⟨rfl, rfl, hstored⟩⟩
      show h''.size ≤ h''.data.length
      omega

end TimerTaskHeap

/-! ### The map -/

namespace TimerTaskMap

def stored (m : TimerTaskMap Cb) : TaskSet Cb := m.data.map Prod.snd

/-- The entries are in order, and no two tasks share an id. -/
structure Kept (m : TimerTaskMap Cb) : Prop extends Sorted m.data where
  ids : (m.stored.map TimerTask.id).Nodup

variable {m : TimerTaskMap Cb} {data : List (IdTimestampPair × TimerTask Cb)} {id : ℕ}

theorem kept_new (Cb : Type) (capacity : ℕ) : (new Cb capacity).Kept where
  keyed := by simp [new]
  sorted := .nil
  ids := .nil

theorem Kept.distinct (h : m.Kept) : m.stored.Distinct where
  ids := h.ids
  times := by
    rw [stored, List.map_map, List.nodup_iff_pairwise_ne, List.pairwise_map]
    exact h.sorted.imp ne_of_lt

theorem Kept.sublist (h : m.Kept) (hsub : data.Sublist m.data) :
    ({ m with data := data } : TimerTaskMap Cb).Kept where
  toSorted := h.toSorted.sublist hsub
  ids := h.ids.sublist ((hsub.map Prod.snd).map TimerTask.id)

/-- A task with a new id can be put at its key only when its deadline is new, and is stored
besides the others then. -/
theorem Kept.put (h : m.Kept) {onHit : TimerTask Cb → TimerTask Cb} {task : TimerTask Cb}
    (hfresh : ∀ u ∈ m.stored, u.id ≠ task.id)
    (hput : TimerTaskMap.put onHit (hash task) task m.data = .ok data) :
    (∀ u ∈ m.stored, u.expiredTime ≠ task.expiredTime) ∧
      ({ m with data := data } : TimerTaskMap Cb).Kept ∧
      ({ m with data := data } : TimerTaskMap Cb).stored.Perm (task :: m.stored) := by
  obtain ⟨horder, rfl⟩ := put_eq_ok.mp hput
  have hids : ((task :: m.stored).map TimerTask.id).Nodup := TaskSet.nodup_map_cons hfresh h.ids
  have hdistinct : TaskSet.Distinct (task :: m.stored) :=
    ⟨hids, (strictWeakOn_tasks_iff h.keyed hids).mp horder⟩
  obtain ⟨hperm, hsorted⟩ := place_perm onHit h.toSorted fun entry hentry =>
    ⟨hfresh entry.2 (List.mem_map_of_mem hentry),
      hdistinct.time_ne entry.2 (List.mem_map_of_mem hentry)⟩
  have hstored : ({ m with data := place onHit (hash task) task m.data } :
      TimerTaskMap Cb).stored.Perm (task :: m.stored) := hperm.map Prod.snd
  exact ⟨hdistinct.time_ne, ⟨hsorted, (hstored.map TimerTask.id).nodup_iff.mpr hids⟩, hstored⟩

theorem Kept.put_ok (h : m.Kept) (onHit : TimerTask Cb → TimerTask Cb) {task : TimerTask Cb}
    (hfresh : ∀ u ∈ m.stored, u.id ≠ task.id)
    (htime : ∀ u ∈ m.stored, u.expiredTime ≠ task.expiredTime) :
    ∃ data, TimerTaskMap.put onHit (hash task) task m.data = .ok data := by
  have hdistinct : TaskSet.Distinct (task :: m.stored) :=
    ⟨TaskSet.nodup_map_cons hfresh h.ids, TaskSet.nodup_map_cons htime h.distinct.times⟩
  exact ⟨_, put_eq_ok.mpr
    ⟨(strictWeakOn_tasks_iff h.keyed hdistinct.ids).mpr hdistinct.times, rfl⟩⟩

/-- The map takes a task with a new id exactly when its deadline is new. -/
theorem Kept.add (h : m.Kept) {task : TimerTask Cb} (hfresh : ∀ u ∈ m.stored, u.id ≠ task.id) :
    (∀ u ∈ m.stored, u.expiredTime ≠ task.expiredTime) ↔
      ∃ m', m.add task = .ok (task.id, m') ∧ m'.Kept ∧ m'.stored.Perm (task :: m.stored) := by
  constructor
  · intro htime
    obtain ⟨data, hput⟩ := h.put_ok (fun _ => task) hfresh htime
    obtain ⟨-, hkept, hstored⟩ := h.put hfresh hput
    exact ⟨_, add_eq_ok.mpr ⟨data, hput, rfl, rfl⟩, hkept, hstored⟩
  · rintro ⟨m', hadd, -⟩
    obtain ⟨data, hput, -⟩ := add_eq_ok.mp hadd
    exact (h.put hfresh hput).1

theorem Kept.find_eq_none_iff (h : m.Kept) :
    m.data.find? (hasId id) = none ↔ ∀ task ∈ m.stored, task.id ≠ id := by
  rw [List.find?_eq_none]
  constructor
  · intro hnone task htask
    obtain ⟨entry, hentry, rfl⟩ := List.mem_map.mp htask
    have hkey := hnone entry hentry
    rw [hasId, h.keyed entry hentry] at hkey
    simpa [hash] using hkey
  · intro hnone entry hentry
    rw [hasId, h.keyed entry hentry]
    simpa [hash] using hnone entry.2 (List.mem_map_of_mem hentry)

theorem Kept.find (h : m.Kept) {entry : IdTimestampPair × TimerTask Cb}
    (hfind : m.data.find? (hasId id) = some entry) :
    entry.2.id = id ∧
      m.stored.Perm
        (entry.2 :: ({ m with data := m.data.eraseP (hasId id) } : TimerTaskMap Cb).stored) ∧
      ({ m with data := m.data.eraseP (hasId id) } : TimerTaskMap Cb).Kept ∧
      ∀ u ∈ ({ m with data := m.data.eraseP (hasId id) } : TimerTaskMap Cb).stored, u.id ≠ id := by
  obtain ⟨hkey, hdata⟩ := find_perm hfind
  rw [h.keyed entry (List.mem_of_find?_eq_some hfind)] at hkey
  have hid : entry.2.id = id := hkey
  have hperm : m.stored.Perm
      (entry.2 :: ({ m with data := m.data.eraseP (hasId id) } : TimerTaskMap Cb).stored) :=
    hdata.map Prod.snd
  refine ⟨hid, hperm, h.sublist List.eraseP_sublist, fun u hu heq => ?_⟩
  have hnodup := (hperm.map TimerTask.id).nodup_iff.mp h.ids
  rw [List.map_cons, List.nodup_cons] at hnodup
  exact hnodup.1 (List.mem_map.mpr ⟨u, hu, heq.trans hid.symm⟩)

theorem Kept.remove (h : m.Kept) {entry : IdTimestampPair × TimerTask Cb}
    (hfind : m.data.find? (hasId id) = some entry) :
    ∃ m', m.remove id = (true, m') ∧ m'.Kept ∧ m.stored.Perm (entry.2 :: m'.stored) := by
  obtain ⟨-, hperm, hkept, -⟩ := h.find hfind
  exact ⟨_, by rw [TimerTaskMap.remove, hfind], hkept, hperm⟩

theorem Kept.mem_remove (h : m.Kept) {u : TimerTask Cb} (hu : u ∈ m.stored) (hne : u.id ≠ id) :
    u ∈ (m.remove id).2.stored := by
  cases hfind : m.data.find? (hasId id) with
  | none =>
      rw [TimerTaskMap.remove, hfind]
      exact hu
  | some entry =>
      obtain ⟨hid, -⟩ := h.find hfind
      obtain ⟨m', hremove, -, hperm⟩ := h.remove hfind
      rw [hremove]
      rcases List.mem_cons.mp (hperm.mem_iff.mp hu) with rfl | hu
      · exact absurd hid hne
      · exact hu

theorem Kept.modify (h : m.Kept) {entry : IdTimestampPair × TimerTask Cb}
    (hfind : m.data.find? (hasId id) = some entry) {duration : ℕ} {cycled : Bool} {now : ℕ}
    {ok : Bool} {m' : TimerTaskMap Cb} (hmodify : m.modify id duration cycled now = .ok (ok, m')) :
    ok = true ∧ m'.Kept ∧ ∃ rest, m.stored.Perm (entry.2 :: rest) ∧
      m'.stored.Perm ((entry.2.setExpiredTime now duration).setCycle cycled :: rest) := by
  obtain ⟨hid, hperm, hkept, hfresh⟩ := h.find hfind
  have hfresh' : ∀ u ∈ ({ m with data := m.data.eraseP (hasId id) } : TimerTaskMap Cb).stored,
      u.id ≠ ((entry.2.setExpiredTime now duration).setCycle cycled).id :=
    fun u hu heq => hfresh u hu (heq.trans hid)
  rw [TimerTaskMap.modify, hfind] at hmodify
  obtain ⟨data', hput, heq⟩ := bind_eq_ok.mp hmodify
  cases heq
  obtain ⟨-, hkept', hstored⟩ := hkept.put hfresh' hput
  exact ⟨rfl, hkept', _, hperm, hstored⟩

theorem Kept.modify_ok (h : m.Kept) {duration now : ℕ} (cycled : Bool)
    (htime : ∀ u ∈ m.stored, u.id ≠ id → u.expiredTime ≠ SizeT.add now duration) :
    ∃ ok m', m.modify id duration cycled now = .ok (ok, m') := by
  cases hfind : m.data.find? (hasId id) with
  | none => exact ⟨false, m, by rw [TimerTaskMap.modify, hfind]⟩
  | some entry =>
      obtain ⟨hid, hperm, hkept, hfresh⟩ := h.find hfind
      have hfresh' : ∀ u ∈ ({ m with data := m.data.eraseP (hasId id) } : TimerTaskMap Cb).stored,
          u.id ≠ ((entry.2.setExpiredTime now duration).setCycle cycled).id :=
        fun u hu heq => hfresh u hu (heq.trans hid)
      obtain ⟨data', hput⟩ := hkept.put_ok (fun t => t) hfresh'
        (fun u hu => htime u (hperm.mem_iff.mpr (List.mem_cons_of_mem _ hu)) (hfresh u hu))
      refine ⟨true, { m with data := data' }, ?_⟩
      rw [TimerTaskMap.modify, hfind]
      dsimp only
      rw [emplace, hput]
      rfl

theorem Kept.rest (h : m.Kept) {entry : IdTimestampPair × TimerTask Cb}
    {rest : List (IdTimestampPair × TimerTask Cb)} (hdata : m.data = entry :: rest) :
    ({ m with data := rest } : TimerTaskMap Cb).Kept ∧ m.stored = entry.2 :: rest.map Prod.snd ∧
      ∀ u ∈ rest.map Prod.snd, u.id ≠ entry.2.id := by
  have hstored : m.stored = entry.2 :: rest.map Prod.snd := by
    rw [stored, hdata, List.map_cons]
  refine ⟨h.sublist ?_, hstored, fun u hu heq => ?_⟩
  · rw [hdata]
    exact List.sublist_cons_self ..
  · have hids := h.ids
    rw [hstored, List.map_cons, List.nodup_cons] at hids
    exact hids.1 (heq ▸ List.mem_map_of_mem hu)

/-- `pop(task)` takes out the first task, and puts it back when it is cyclic. -/
theorem Kept.popTask (h : m.Kept) {entry : IdTimestampPair × TimerTask Cb}
    {rest : List (IdTimestampPair × TimerTask Cb)} (hdata : m.data = entry :: rest) {now : ℕ}
    {popped : Option (TimerTask Cb)} {m' : TimerTaskMap Cb}
    (hpop : m.popTask now = .ok (popped, m')) :
    m'.Kept ∧
      (entry.2.cycled = false ∧ popped = some entry.2 ∧ m'.stored = rest.map Prod.snd ∨
        entry.2.cycled = true ∧ popped = some (entry.2.setExpiredTime now entry.2.duration) ∧
          m'.stored.Perm (entry.2.setExpiredTime now entry.2.duration :: rest.map Prod.snd)) := by
  obtain ⟨hkept, -, hfresh⟩ := h.rest hdata
  rw [TimerTaskMap.popTask, hdata] at hpop
  dsimp only at hpop
  cases hcycled : entry.2.cycled with
  | false =>
      rw [hcycled, if_neg Bool.false_ne_true] at hpop
      cases hpop
      exact ⟨hkept, .inl ⟨rfl, rfl, rfl⟩⟩
  | true =>
      rw [hcycled, if_pos rfl] at hpop
      obtain ⟨data', hput, heq⟩ := bind_eq_ok.mp hpop
      cases heq
      have hfresh' : ∀ u ∈ ({ m with data := rest } : TimerTaskMap Cb).stored,
          u.id ≠ (entry.2.setExpiredTime now entry.2.duration).id := hfresh
      obtain ⟨-, hkept', hstored⟩ := hkept.put hfresh' hput
      exact ⟨hkept', .inr ⟨rfl, rfl, hstored⟩⟩

/-- A cyclic task is put back exactly when its next deadline is new. -/
theorem Kept.popTask_ok_iff (h : m.Kept) {entry : IdTimestampPair × TimerTask Cb}
    {rest : List (IdTimestampPair × TimerTask Cb)} (hdata : m.data = entry :: rest) (now : ℕ) :
    (∃ popped m', m.popTask now = .ok (popped, m')) ↔
      (entry.2.cycled = true →
        ∀ u ∈ rest.map Prod.snd, u.expiredTime ≠ SizeT.add now entry.2.duration) := by
  obtain ⟨hkept, -, hfresh⟩ := h.rest hdata
  have hfresh' : ∀ u ∈ ({ m with data := rest } : TimerTaskMap Cb).stored,
      u.id ≠ (entry.2.setExpiredTime now entry.2.duration).id := hfresh
  rw [TimerTaskMap.popTask, hdata]
  dsimp only
  cases hcycled : entry.2.cycled with
  | false =>
      rw [if_neg Bool.false_ne_true]
      exact iff_of_true ⟨_, _, rfl⟩ fun h => absurd h Bool.false_ne_true
  | true =>
      rw [if_pos rfl]
      constructor
      · rintro ⟨popped, m', hpop⟩ -
        obtain ⟨data', hput, -⟩ := bind_eq_ok.mp hpop
        exact (hkept.put hfresh' hput).1
      · intro htime
        obtain ⟨data', hput⟩ := hkept.put_ok
          (fun _ => entry.2.setExpiredTime now entry.2.duration) hfresh' (htime rfl)
        rw [assign, hput]
        exact ⟨_, _, rfl⟩

end TimerTaskMap

end LpNet
