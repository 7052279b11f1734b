import LpNet.Timer.Content

/-!
The interface `TimerTaskBase` through which `Timer` calls its back end.

`Wf` holds of every back end that a run of calls leads to in which every added task
has a new id (`Reachable`). Each call has one lemma that says what it does to the tasks
that are stored, for both back ends.
-/

namespace LpNet

open BinaryHeap Transition

/-- `TimerTaskBase *tasks_`. -/
inductive TimerBackend (Cb : Type)
  | heap (h : TimerTaskHeap Cb)
  | map (m : TimerTaskMap Cb)
  deriving DecidableEq, Repr

namespace TimerBackend

variable {Cb : Type}

/-- What the constructor of `Timer` creates. `size` is what there is in memory where
`TimerTaskHeap` has `size_`, which its constructor does not set. -/
def new (Cb : Type) (capacity : ℕ) (heap : Bool) (size : ℕ) : TimerBackend Cb :=
  if heap then .heap { TimerTaskHeap.new Cb capacity with size := size }
  else .map (TimerTaskMap.new Cb capacity)

def size : TimerBackend Cb → ℕ
  | .heap h => h.size
  | .map m => m.size

def top : TimerBackend Cb → TimerTask Cb
  | .heap h => h.top
  | .map m => m.top

def add (b : TimerBackend Cb) (task : TimerTask Cb) : Except Fault (ℕ × TimerBackend Cb) :=
  match b with
  | .heap h => do
      let (id, h) ← h.add task
      .ok (id, .heap h)
  | .map m => do
      let (id, m) ← m.add task
      .ok (id, .map m)

def remove (b : TimerBackend Cb) (id : ℕ) : Except Fault (Bool × TimerBackend Cb) :=
  match b with
  | .heap h => do
      let (ok, h) ← h.remove id
      .ok (ok, .heap h)
  | .map m =>
      let (ok, m) := m.remove id
      .ok (ok, .map m)

def modify (b : TimerBackend Cb) (id duration : ℕ) (cycled : Bool) (now : ℕ) :
    Except Fault (Bool × TimerBackend Cb) :=
  match b with
  | .heap h => do
      let (ok, h) ← h.modify id duration cycled now
      .ok (ok, .heap h)
  | .map m => do
      let (ok, m) ← m.modify id duration cycled now
      .ok (ok, .map m)

/-- `pop(task)`. -/
def popTask (b : TimerBackend Cb) (now : ℕ) :
    Except Fault (Option (TimerTask Cb) × TimerBackend Cb) :=
  match b with
  | .heap h => do
      let (task, h) ← h.popTask now
      .ok (task, .heap h)
  | .map m => do
      let (task, m) ← m.popTask now
      .ok (task, .map m)

inductive Call (Cb : Type)
  | add (task : TimerTask Cb)
  | remove (id : ℕ)
  | modify (id duration : ℕ) (cycled : Bool) (now : ℕ)
  | popTask (now : ℕ)

def backendStep (b : TimerBackend Cb) : Call Cb → Except Fault (TimerResult Cb × TimerBackend Cb)
  | .add task => do
      let (id, b) ← b.add task
      .ok (.added id, b)
  | .remove id => do
      let (ok, b) ← b.remove id
      .ok (.done ok, b)
  | .modify id duration cycled now => do
      let (ok, b) ← b.modify id duration cycled now
      .ok (.done ok, b)
  | .popTask now => do
      let (task, b) ← b.popTask now
      .ok (.popped task, b)

/-! ### The tasks that are stored -/

def stored : TimerBackend Cb → TaskSet Cb
  | .heap h => h.stored
  | .map m => m.stored

def FreshId (b : TimerBackend Cb) : Call Cb → Prop
  | .add task => ∀ u ∈ b.stored, u.id ≠ task.id
  | _ => True

/-- The calls so far added tasks with new ids only, and `size_` started inside the array. -/
def Reachable (b : TimerBackend Cb) : Prop :=
  ∃ capacity heap size calls results, size ≤ capacity ∧
    Along backendStep FreshId (new Cb capacity heap size) calls ∧
    run backendStep (new Cb capacity heap size) calls = .ok (results, b)

def Wf : TimerBackend Cb → Prop
  | .heap h => h.Fits
  | .map m => m.Kept

/-- There are cells for so many more tasks. -/
def HasRoom (n : ℕ) : TimerBackend Cb → Prop
  | .heap h => h.size + n ≤ h.data.length
  | .map _ => True

/-- A map can order these tasks: no two of them have the same deadline. -/
def Orders (tasks : TaskSet Cb) : TimerBackend Cb → Prop
  | .heap _ => True
  | .map _ => (tasks.map TimerTask.expiredTime).Nodup

/-- A map can order its tasks when a cyclic one at the top is given its next deadline. -/
def Rearms (now : ℕ) : TimerBackend Cb → Prop
  | .heap _ => True
  | .map m => m.top.cycled = true →
      ∀ u ∈ m.stored, u.id ≠ m.top.id → u.expiredTime ≠ SizeT.add now m.top.duration

/-- A task that is removed is the one that is given up: in a heap it is sifted to the last cell. -/
def GivesUp (id : ℕ) : TimerBackend Cb → Prop
  | .heap h => h.Keeps (.remove id)
  | .map _ => True

variable {b b' : TimerBackend Cb} {task t : TimerTask Cb} {id : ℕ}

theorem new_wf {capacity size : ℕ} (heap : Bool) (hsize : size ≤ capacity) :
    (new Cb capacity heap size).Wf := by
  cases heap with
  | true =>
      show size ≤ (List.replicate capacity default).length
      rw [List.length_replicate]
      exact hsize
  | false => exact TimerTaskMap.kept_new Cb capacity

theorem Orders.perm {s s' : TaskSet Cb} (h : b.Orders s) (hperm : s.Perm s') : b.Orders s' := by
  cases b with
  | heap _ => trivial
  | map _ => exact (hperm.map _).nodup_iff.mp h

theorem Orders.sublist {s s' : TaskSet Cb} (h : b.Orders s) (hsub : s'.Sublist s) :
    b.Orders s' := by
  cases b with
  | heap _ => trivial
  | map _ => exact h.sublist (hsub.map _)

theorem orders_cons_iff {m : TimerTaskMap Cb} (hw : m.Kept) :
    (map m).Orders (task :: m.stored) ↔ ∀ u ∈ m.stored, u.expiredTime ≠ task.expiredTime := by
  show ((task :: m.stored).map TimerTask.expiredTime).Nodup ↔ _
  refine ⟨fun h u hu heq => ?_, fun h => TaskSet.nodup_map_cons h hw.distinct.times⟩
  exact (List.nodup_cons.mp h).1 (heq ▸ List.mem_map_of_mem hu)

theorem Wf.add (hw : b.Wf) (hfresh : ∀ u ∈ b.stored, u.id ≠ task.id) (hroom : b.HasRoom 1)
    (horders : b.Orders (task :: b.stored)) :
    ∃ b', b.add task = .ok (task.id, b') ∧ b'.Wf ∧ b'.stored.Perm (task :: b.stored) ∧
      (∀ n, b'.HasRoom n ↔ b.HasRoom (n + 1)) ∧ ∀ tasks, b'.Orders tasks ↔ b.Orders tasks := by
  cases b with
  | heap h =>
      have hlt : h.size + 1 ≤ h.data.length := hroom
      obtain ⟨h', hadd, hsize, hlength, hstored⟩ := TimerTaskHeap.add_stored hlt task
      refine ⟨.heap h', by rw [TimerBackend.add, hadd, ok_bind], ?_, hstored, fun n => ?_,
        fun _ => Iff.rfl⟩
      · show h'.size ≤ h'.data.length
        omega
      · show h'.size + n ≤ h'.data.length ↔ h.size + (n + 1) ≤ h.data.length
        omega
  | map m =>
      obtain ⟨m', hadd, hkept, hstored⟩ :=
        (TimerTaskMap.Kept.add hw hfresh).mp ((orders_cons_iff hw).mp horders)
      exact ⟨.map m', by rw [TimerBackend.add, hadd, ok_bind], hkept, hstored, fun _ => Iff.rfl,
        fun _ => Iff.rfl⟩

theorem Wf.orders_of_add {n : ℕ} (hw : b.Wf) (hfresh : ∀ u ∈ b.stored, u.id ≠ task.id)
    (hadd : b.add task = .ok (n, b')) : b.Orders (task :: b.stored) := by
  cases b with
  | heap h => trivial
  | map m =>
      obtain ⟨⟨id, m'⟩, hadd, -⟩ := bind_eq_ok.mp hadd
      obtain ⟨data, hput, -⟩ := TimerTaskMap.add_eq_ok.mp hadd
      exact (orders_cons_iff hw).mpr (TimerTaskMap.Kept.put hw hfresh hput).1

theorem HasRoom.mono {n k : ℕ} (h : b.HasRoom n) (hle : k ≤ n) : b.HasRoom k := by
  cases b with
  | heap h' =>
      have hroom : h'.size + n ≤ h'.data.length := h
      show h'.size + k ≤ h'.data.length
      omega
  | map m => trivial

/-- A full heap writes past its array. -/
theorem add_no_room (hroom : ¬ b.HasRoom 1) : b.add task = .error .outOfBounds := by
  cases b with
  | heap h =>
      have hfull : ¬ h.size + 1 ≤ h.data.length := hroom
      rw [add, TimerTaskHeap.add_full (by omega), error_bind]
  | map m => exact absurd trivial hroom

theorem Wf.remove_absent (hw : b.Wf) (habsent : ∀ u ∈ b.stored, u.id ≠ id) :
    b.remove id = .ok (false, b) := by
  cases b with
  | heap h =>
      have hid := TimerTaskHeap.indexOf_eq_none_iff.mpr habsent
      rw [TimerBackend.remove, TimerTaskHeap.remove, hid]
      rfl
  | map m =>
      have hfind := (TimerTaskMap.Kept.find_eq_none_iff hw).mpr habsent
      rw [TimerBackend.remove, TimerTaskMap.remove, hfind]

theorem Wf.remove_total (hw : b.Wf) (id : ℕ) : ∃ ok b', b.remove id = .ok (ok, b') ∧ b'.Wf := by
  by_cases habsent : ∀ u ∈ b.stored, u.id ≠ id
  case pos => exact ⟨false, b, hw.remove_absent habsent, hw⟩
  case neg =>
    cases b with
    | heap h =>
        have hfits : h.size ≤ h.data.length := hw
        cases hid : h.indexOf id with
        | none => exact absurd (TimerTaskHeap.indexOf_eq_none_iff.mp hid) habsent
        | some idx =>
            obtain ⟨h', dropped, hremove, hsize, hlength, -⟩ := TimerTaskHeap.remove_stored hw hid
            refine ⟨true, .heap h', by rw [TimerBackend.remove, hremove, ok_bind], ?_⟩
            show h'.size ≤ h'.data.length
            omega
    | map m =>
        cases hfind : m.data.find? (TimerTaskMap.hasId id) with
        | none => exact absurd ((TimerTaskMap.Kept.find_eq_none_iff hw).mp hfind) habsent
        | some entry =>
            obtain ⟨m', hremove, hkept, -⟩ := TimerTaskMap.Kept.remove hw hfind
            exact ⟨true, .map m', by rw [TimerBackend.remove, hremove], hkept⟩

theorem Wf.modify_kept {duration now : ℕ} {cycled ok : Bool} (hw : b.Wf)
    (hmodify : b.modify id duration cycled now = .ok (ok, b')) :
    b'.Wf ∧ ∀ u ∈ b'.stored, u.id ≠ id → u ∈ b.stored := by
  cases b with
  | heap h =>
      have hfits : h.size ≤ h.data.length := hw
      cases hid : h.indexOf id with
      | none =>
          rw [TimerBackend.modify, TimerTaskHeap.modify, hid] at hmodify
          cases hmodify
          exact ⟨hw, fun u hu _ => hu⟩
      | some idx =>
          obtain ⟨h', hmodify', hsize, hlength, hstored⟩ :=
            TimerTaskHeap.modify_stored hw hid duration cycled now
          rw [TimerBackend.modify, hmodify', ok_bind] at hmodify
          cases hmodify
          refine ⟨?_, fun u hu hne => ?_⟩
          · show h'.size ≤ h'.data.length
            omega
          · rcases List.mem_cons.mp (hstored.mem_iff.mp hu) with rfl | hu
            · exact absurd (TimerTaskHeap.indexOf_some hid).2 hne
            · exact List.mem_of_mem_eraseIdx hu
  | map m =>
      obtain ⟨⟨ok', m'⟩, hmodified, heq⟩ := bind_eq_ok.mp hmodify
      cases heq
      cases hfind : m.data.find? (TimerTaskMap.hasId id) with
      | none =>
          rw [TimerTaskMap.modify, hfind] at hmodified
          cases hmodified
          exact ⟨hw, fun u hu _ => hu⟩
      | some entry =>
          obtain ⟨-, hkept, rest, hperm, hstored⟩ := TimerTaskMap.Kept.modify hw hfind hmodified
          refine ⟨hkept, fun u hu hne => ?_⟩
          rcases List.mem_cons.mp (hstored.mem_iff.mp hu) with rfl | hu
          · exact absurd (TimerTaskMap.Kept.find hw hfind).1 hne
          · exact hperm.mem_iff.mpr (List.mem_cons_of_mem _ hu)

section Single

variable {rest : TaskSet Cb}

theorem eq_of_id {s : TaskSet Cb} (hperm : s.Perm (t :: rest)) (hother : ∀ u ∈ rest, u.id ≠ t.id)
    {u : TimerTask Cb} (hu : u ∈ s) (hid : u.id = t.id) : u = t := by
  rcases List.mem_cons.mp (hperm.mem_iff.mp hu) with rfl | hu
  · rfl
  · exact absurd hid (hother u hu)

theorem indexOf_single {h : TimerTaskHeap Cb} (hfits : h.Fits) (hperm : h.stored.Perm (t :: rest))
    (hother : ∀ u ∈ rest, u.id ≠ t.id) :
    ∃ idx, h.indexOf t.id = some idx ∧ h.data.getD idx default = t := by
  have ht : t ∈ h.stored := hperm.mem_iff.mpr (List.mem_cons_self ..)
  cases hid : h.indexOf t.id with
  | none => exact absurd rfl (TimerTaskHeap.indexOf_eq_none_iff.mp hid t ht)
  | some idx =>
      refine ⟨idx, rfl, ?_⟩
      exact eq_of_id hperm hother (TimerTaskHeap.getD_mem_stored hfits hid).1
        (TimerTaskHeap.indexOf_some hid).2

theorem find_single {m : TimerTaskMap Cb} (hkept : m.Kept) (hperm : m.stored.Perm (t :: rest))
    (hother : ∀ u ∈ rest, u.id ≠ t.id) :
    ∃ entry, m.data.find? (TimerTaskMap.hasId t.id) = some entry ∧ entry.2 = t := by
  have ht : t ∈ m.stored := hperm.mem_iff.mpr (List.mem_cons_self ..)
  cases hfind : m.data.find? (TimerTaskMap.hasId t.id) with
  | none => exact absurd rfl (hkept.find_eq_none_iff.mp hfind t ht)
  | some entry =>
      refine ⟨entry, rfl, eq_of_id hperm hother ?_ (hkept.find hfind).1⟩
      exact List.mem_map_of_mem (List.mem_of_find?_eq_some hfind)

/-- The id of a task that no other task has is found at the task. -/
theorem Wf.remove_single (hw : b.Wf) (hperm : b.stored.Perm (t :: rest))
    (hother : ∀ u ∈ rest, u.id ≠ t.id) :
    ∃ b', b.remove t.id = .ok (true, b') ∧ b'.Wf ∧ (b.GivesUp t.id → b'.stored.Perm rest) ∧
      (¬ b.GivesUp t.id → t ∈ b'.stored) := by
  cases b with
  | heap h =>
      have hfits : h.size ≤ h.data.length := hw
      obtain ⟨idx, hid, hfound⟩ := indexOf_single hw hperm hother
      obtain ⟨h', dropped, hremove, hsize, hlength, hdropped, hends, hstays⟩ :=
        TimerTaskHeap.remove_stored hw hid
      rw [hfound] at hends hstays
      refine ⟨.heap h', by rw [TimerBackend.remove, hremove, ok_bind], ?_, fun hgives => ?_,
        fun hgives => ?_⟩
      · show h'.size ≤ h'.data.length
        omega
      · rw [hends (hgives idx hid)] at hdropped
        exact (hdropped.symm.trans hperm).cons_inv
      · refine hstays fun hleads => hgives fun idx' hid' => ?_
        rw [hid] at hid'
        cases hid'
        exact hleads
  | map m =>
      obtain ⟨entry, hfind, hfound⟩ := find_single hw hperm hother
      obtain ⟨m', hremove, hkept, hstored⟩ := TimerTaskMap.Kept.remove hw hfind
      rw [hfound] at hstored
      exact ⟨.map m', by rw [TimerBackend.remove, hremove], hkept,
        fun _ => (hstored.symm.trans hperm).cons_inv, fun hgives => absurd trivial hgives⟩

theorem Wf.modify_single (hw : b.Wf) (hperm : b.stored.Perm (t :: rest))
    (hother : ∀ u ∈ rest, u.id ≠ t.id) {duration now : ℕ} {cycled : Bool}
    (horders : b.Orders ((t.setExpiredTime now duration).setCycle cycled :: rest)) :
    ∃ b', b.modify t.id duration cycled now = .ok (true, b') ∧ b'.Wf ∧
      b'.stored.Perm ((t.setExpiredTime now duration).setCycle cycled :: rest) := by
  cases b with
  | heap h =>
      have hfits : h.size ≤ h.data.length := hw
      obtain ⟨idx, hid, hfound⟩ := indexOf_single hw hperm hother
      have hcell := (TimerTaskHeap.getD_mem_stored hw hid).2
      obtain ⟨h', hmodify, hsize, hlength, hstored⟩ :=
        TimerTaskHeap.modify_stored hw hid duration cycled now
      rw [hfound] at hcell hstored
      refine ⟨.heap h', by rw [TimerBackend.modify, hmodify, ok_bind], ?_,
        hstored.trans ((hcell.symm.trans hperm).cons_inv.cons _)⟩
      show h'.size ≤ h'.data.length
      omega
  | map m =>
      obtain ⟨entry, hfind, hfound⟩ := find_single hw hperm hother
      have htimes : ∀ u ∈ m.stored, u.id ≠ t.id → u.expiredTime ≠ SizeT.add now duration := by
        intro u hu hne heq
        rcases List.mem_cons.mp (hperm.mem_iff.mp hu) with rfl | hu
        · exact hne rfl
        · exact (List.nodup_cons.mp horders).1 (List.mem_map.mpr ⟨u, hu, heq⟩)
      obtain ⟨ok, m', hmodify⟩ := TimerTaskMap.Kept.modify_ok hw cycled htimes
      obtain ⟨rfl, hkept, others, hothers, hstored⟩ :=
        TimerTaskMap.Kept.modify hw hfind hmodify
      rw [hfound] at hothers hstored
      exact ⟨.map m', by rw [TimerBackend.modify, hmodify, ok_bind], hkept,
        hstored.trans ((hothers.symm.trans hperm).cons_inv.cons _)⟩

end Single

/-- The first task is the one that `pop` gives up: in a heap it is sifted to the last cell. -/
def GivesUpTop : TimerBackend Cb → Prop
  | .heap h => LeadsTo (TimerTaskHeap.timeAt h.data) h.size 0 (h.size - 1)
  | .map _ => True

theorem Wf.popTask {now : ℕ} (hw : b.Wf) (hsize : b.size ≠ 0) (hrearms : b.Rearms now) :
    ∃ popped b' dropped rest, b.popTask now = .ok (some popped, b') ∧ b'.Wf ∧
      b.stored.Perm (dropped :: rest) ∧ (b.GivesUpTop → dropped = b.top) ∧
      (¬ b.GivesUpTop → b.top ∈ rest) ∧
      (b.top.cycled = false ∧ popped = b.top ∧ b'.stored.Perm rest ∨
        b.top.cycled = true ∧ popped = b.top.setExpiredTime now b.top.duration ∧
          b'.stored.Perm (popped :: rest)) := by
  cases b with
  | heap h =>
      have hfits : h.size ≤ h.data.length := hw
      have hpos : 0 < h.size := Nat.pos_of_ne_zero hsize
      have htop : (TimerBackend.heap h).top = h.data.getD 0 default :=
        TimerTaskHeap.top_eq_getD hfits hpos
      obtain ⟨popped, h', dropped, rest, hpop, hwf, hperm, hends, hstays, hcases⟩ :=
        TimerTaskHeap.popTask_stored hw hpos now
      rw [← htop] at hends hstays hcases
      exact ⟨popped, .heap h', dropped, rest, by rw [TimerBackend.popTask, hpop, ok_bind], hwf,
        hperm, hends, hstays, hcases⟩
  | map m =>
      obtain ⟨entry, rest, hdata⟩ :=
        List.exists_cons_of_ne_nil fun hnil => hsize (List.length_eq_zero_iff.mpr hnil)
      have htop : m.top = entry.2 := by rw [TimerTaskMap.top, hdata]
      obtain ⟨-, hstored, hother⟩ := TimerTaskMap.Kept.rest hw hdata
      have htimes : entry.2.cycled = true →
          ∀ u ∈ rest.map Prod.snd, u.expiredTime ≠ SizeT.add now entry.2.duration := by
        intro hcycled u hu
        rw [← htop]
        refine hrearms (by rw [htop]; exact hcycled) u ?_ (by rw [htop]; exact hother u hu)
        rw [hstored]
        exact List.mem_cons_of_mem _ hu
      obtain ⟨popped, m', hpop⟩ := (TimerTaskMap.Kept.popTask_ok_iff hw hdata now).mpr htimes
      obtain ⟨hkept, hcases⟩ := TimerTaskMap.Kept.popTask hw hdata hpop
      have htop' : (TimerBackend.map m).top = entry.2 := htop
      have hperm : (TimerBackend.map m).stored.Perm (entry.2 :: rest.map Prod.snd) :=
        .of_eq hstored
      rw [htop']
      rcases hcases with ⟨hcycled, rfl, heq⟩ | ⟨hcycled, rfl, hstored'⟩
      · exact ⟨_, .map m', entry.2, rest.map Prod.snd,
          by rw [TimerBackend.popTask, hpop, ok_bind], hkept, hperm, fun _ => rfl,
          fun hgives => absurd trivial hgives, .inl ⟨hcycled, rfl, .of_eq heq⟩⟩
      · exact ⟨_, .map m', entry.2, rest.map Prod.snd,
          by rw [TimerBackend.popTask, hpop, ok_bind], hkept, hperm, fun _ => rfl,
          fun hgives => absurd trivial hgives, .inr ⟨hcycled, rfl, hstored'⟩⟩

/-- A cyclic task is given its next deadline only where the map can order that. -/
theorem Wf.rearms_of_popTask {now : ℕ} {popped : Option (TimerTask Cb)} (hw : b.Wf)
    (hpop : b.popTask now = .ok (popped, b')) : b.Rearms now := by
  cases b with
  | heap h => trivial
  | map m =>
      obtain ⟨⟨task, m'⟩, hpop, -⟩ := bind_eq_ok.mp hpop
      intro hcycled u hu hne
      cases hdata : m.data with
      | nil =>
          rw [TimerTaskMap.stored, hdata] at hu
          cases hu
      | cons entry rest =>
          have htop : m.top = entry.2 := by rw [TimerTaskMap.top, hdata]
          obtain ⟨-, hstored, -⟩ := TimerTaskMap.Kept.rest hw hdata
          rw [htop] at hcycled hne ⊢
          rw [hstored] at hu
          refine (TimerTaskMap.Kept.popTask_ok_iff hw hdata now).mp ⟨task, m', hpop⟩ hcycled u ?_
          rcases List.mem_cons.mp hu with rfl | hu
          · exact absurd rfl hne
          · exact hu

theorem popTask_empty (hsize : b.size = 0) (now : ℕ) : b.popTask now = .ok (none, b) := by
  cases b with
  | heap h =>
      have hzero : h.size = 0 := hsize
      rw [popTask, TimerTaskHeap.popTask, if_pos hzero]
      rfl
  | map m =>
      have hnil : m.data = [] := List.length_eq_zero_iff.mp hsize
      rw [popTask, TimerTaskMap.popTask, hnil]
      rfl

/-- Every call with a new id keeps the back end well-formed. -/
theorem Wf.step {call : Call Cb} {result : TimerResult Cb} (hw : b.Wf) (hfresh : b.FreshId call)
    (hstep : b.backendStep call = .ok (result, b')) : b'.Wf := by
  cases call with
  | add task =>
      obtain ⟨⟨id, b''⟩, hadd, hstep⟩ := bind_eq_ok.mp hstep
      cases hstep
      by_cases hroom : b.HasRoom 1
      case neg =>
        rw [add_no_room hroom] at hadd
        cases hadd
      case pos =>
        obtain ⟨b'', hadd', hw', -⟩ := hw.add hfresh hroom (hw.orders_of_add hfresh hadd)
        rw [hadd'] at hadd
        cases hadd
        exact hw'
  | remove id =>
      obtain ⟨ok, b'', hremove, hw'⟩ := hw.remove_total id
      rw [backendStep, hremove, ok_bind] at hstep
      cases hstep
      exact hw'
  | modify id duration cycled now =>
      obtain ⟨⟨ok, b''⟩, hmodify, hstep⟩ := bind_eq_ok.mp hstep
      cases hstep
      exact (hw.modify_kept hmodify).1
  | popTask now =>
      obtain ⟨⟨popped, b''⟩, hpop, hstep⟩ := bind_eq_ok.mp hstep
      cases hstep
      by_cases hsize : b.size = 0
      case pos =>
        rw [popTask_empty hsize] at hpop
        cases hpop
        exact hw
      case neg =>
        obtain ⟨popped, b'', dropped, rest, hpop', hw', -⟩ :=
          hw.popTask hsize (hw.rearms_of_popTask hpop)
        rw [hpop'] at hpop
        cases hpop
        exact hw'

theorem Reachable.wf (h : b.Reachable) : b.Wf := by
  obtain ⟨capacity, heap, size, calls, results, hsize, hfresh, hrun⟩ := h
  exact inv_of_run (I := Wf) (fun _ _ _ _ hw hfresh hstep => hw.step hfresh hstep)
    (new_wf heap hsize) hfresh hrun

end TimerBackend

end LpNet
