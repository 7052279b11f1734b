import LpNet.Timer.Bounds
import LpNet.Timer.Firing
import LpNet.Timer.Removal

/-!
What `Timer::nextTimestamp` tells about a timer.

It takes a deadline of 0 at the top for a timer without tasks. That is what the map
answers without tasks, and what the heap answers until the first task was added; the cell
of the last task that was removed keeps its deadline. `tellsDue_iff` is about both back
ends after any run of calls.
-/

namespace LpNet

open BinaryHeap Transition

variable {Cb : Type}

/-! ### Calls on either back end -/

namespace TimerBackend

def perform (b : TimerBackend Cb) (op : TimerOp Cb) :
    Except Fault (TimerResult Cb × TimerBackend Cb) :=
  match b with
  | .heap h => do
      let (result, h) ← h.perform op
      .ok (result, .heap h)
  | .map m => do
      let (result, m) ← m.perform op
      .ok (result, .map m)

/-- The deadlines of the stored tasks are positive `uint64_t`s. -/
def Timed (b : TimerBackend Cb) : Prop :=
  ∀ task ∈ b.stored, 0 < task.expiredTime ∧ task.expiredTime < 2 ^ 64

instance (b : TimerBackend Cb) : Decidable b.Timed :=
  inferInstanceAs (Decidable (∀ task ∈ b.stored, 0 < task.expiredTime ∧ task.expiredTime < 2 ^ 64))

end TimerBackend

namespace Timer

/-- `nextTimestamp()` answers infinity exactly when there is no task, and otherwise how long it is
until the deadline at the top, which is that of a task. -/
structure TellsDue (s : Timer Cb) (now : ℕ) : Prop where
  infinity_iff : s.nextTimestamp now = Clock.infinity ↔ s.stored = []
  due : s.stored ≠ [] →
    (∃ task ∈ s.stored, task.expiredTime = s.tasks.top.expiredTime) ∧
      (s.nextTimestamp now : ℤ) = max 0 ((s.tasks.top.expiredTime : ℤ) - now)

/-- The clock says 0 and the deadline at the top is the last there is, so that the time until then
looks like infinity. -/
def LooksInfinite (s : Timer Cb) (now : ℕ) : Prop :=
  now = 0 ∧ s.tasks.top.expiredTime = Clock.infinity

variable {s : Timer Cb} {now : ℕ}

theorem nextTimestamp_of_pos (hpos : 0 < s.tasks.top.expiredTime) :
    s.nextTimestamp now = s.tasks.top.expiredTime - now := by
  rw [nextTimestamp, if_neg (by omega)]
  split <;> omega

theorem nextTimestamp_of_zero (hzero : s.tasks.top.expiredTime = 0) :
    s.nextTimestamp now = Clock.infinity := by
  rw [nextTimestamp, if_pos hzero]

theorem nextTimestamp_infinity_iff (hpos : 0 < s.tasks.top.expiredTime)
    (hlt : s.tasks.top.expiredTime < 2 ^ 64) :
    s.nextTimestamp now = Clock.infinity ↔ s.LooksInfinite now := by
  rw [nextTimestamp_of_pos hpos, LooksInfinite, Clock.infinity]
  omega

theorem tellsDue_of_mem (hmem : s.tasks.top ∈ s.stored) (hpos : 0 < s.tasks.top.expiredTime)
    (hlt : s.tasks.top.expiredTime < 2 ^ 64) : s.TellsDue now ↔ ¬ s.LooksInfinite now := by
  have hne : s.stored ≠ [] := List.ne_nil_of_mem hmem
  constructor
  · rintro ⟨hiff, -⟩ hlooks
    exact hne (hiff.mp ((nextTimestamp_infinity_iff hpos hlt).mpr hlooks))
  · intro hlooks
    refine ⟨?_, fun _ => ⟨⟨_, hmem, rfl⟩, ?_⟩⟩
    · rw [nextTimestamp_infinity_iff hpos hlt]
      exact iff_of_false hlooks hne
    · rw [nextTimestamp_of_pos hpos]
      omega

/-- Without a task the answer is right when it is infinity. -/
theorem tellsDue_of_nil (hnil : s.stored = []) :
    s.TellsDue now ↔ s.nextTimestamp now = Clock.infinity := by
  constructor
  · rintro ⟨hiff, -⟩
    exact hiff.mpr hnil
  · intro hinf
    exact ⟨iff_of_true hinf hnil, fun hne => absurd hnil hne⟩

end Timer

/-! ### A heap that has become empty -/

namespace TimerTaskHeap

variable {h h' : TimerTaskHeap Cb} {op : TimerOp Cb} {result : TimerResult Cb} {id : ℕ}

theorem indexOf_of_empty (hzero : h.size = 0) (id : ℕ) : h.indexOf id = none := by
  rw [indexOf_eq_none_iff, stored, hzero, List.take_zero]
  exact fun task htask => absurd htask List.not_mem_nil

/-- Removing the last task leaves it in its cell. -/
theorem remove_top {ok : Bool} (hremove : h.remove id = .ok (ok, h')) (hzero : h'.size = 0) :
    h'.top = h.top := by
  rw [remove] at hremove
  cases hid : h.indexOf id with
  | none =>
      rw [hid] at hremove
      cases hremove
      rfl
  | some idx =>
      obtain ⟨hidx, -⟩ := indexOf_some hid
      rw [hid, bind_eq_ok] at hremove
      obtain ⟨data, hloop, hremove⟩ := hremove
      cases hremove
      have hone : h.size - 1 = 0 := hzero
      rw [siftOut] at hloop
      dsimp only at hloop
      rw [if_neg (by omega)] at hloop
      cases hloop
      rfl

/-- Until a task is added nothing happens to an empty heap. -/
theorem perform_of_empty (hzero : h.size = 0) (hop : ¬ op.IsAdd)
    (hperform : h.perform op = .ok (result, h')) : h' = h := by
  cases op with
  | add task => exact absurd trivial hop
  | remove id =>
      rw [perform, remove, indexOf_of_empty hzero] at hperform
      cases hperform
      rfl
  | modify id duration cycled now =>
      rw [perform, modify, indexOf_of_empty hzero] at hperform
      cases hperform
      rfl
  | pop =>
      rw [perform, pop, if_pos hzero] at hperform
      cases hperform
      rfl
  | popTask now =>
      rw [perform, popTask, if_pos hzero] at hperform
      cases hperform
      rfl

theorem perform_top (hfits : h.Fits) (hperform : h.perform op = .ok (result, h'))
    (hzero : h'.size = 0) : h'.top = h.top := by
  obtain ⟨-, -, hsize⟩ := perform_size hfits hperform
  by_cases hempty : h.size = 0 ∧ ¬ op.IsAdd
  case pos => rw [perform_of_empty hempty.1 hempty.2 hperform]
  case neg =>
    have hne (hop : ¬ op.IsAdd) : h.size ≠ 0 := fun hsize => hempty ⟨hsize, hop⟩
    cases op with
    | add task => exact absurd (hsize.symm.trans hzero) (Nat.succ_ne_zero _)
    | remove id =>
        rw [perform, bind_eq_ok] at hperform
        obtain ⟨⟨ok, h₁⟩, hremove, hperform⟩ := hperform
        cases hperform
        exact remove_top hremove hzero
    | modify id duration cycled now => exact absurd (hsize.symm.trans hzero) (hne False.elim)
    | pop =>
        rw [perform, pop, if_neg (hne False.elim), bind_eq_ok] at hperform
        obtain ⟨⟨ok, h₁⟩, hpop, hperform⟩ := hperform
        cases hperform
        rw [bind_eq_ok] at hpop
        obtain ⟨⟨ok', h₂⟩, hremove, hpop⟩ := hpop
        cases hpop
        exact remove_top hremove hzero
    | popTask now =>
        rw [perform, popTask, if_neg (hne False.elim), bind_eq_ok] at hperform
        obtain ⟨⟨task, h₁⟩, hpop, hperform⟩ := hperform
        cases hperform
        rw [bind_eq_ok] at hpop
        obtain ⟨⟨ok, h₂⟩, hremove, hpop⟩ := hpop
        dsimp only at hpop
        split at hpop
        case isFalse =>
          cases hpop
          exact remove_top hremove hzero
        case isTrue hcycled =>
          -- the task that was put back is still there
          rw [bind_eq_ok] at hpop
          obtain ⟨⟨id, h₃⟩, hadd, hpop⟩ := hpop
          cases hpop
          have hkept : h₃.size = h.size := hsize.trans (if_pos hcycled)
          exact absurd (hkept.symm.trans hzero) (hne False.elim)

theorem top_mem (hfits : h.Fits) (hpos : 0 < h.size) : h.top ∈ h.stored := by
  rw [top_eq_getD hfits hpos]
  exact getD_mem hfits hpos

theorem stored_eq_nil_iff (hfits : h.Fits) : h.stored = [] ↔ h.size = 0 := by
  have hle : h.size ≤ h.data.length := hfits
  rw [stored, ← List.length_eq_zero_iff, List.length_take, min_eq_left hle]

/-- The first cell holds a deadline, of a task or of the last one there was. -/
structure Live (h : TimerTaskHeap Cb) : Prop where
  fits : h.Fits
  pos : 0 < h.top.expiredTime
  lt : h.top.expiredTime < 2 ^ 64

theorem live_of_size (hfits : h.Fits) (hpos : 0 < h.size) (htimed : (TimerBackend.heap h).Timed) :
    h.Live :=
  have htop := htimed h.top (top_mem hfits hpos)
  ⟨hfits, htop.1, htop.2⟩

theorem perform_live (hlive : h.Live) (hperform : h.perform op = .ok (result, h'))
    (htimed : (TimerBackend.heap h').Timed) : h'.Live := by
  obtain ⟨hfits', -⟩ := perform_size hlive.fits hperform
  rcases Nat.eq_zero_or_pos h'.size with hzero | hpos
  · refine ⟨hfits', ?_, ?_⟩
    · rw [perform_top hlive.fits hperform hzero]
      exact hlive.pos
    · rw [perform_top hlive.fits hperform hzero]
      exact hlive.lt
  · exact live_of_size hfits' hpos htimed

end TimerTaskHeap

/-! ### Runs of calls -/

namespace TimerBackend

variable {b b' : TimerBackend Cb} {h : TimerTaskHeap Cb} {m : TimerTaskMap Cb} {op : TimerOp Cb}
variable {ops : List (TimerOp Cb)} {result : TimerResult Cb} {results : List (TimerResult Cb)}

theorem perform_heap (hperform : (heap h).perform op = .ok (result, b')) :
    ∃ h', h.perform op = .ok (result, h') ∧ b' = .heap h' := by
  rw [perform, bind_eq_ok] at hperform
  obtain ⟨⟨result', h'⟩, hperform, heq⟩ := hperform
  cases heq
  exact ⟨h', hperform, rfl⟩

theorem run_live (hlive : h.Live) (hrun : run perform (heap h) ops = .ok (results, b))
    (htimed : AlongStates perform Timed (heap h) ops) : ∃ h', b = .heap h' ∧ h'.Live := by
  induction ops generalizing h results with
  | nil =>
      cases hrun
      exact ⟨h, rfl, hlive⟩
  | cons op ops ih =>
      obtain ⟨result, results', b', hperform, hrest, -⟩ := run_cons_eq_ok hrun
      have htimed' := htimed.2 _ _ hperform
      obtain ⟨h', hheap, rfl⟩ := perform_heap hperform
      exact ih (TimerTaskHeap.perform_live hlive hheap htimed'.head) hrest htimed'

theorem run_unadded (hzero : h.size = 0) (hops : ∀ op ∈ ops, ¬ op.IsAdd)
    (hrun : run perform (heap h) ops = .ok (results, b)) : b = .heap h := by
  induction ops generalizing results with
  | nil =>
      cases hrun
      rfl
  | cons op ops ih =>
      obtain ⟨result, results', b', hperform, hrest, -⟩ := run_cons_eq_ok hrun
      obtain ⟨h', hheap, rfl⟩ := perform_heap hperform
      rw [TimerTaskHeap.perform_of_empty hzero (hops op (List.mem_cons_self ..)) hheap] at hrest
      exact ih (fun op hop => hops op (List.mem_cons_of_mem _ hop)) hrest

theorem run_added (hfits : h.Fits) (hzero : h.size = 0) (hadd : ∃ op ∈ ops, op.IsAdd)
    (hrun : run perform (heap h) ops = .ok (results, b))
    (htimed : AlongStates perform Timed (heap h) ops) : ∃ h', b = .heap h' ∧ h'.Live := by
  induction ops generalizing results with
  | nil =>
      obtain ⟨op, hop, -⟩ := hadd
      exact absurd hop List.not_mem_nil
  | cons op ops ih =>
      obtain ⟨result, results', b', hperform, hrest, -⟩ := run_cons_eq_ok hrun
      have htimed' := htimed.2 _ _ hperform
      obtain ⟨h', hheap, rfl⟩ := perform_heap hperform
      obtain ⟨hfits', -, hsize⟩ := TimerTaskHeap.perform_size hfits hheap
      by_cases hop : op.IsAdd
      case pos =>
        have hpos : 0 < h'.size := by
          obtain ⟨task, rfl⟩ := TimerOp.isAdd_iff.mp hop
          exact hsize.symm ▸ Nat.succ_pos h.size
        exact run_live (TimerTaskHeap.live_of_size hfits' hpos htimed'.head) hrest htimed'
      case neg =>
        obtain ⟨op', hmem, hop'⟩ := hadd
        rcases List.mem_cons.mp hmem with rfl | hmem
        · exact absurd hop' hop
        · rw [TimerTaskHeap.perform_of_empty hzero hop hheap] at hrest htimed'
          exact ih ⟨op', hmem, hop'⟩ hrest htimed'

theorem run_map (hrun : run perform (map m) ops = .ok (results, b)) : ∃ m', b = .map m' := by
  induction ops generalizing m results with
  | nil =>
      cases hrun
      exact ⟨m, rfl⟩
  | cons op ops ih =>
      obtain ⟨result, results', b', hperform, hrest, -⟩ := run_cons_eq_ok hrun
      obtain ⟨⟨result', m'⟩, -, heq⟩ := bind_eq_ok.mp hperform
      cases heq
      exact ih hrest

end TimerBackend

theorem TimerTaskMap.top_of_empty {m : TimerTaskMap Cb} (hnil : m.stored = []) :
    m.top = default := by
  rw [top, List.map_eq_nil_iff.mp hnil]

theorem TimerTaskMap.top_mem {m : TimerTaskMap Cb} (hne : m.stored ≠ []) : m.top ∈ m.stored := by
  obtain ⟨data, capacity⟩ := m
  cases data with
  | nil => exact absurd rfl hne
  | cons entry data => exact List.mem_cons_self ..

theorem TimerTaskHeap.new_top (capacity : ℕ) : (new Cb capacity).top = default := by
  rw [top, new]
  split
  · rfl
  · rcases Nat.eq_zero_or_pos capacity with rfl | hpos
    · rfl
    · rw [List.getD_replicate _ hpos]

theorem TimerTaskHeap.new_fits (capacity : ℕ) : (new Cb capacity).Fits := Nat.zero_le _

namespace TimerBackend

variable {capacity : ℕ} {heap : Bool} {ops : List (TimerOp Cb)} {results : List (TimerResult Cb)}
variable {b : TimerBackend Cb}

theorem run_top_mem (hrun : run perform (new Cb capacity heap 0) ops = .ok (results, b))
    (htimed : AlongStates perform Timed (new Cb capacity heap 0) ops) (hne : b.stored ≠ []) :
    b.top ∈ b.stored := by
  cases heap with
  | false =>
      obtain ⟨m, rfl⟩ := run_map hrun
      exact TimerTaskMap.top_mem hne
  | true =>
      have hfits : (TimerTaskHeap.new Cb capacity).Fits := TimerTaskHeap.new_fits capacity
      by_cases hadd : ∃ op ∈ ops, op.IsAdd
      case pos =>
        obtain ⟨h, rfl, hlive⟩ := run_added hfits rfl hadd hrun htimed
        refine TimerTaskHeap.top_mem hlive.fits (Nat.pos_of_ne_zero fun hzero => hne ?_)
        exact (TimerTaskHeap.stored_eq_nil_iff hlive.fits).mpr hzero
      case neg =>
        have hops : ∀ op ∈ ops, ¬ op.IsAdd := fun op hop hisAdd => hadd ⟨op, hop, hisAdd⟩
        rw [run_unadded rfl hops hrun] at hne
        exact absurd ((TimerTaskHeap.stored_eq_nil_iff hfits).mpr rfl) hne

theorem run_top_of_empty (hrun : run perform (new Cb capacity heap 0) ops = .ok (results, b))
    (htimed : AlongStates perform Timed (new Cb capacity heap 0) ops) (hnil : b.stored = []) :
    if heap = true ∧ ∃ op ∈ ops, op.IsAdd then
      0 < b.top.expiredTime ∧ b.top.expiredTime < 2 ^ 64
    else b.top.expiredTime = 0 := by
  cases heap with
  | false =>
      obtain ⟨m, rfl⟩ := run_map hrun
      rw [if_neg fun hadd => Bool.false_ne_true hadd.1]
      show m.top.expiredTime = 0
      rw [TimerTaskMap.top_of_empty hnil]
      rfl
  | true =>
      have hfits : (TimerTaskHeap.new Cb capacity).Fits := TimerTaskHeap.new_fits capacity
      split
      case isTrue hadd =>
        obtain ⟨h, rfl, hlive⟩ := run_added hfits rfl hadd.2 hrun htimed
        exact ⟨hlive.pos, hlive.lt⟩
      case isFalse hadd =>
        have hops : ∀ op ∈ ops, ¬ op.IsAdd := fun op hop hisAdd => hadd ⟨rfl, op, hop, hisAdd⟩
        rw [run_unadded rfl hops hrun]
        show (TimerTaskHeap.new Cb capacity).top.expiredTime = 0
        rw [TimerTaskHeap.new_top]
        rfl

/-- A timer that has tasks tells when the next one is due unless that looks infinite. One without
tells that there is none on a map; on a heap only if it never had any, or if the deadline that is
left looks infinite. -/
theorem tellsDue_iff (hrun : run perform (new Cb capacity heap 0) ops = .ok (results, b))
    (htimed : AlongStates perform Timed (new Cb capacity heap 0) ops) (running : Bool) (now : ℕ) :
    (⟨b, running⟩ : Timer Cb).TellsDue now ↔
      (b.stored ≠ [] → ¬ Timer.LooksInfinite ⟨b, running⟩ now) ∧
        (b.stored = [] → heap = true → (∃ op ∈ ops, op.IsAdd) →
          Timer.LooksInfinite ⟨b, running⟩ now) := by
  by_cases hnil : b.stored = []
  case pos =>
    have htop := run_top_of_empty hrun htimed hnil
    have hnil' : (⟨b, running⟩ : Timer Cb).stored = [] := hnil
    rw [Timer.tellsDue_of_nil hnil']
    split at htop
    case isTrue hadd =>
      rw [Timer.nextTimestamp_infinity_iff htop.1 htop.2]
      exact ⟨fun hlooks => ⟨fun hne => absurd hnil hne, fun _ _ _ => hlooks⟩,
        fun hcond => hcond.2 hnil hadd.1 hadd.2⟩
    case isFalse hadd =>
      refine iff_of_true (Timer.nextTimestamp_of_zero htop) ⟨fun hne => absurd hnil hne, ?_⟩
      exact fun _ hheap hisAdd => absurd ⟨hheap, hisAdd⟩ hadd
  case neg =>
    have hmem := run_top_mem hrun htimed hnil
    obtain ⟨hpos, hlt⟩ := htimed.last hrun _ hmem
    have hmem' : (⟨b, running⟩ : Timer Cb).tasks.top ∈ (⟨b, running⟩ : Timer Cb).stored := hmem
    rw [Timer.tellsDue_of_mem hmem' hpos hlt]
    exact ⟨fun hlooks => ⟨fun _ => hlooks, fun hnil' => absurd hnil' hnil⟩,
      fun hcond => hcond.1 hnil⟩

/-- The only task, due at 5, is removed again. -/
def addedAndRemoved : List (TimerOp Unit) := [.add ⟨5, 5, false, none, 1⟩, .remove 1]

def emptied : TimerBackend Unit := .heap ⟨[⟨5, 5, false, none, 1⟩], 1, 0⟩

theorem run_addedAndRemoved :
    run perform (new Unit 1 true 0) addedAndRemoved = .ok ([.added 1, .done true], emptied) := rfl

theorem tellsDue_iff_removed : (⟨emptied, true⟩ : Timer Unit).TellsDue 0 ↔
    (emptied.stored ≠ [] → ¬ Timer.LooksInfinite ⟨emptied, true⟩ 0) ∧
      (emptied.stored = [] → true = true → (∃ op ∈ addedAndRemoved, op.IsAdd) →
        Timer.LooksInfinite ⟨emptied, true⟩ 0) :=
  tellsDue_iff run_addedAndRemoved (by decide) true 0

/-- Afterwards the next task is said to be due in 5. -/
theorem emptied_heap_keeps_deadline :
    run perform (new Unit 1 true 0) addedAndRemoved = .ok ([.added 1, .done true], emptied) ∧
      AlongStates perform Timed (new Unit 1 true 0) addedAndRemoved ∧
      emptied.stored = [] ∧ (⟨emptied, true⟩ : Timer Unit).nextTimestamp 0 = 5 ∧
      ¬ (⟨emptied, true⟩ : Timer Unit).TellsDue 0 := by
  refine ⟨rfl, by decide, rfl, by decide, fun htells => ?_⟩
  exact absurd (htells.infinity_iff.mpr rfl) (by decide)

end TimerBackend

end LpNet
