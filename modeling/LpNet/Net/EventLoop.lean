import LpNet.Net.TaskScheduler
import LpNet.Timer.Timer

/-!
Timers through `TaskScheduler` and `EventLoop`.

Both pass on what `Timer::addTimer` returns. A scheduler's timer is a `TimerTaskMap`, and
an `EventLoop` has a scheduler for each id; the id of a scheduler that was not added
leads to a null pointer. `handle_identifies_iff` is about all three layers.
-/

namespace LpNet

open Transition

/-! ### The timer of a scheduler -/

namespace TaskScheduler

variable {Ev : Type} {s : TaskScheduler Ev} {t : TimerTask (TriggerEvent Ev)}
  {ts : List (TimerTask (TriggerEvent Ev))}

def timer (s : TaskScheduler Ev) : Timer (TriggerEvent Ev) := ⟨.map s.timers, false⟩

/-- One call of `addTimer` after the other. -/
def addTimers (s : TaskScheduler Ev) :
    List (TimerTask (TriggerEvent Ev)) → Except Fault (TaskScheduler Ev)
  | [] => .ok s
  | task :: rest => do
      let (_, s) ← s.addTimer task
      s.addTimers rest

theorem timer_addTimer (s : TaskScheduler Ev) (task : TimerTask (TriggerEvent Ev)) :
    s.timer.addTimer task = (s.addTimer task).map fun r => (r.1, r.2.timer) := by
  rw [Timer.addTimer, addTimer, timer, TimerBackend.add]
  cases s.timers.add task <;> rfl

theorem timer_addTimers (s : TaskScheduler Ev) (ts : List (TimerTask (TriggerEvent Ev))) :
    s.timer.addTimers ts = (s.addTimers ts).map timer := by
  induction ts generalizing s with
  | nil => rfl
  | cons t ts ih =>
      rw [Timer.addTimers, addTimers, timer_addTimer]
      cases s.addTimer t with
      | error e => rfl
      | ok r => exact ih r.2

theorem addTimers_cons {id : ℕ} {s₁ : TaskScheduler Ev} (hadd : s.addTimer t = .ok (id, s₁)) :
    s.addTimers (t :: ts) = s₁.addTimers ts := by
  rw [addTimers, hadd]
  rfl

theorem addTimers_iff (hw : s.timer.tasks.Wf) (hnew : s.timer.stored.NewIds ts) :
    (∃ s', s.addTimers ts = .ok s') ↔
      ((ts ++ s.timer.stored).map TimerTask.expiredTime).Nodup := by
  constructor
  · rintro ⟨s', hadds⟩
    by_contra hdup
    obtain ⟨e, he⟩ := Timer.addTimers_refused hw hnew fun h => hdup h.2
    rw [timer_addTimers, hadds] at he
    cases he
  · intro hnodup
    obtain ⟨s', hadds, -⟩ := Timer.addTimers_ok hw hnew trivial hnodup
    rw [timer_addTimers] at hadds
    cases hadded : s.addTimers ts with
    | error e =>
        rw [hadded] at hadds
        cases hadds
    | ok s' => exact ⟨s', rfl⟩

theorem addTimers_stored {s' : TaskScheduler Ev} (hw : s.timer.tasks.Wf)
    (hnew : s.timer.stored.NewIds ts) (hadds : s.addTimers ts = .ok s') :
    s'.timer.tasks.Wf ∧ s'.timer.stored.Perm (ts ++ s.timer.stored) := by
  obtain ⟨s'', hadds', hw', hperm, -⟩ :=
    Timer.addTimers_ok hw hnew trivial ((addTimers_iff hw hnew).mp ⟨s', hadds⟩)
  rw [timer_addTimers, hadds] at hadds'
  cases hadds'
  exact ⟨hw', hperm⟩

/-- The id that `addTimer` returns for `t` can be used, after the tasks `ts` were added as well,
to remove `t` and nothing else. -/
def Identifies (s : TaskScheduler Ev) (t : TimerTask (TriggerEvent Ev))
    (ts : List (TimerTask (TriggerEvent Ev))) : Prop :=
  ∃ id s₁ s₂, s.addTimer t = .ok (id, s₁) ∧ s₁.addTimers ts = .ok s₂ ∧
    (s₂.removeTimer id).timer.stored.Perm (ts ++ s.timer.stored)

/-- What is left of an id removes its task and nothing else exactly when the id is 0 or 1. -/
theorem removeTimer_iff {s₂ : TaskScheduler Ev} (hw : s₂.timer.tasks.Wf)
    (hperm : s₂.timer.stored.Perm (t :: (ts ++ s.timer.stored)))
    (hother : ∀ u ∈ ts ++ s.timer.stored, u.id ≠ t.id) :
    (s₂.removeTimer (t.id != 0).toNat).timer.stored.Perm (ts ++ s.timer.stored) ↔ t.id ≤ 1 := by
  constructor
  · intro h
    by_contra hgt
    -- the id is 1, so that `t` stays
    have ht : t ∈ s₂.timers.stored := hperm.mem_iff.mpr (List.mem_cons_self ..)
    have hid : t.id ≠ (t.id != 0).toNat := by
      have := Bool.toNat_le (t.id != 0)
      omega
    exact hother t (h.mem_iff.mp (TimerTaskMap.Kept.mem_remove hw ht hid)) rfl
  · intro hle
    obtain ⟨b, hremoved, -, hends, -⟩ := hw.remove_single hperm hother
    have heq : s₂.timer.tasks.remove t.id =
        .ok ((s₂.timers.remove t.id).1, .map (s₂.timers.remove t.id).2) := rfl
    rw [heq] at hremoved
    obtain ⟨-, rfl⟩ := Prod.mk.inj (Except.ok.inj hremoved)
    rw [Timer.toNat_of_le_one hle]
    exact hends trivial

/-- A map has room, and gives up what it removes: the id is one that identifies its task exactly
when it is 0 or 1 and no two of the tasks have the same deadline. -/
theorem identifies_iff (hw : s.timer.tasks.Wf) (hnew : s.timer.stored.NewIds (t :: ts)) :
    s.Identifies t ts ↔
      t.id ≤ 1 ∧ ((t :: (ts ++ s.timer.stored)).map TimerTask.expiredTime).Nodup := by
  constructor
  · rintro ⟨id, s₁, s₂, hadd, hadds, hperm⟩
    have hboth := (addTimers_cons hadd).trans hadds
    obtain ⟨hw₂, hstored⟩ := addTimers_stored hw hnew hboth
    obtain ⟨timers, -, rfl, -⟩ := addTimer_eq_ok.mp hadd
    exact ⟨(removeTimer_iff hw₂ hstored hnew.other).mp hperm,
      (addTimers_iff hw hnew).mp ⟨s₂, hboth⟩⟩
  · rintro ⟨hle, hnodup⟩
    obtain ⟨s₂, hboth⟩ := (addTimers_iff hw hnew).mpr hnodup
    obtain ⟨hw₂, hstored⟩ := addTimers_stored hw hnew hboth
    obtain ⟨⟨id, s₁⟩, hadd, hadds⟩ := bind_eq_ok.mp hboth
    obtain ⟨timers, -, rfl, -⟩ := addTimer_eq_ok.mp hadd
    exact ⟨_, s₁, s₂, hadd, hadds, (removeTimer_iff hw₂ hstored hnew.other).mpr hle⟩

end TaskScheduler

/-! ### The loop -/

structure EventLoop (Ev : Type) where
  taskSchedulers : AList fun _ : String => TaskScheduler Ev

namespace EventLoop

variable {Ev : Type}

def addTaskScheduler (l : EventLoop Ev) (id : String) (s : TaskScheduler Ev) : EventLoop Ev :=
  { l with taskSchedulers := l.taskSchedulers.insert id s }

def addTimer (l : EventLoop Ev) (id : String) (task : TimerTask (TriggerEvent Ev)) :
    Except Fault (ℕ × EventLoop Ev) :=
  match l.taskSchedulers.lookup id with
  | some s => do
      let (timerId, s) ← s.addTimer task
      .ok (timerId, { l with taskSchedulers := l.taskSchedulers.insert id s })
  | none => .error .useAfterFree

def removeTimer (l : EventLoop Ev) (id : String) (timerId : ℕ) :
    Except Fault (EventLoop Ev) :=
  match l.taskSchedulers.lookup id with
  | some s => .ok { l with taskSchedulers := l.taskSchedulers.insert id (s.removeTimer timerId) }
  | none => .error .useAfterFree

/-- One call of `addTimer` after the other, each with its scheduler. -/
def addTimers (l : EventLoop Ev) :
    List (String × TimerTask (TriggerEvent Ev)) → Except Fault (EventLoop Ev)
  | [] => .ok l
  | (id, task) :: rest => do
      let (_, l) ← l.addTimer id task
      l.addTimers rest

def addedTo (id : String) (ts : List (String × TimerTask (TriggerEvent Ev))) :
    List (TimerTask (TriggerEvent Ev)) :=
  (ts.filter fun p => p.1 = id).map Prod.snd

def stored (l : EventLoop Ev) (id : String) : TaskSet (TriggerEvent Ev) :=
  (l.taskSchedulers.lookup id).elim [] fun s => s.timer.stored

/-- The id that `addTimer` returns for `t` can be used, after other tasks were added to any
schedulers, to remove `t` from its scheduler and nothing else from any. -/
def Identifies (l : EventLoop Ev) (id : String) (t : TimerTask (TriggerEvent Ev))
    (ts : List (String × TimerTask (TriggerEvent Ev))) : Prop :=
  ∃ timerId l₁ l₂ l₃, l.addTimer id t = .ok (timerId, l₁) ∧ l₁.addTimers ts = .ok l₂ ∧
    l₂.removeTimer id timerId = .ok l₃ ∧
    ∀ id', (l₃.stored id').Perm (addedTo id' ts ++ l.stored id')

variable {l : EventLoop Ev} {id : String} {t : TimerTask (TriggerEvent Ev)}
  {ts : List (String × TimerTask (TriggerEvent Ev))}

theorem addedTo_cons_self (id : String) (t : TimerTask (TriggerEvent Ev))
    (ts : List (String × TimerTask (TriggerEvent Ev))) :
    addedTo id ((id, t) :: ts) = t :: addedTo id ts := by
  rw [addedTo, List.filter_cons_of_pos (by simp), List.map_cons, addedTo]

theorem addedTo_cons_of_ne {id' : String} (hne : id' ≠ id) (t : TimerTask (TriggerEvent Ev))
    (ts : List (String × TimerTask (TriggerEvent Ev))) :
    addedTo id' ((id, t) :: ts) = addedTo id' ts := by
  rw [addedTo, List.filter_cons_of_neg (by simpa using Ne.symm hne), addedTo]

theorem addTimer_eq_ok {l₁ : EventLoop Ev} {timerId : ℕ} :
    l.addTimer id t = .ok (timerId, l₁) ↔
      ∃ s s', l.taskSchedulers.lookup id = some s ∧ s.addTimer t = .ok (timerId, s') ∧
        l₁ = l.addTaskScheduler id s' := by
  rw [addTimer]
  constructor
  · intro hadd
    split at hadd
    case h_1 s hs =>
      obtain ⟨⟨timerId', s'⟩, hadded, heq⟩ := bind_eq_ok.mp hadd
      cases heq
      exact ⟨s, s', hs, hadded, rfl⟩
    case h_2 => cases hadd
  · rintro ⟨s, s', hs, hadd, rfl⟩
    rw [hs]
    dsimp only
    rw [hadd]
    rfl

theorem mem_addTaskScheduler {s : TaskScheduler Ev} {id' : String} (hid : id ∈ l.taskSchedulers) :
    id' ∈ (l.addTaskScheduler id s).taskSchedulers ↔ id' ∈ l.taskSchedulers := by
  rw [addTaskScheduler, AList.mem_insert]
  constructor
  · rintro (rfl | h)
    · exact hid
    · exact h
  · exact .inr

theorem addTimers_spec {l' : EventLoop Ev} (hadds : l.addTimers ts = .ok l') :
    (∀ p ∈ ts, p.1 ∈ l.taskSchedulers) ∧
      (∀ id s, l.taskSchedulers.lookup id = some s →
        ∃ s', s.addTimers (addedTo id ts) = .ok s' ∧ l'.taskSchedulers.lookup id = some s') ∧
      ∀ id, l.taskSchedulers.lookup id = none → l'.taskSchedulers.lookup id = none := by
  induction ts generalizing l with
  | nil =>
      cases hadds
      exact ⟨fun p hp => absurd hp List.not_mem_nil, fun id s hs => ⟨s, rfl, hs⟩, fun _ h => h⟩
  | cons p ts ih =>
      obtain ⟨id, t⟩ := p
      obtain ⟨⟨timerId, l₁⟩, hadd, hadds⟩ := bind_eq_ok.mp hadds
      obtain ⟨s, s₁, hs, hadded, rfl⟩ := addTimer_eq_ok.mp hadd
      have hid : id ∈ l.taskSchedulers := AList.lookup_isSome.mp (by rw [hs]; rfl)
      obtain ⟨hreg, hsome, hnone⟩ := ih hadds
      refine ⟨fun p hp => ?_, fun id' s' hs' => ?_, fun id' hnone' => ?_⟩
      · rcases List.mem_cons.mp hp with rfl | hp
        · exact hid
        · exact (mem_addTaskScheduler hid).mp (hreg p hp)
      · by_cases heq : id' = id
        case pos =>
          subst heq
          rw [hs] at hs'
          cases hs'
          rw [addedTo_cons_self, TaskScheduler.addTimers_cons hadded]
          exact hsome id' s₁ (AList.lookup_insert ..)
        case neg =>
          rw [addedTo_cons_of_ne heq]
          exact hsome id' s' (by rw [addTaskScheduler, AList.lookup_insert_ne heq, hs'])
      · have hne : id' ≠ id := by
          rintro rfl
          rw [hs] at hnone'
          cases hnone'
        exact hnone id' (by rw [addTaskScheduler, AList.lookup_insert_ne hne, hnone'])

theorem addTimers_total (hreg : ∀ p ∈ ts, p.1 ∈ l.taskSchedulers)
    (hadds : ∀ id s, l.taskSchedulers.lookup id = some s →
      ∃ s', s.addTimers (addedTo id ts) = .ok s') : ∃ l', l.addTimers ts = .ok l' := by
  induction ts generalizing l with
  | nil => exact ⟨l, rfl⟩
  | cons p ts ih =>
      obtain ⟨id, t⟩ := p
      have hid : id ∈ l.taskSchedulers := hreg (id, t) (List.mem_cons_self ..)
      obtain ⟨s, hs⟩ := Option.isSome_iff_exists.mp (AList.lookup_isSome.mpr hid)
      obtain ⟨s', hall⟩ := hadds id s hs
      rw [addedTo_cons_self] at hall
      obtain ⟨⟨timerId, s₁⟩, hadd, hrest⟩ := bind_eq_ok.mp hall
      obtain ⟨l', hadds'⟩ := ih (l := l.addTaskScheduler id s₁)
        (fun p hp => (mem_addTaskScheduler hid).mpr (hreg p (List.mem_cons_of_mem _ hp)))
        (fun id' s'' hs'' => by
          by_cases heq : id' = id
          case pos =>
            subst heq
            rw [addTaskScheduler, AList.lookup_insert] at hs''
            cases hs''
            exact ⟨s', hrest⟩
          case neg =>
            rw [addTaskScheduler, AList.lookup_insert_ne heq] at hs''
            obtain ⟨s₂, hadds₂⟩ := hadds id' s'' hs''
            rw [addedTo_cons_of_ne heq] at hadds₂
            exact ⟨s₂, hadds₂⟩)
      refine ⟨l', ?_⟩
      rw [addTimers, addTimer_eq_ok.mpr ⟨s, s₁, hs, hadd, rfl⟩]
      exact hadds'

theorem stored_eq {s : TaskScheduler Ev} (hs : l.taskSchedulers.lookup id = some s) :
    l.stored id = s.timer.stored := by
  rw [stored, hs]
  rfl

theorem addedTo_eq_nil (hnull : l.taskSchedulers.lookup id = none)
    (hreg : ∀ p ∈ ts, p.1 ∈ l.taskSchedulers) : addedTo id ts = [] := by
  rw [addedTo, List.map_eq_nil_iff, List.filter_eq_nil_iff]
  intro p hp heq
  have hmem := hreg p hp
  rw [of_decide_eq_true heq, ← AList.lookup_isSome, hnull] at hmem
  cases hmem

/-- A scheduler whose timer is not asked to remove anything has its tasks and those it got. -/
theorem stored_addTimers {l' : EventLoop Ev}
    (hw : ∀ s, l.taskSchedulers.lookup id = some s → s.timer.tasks.Wf)
    (hnew : (l.stored id).NewIds (addedTo id ts)) (hadds : l.addTimers ts = .ok l') :
    (l'.stored id).Perm (addedTo id ts ++ l.stored id) := by
  obtain ⟨hreg, hsome, hnone⟩ := addTimers_spec hadds
  cases hs : l.taskSchedulers.lookup id with
  | none =>
      rw [addedTo_eq_nil hs hreg, stored, stored, hs, hnone id hs]
      exact .refl _
  | some s =>
      obtain ⟨s', hadds', hs'⟩ := hsome id s hs
      rw [stored_eq hs] at hnew
      rw [stored_eq hs, stored_eq hs']
      exact (TaskScheduler.addTimers_stored (hw s hs) hnew hadds').2

theorem addTimers_iff (hw : ∀ id s, l.taskSchedulers.lookup id = some s → s.timer.tasks.Wf)
    (hnew : ∀ id, (l.stored id).NewIds (addedTo id ts)) :
    (∃ l', l.addTimers ts = .ok l') ↔ (∀ p ∈ ts, p.1 ∈ l.taskSchedulers) ∧
      ∀ id, ((addedTo id ts ++ l.stored id).map TimerTask.expiredTime).Nodup := by
  constructor
  · rintro ⟨l', hadds⟩
    obtain ⟨hreg, hsome, -⟩ := addTimers_spec hadds
    refine ⟨hreg, fun id => ?_⟩
    cases hs : l.taskSchedulers.lookup id with
    | none =>
        rw [addedTo_eq_nil hs hreg, stored, hs]
        exact .nil
    | some s =>
        obtain ⟨s', hadds', -⟩ := hsome id s hs
        have hnew' := hnew id
        rw [stored_eq hs] at hnew' ⊢
        exact (TaskScheduler.addTimers_iff (hw id s hs) hnew').mp ⟨s', hadds'⟩
  · rintro ⟨hreg, hnodup⟩
    refine addTimers_total hreg fun id s hs => ?_
    have hnew' := hnew id
    have hnodup' := hnodup id
    rw [stored_eq hs] at hnew' hnodup'
    exact (TaskScheduler.addTimers_iff (hw id s hs) hnew').mpr hnodup'

theorem removeTimer_iff {l₂ l₃ : EventLoop Ev}
    (hw : ∀ id s, l.taskSchedulers.lookup id = some s → s.timer.tasks.Wf)
    (hnew : ∀ id', (l.stored id').NewIds (addedTo id' ((id, t) :: ts)))
    (hadds : l.addTimers ((id, t) :: ts) = .ok l₂)
    (hremove : l₂.removeTimer id (t.id != 0).toNat = .ok l₃) :
    (∀ id', (l₃.stored id').Perm (addedTo id' ts ++ l.stored id')) ↔ t.id ≤ 1 := by
  obtain ⟨hreg, hsome, -⟩ := addTimers_spec hadds
  have hid : id ∈ l.taskSchedulers := hreg (id, t) (List.mem_cons_self ..)
  obtain ⟨s, hs⟩ := Option.isSome_iff_exists.mp (AList.lookup_isSome.mpr hid)
  obtain ⟨s₂, hadds₂, hs₂⟩ := hsome id s hs
  have hnew' := hnew id
  rw [addedTo_cons_self, stored_eq hs] at hnew'
  rw [addedTo_cons_self] at hadds₂
  obtain ⟨hw₂, hperm₂⟩ := TaskScheduler.addTimers_stored (hw id s hs) hnew' hadds₂
  have hscheduler := TaskScheduler.removeTimer_iff hw₂ hperm₂ hnew'.other
  rw [removeTimer, hs₂] at hremove
  cases hremove
  have hself : (l₂.addTaskScheduler id (s₂.removeTimer (t.id != 0).toNat)).stored id =
      (s₂.removeTimer (t.id != 0).toNat).timer.stored := stored_eq (AList.lookup_insert ..)
  constructor
  · intro hall
    have hone := (List.Perm.of_eq hself.symm).trans (hall id)
    rw [stored_eq hs] at hone
    exact hscheduler.mp hone
  · intro hle id'
    by_cases heq : id' = id
    case pos =>
      subst heq
      refine .trans (.of_eq hself) ?_
      rw [stored_eq hs]
      exact hscheduler.mpr hle
    case neg =>
      have hother := stored_addTimers (fun s hs => hw id' s hs) (hnew id') hadds
      rw [addedTo_cons_of_ne heq] at hother
      rw [stored, AList.lookup_insert_ne heq]
      exact hother

theorem identifies_iff
    (hw : ∀ id s, l.taskSchedulers.lookup id = some s → s.timer.tasks.Wf)
    (hnew : ∀ id', (l.stored id').NewIds (addedTo id' ((id, t) :: ts))) :
    l.Identifies id t ts ↔ t.id ≤ 1 ∧ (∀ p ∈ (id, t) :: ts, p.1 ∈ l.taskSchedulers) ∧
      ∀ id', ((addedTo id' ((id, t) :: ts) ++ l.stored id').map TimerTask.expiredTime).Nodup := by
  rw [← addTimers_iff hw hnew]
  constructor
  · rintro ⟨timerId, l₁, l₂, l₃, hadd, hadds, hremove, hperm⟩
    have hboth : l.addTimers ((id, t) :: ts) = .ok l₂ := by
      rw [addTimers, hadd]
      exact hadds
    obtain ⟨s, s', -, hadd', -⟩ := addTimer_eq_ok.mp hadd
    obtain ⟨timers, -, rfl, -⟩ := TaskScheduler.addTimer_eq_ok.mp hadd'
    exact ⟨(removeTimer_iff hw hnew hboth hremove).mp hperm, l₂, hboth⟩
  · rintro ⟨hle, l₂, hboth⟩
    obtain ⟨⟨timerId, l₁⟩, hadd, hadds⟩ := bind_eq_ok.mp hboth
    obtain ⟨s, s', hs, hadd', -⟩ := addTimer_eq_ok.mp hadd
    obtain ⟨timers, -, rfl, -⟩ := TaskScheduler.addTimer_eq_ok.mp hadd'
    obtain ⟨s₂, -, hs₂⟩ := (addTimers_spec hboth).2.1 id s hs
    have hremove : ∃ l₃, l₂.removeTimer id (t.id != 0).toNat = .ok l₃ := by
      rw [removeTimer, hs₂]
      exact ⟨_, rfl⟩
    obtain ⟨l₃, hremove⟩ := hremove
    exact ⟨_, l₁, l₂, l₃, hadd, hadds, hremove, (removeTimer_iff hw hnew hboth hremove).mpr hle⟩

end EventLoop

/-! ### The layers -/

/-- The id that `Timer::addTimer` returns, and with it those that `TaskScheduler::addTimer` and
`EventLoop::addTimer` return, identifies its task exactly when the id of the task is 0 or 1 and
the map can order the tasks by their deadlines. A heap must have room and drop the right cell, and
a loop have the schedulers. -/
theorem handle_identifies_iff {Cb Ev : Type} :
    (∀ (s : Timer Cb) (t : TimerTask Cb) (ts : List (TimerTask Cb)),
      s.tasks.Reachable → s.stored.NewIds (t :: ts) → t.expiredTime < 2 ^ 64 →
        (s.Identifies t ts ↔ s.Handled t ts)) ∧
    (∀ (s : TaskScheduler Ev) (t : TimerTask (TriggerEvent Ev))
      (ts : List (TimerTask (TriggerEvent Ev))),
      s.timer.tasks.Reachable → s.timer.stored.NewIds (t :: ts) →
        (s.Identifies t ts ↔
          t.id ≤ 1 ∧ ((t :: (ts ++ s.timer.stored)).map TimerTask.expiredTime).Nodup)) ∧
    ∀ (l : EventLoop Ev) (id : String) (t : TimerTask (TriggerEvent Ev))
      (ts : List (String × TimerTask (TriggerEvent Ev))),
      (∀ id s, l.taskSchedulers.lookup id = some s → s.timer.tasks.Reachable) →
      (∀ id', (l.stored id').NewIds (EventLoop.addedTo id' ((id, t) :: ts))) →
        (l.Identifies id t ts ↔ t.id ≤ 1 ∧ (∀ p ∈ (id, t) :: ts, p.1 ∈ l.taskSchedulers) ∧
          ∀ id', ((EventLoop.addedTo id' ((id, t) :: ts) ++ l.stored id').map
            TimerTask.expiredTime).Nodup) :=
  ⟨fun _ _ _ hreach hnew htime => Timer.identifies_iff hreach.wf hnew htime,
    fun _ _ _ hreach hnew => TaskScheduler.identifies_iff hreach.wf hnew,
    fun _ _ _ _ hreach hnew =>
      EventLoop.identifies_iff (fun id s hs => (hreach id s hs).wf) hnew⟩

def oneTask : Timer Unit := ⟨.map ⟨[((1, 5), ⟨5, 5, false, none, 1⟩)], 4⟩, false⟩

theorem oneTask_reachable : oneTask.tasks.Reachable :=
  ⟨4, false, 0, [.add ⟨5, 5, false, none, 1⟩], [.added 1], Nat.zero_le 4,
    ⟨fun _ hu => absurd hu List.not_mem_nil, fun _ _ _ => trivial⟩, rfl⟩

/-- The task that gets the first id of all is removed from a heap with another one. -/
theorem handle_identifies_iff_first :
    (⟨.new Unit 4 true 0, false⟩ : Timer Unit).Identifies ⟨5, 5, false, none, 1⟩
      [⟨3, 3, false, none, 2⟩] := by
  refine ((@handle_identifies_iff Unit Unit).1 _ _ _
    ⟨4, true, 0, [], [], Nat.zero_le 4, trivial, rfl⟩ ⟨by decide, fun u hu => by cases hu⟩
    (by decide)).mpr
    ⟨le_refl 1, trivial, (by decide : 0 + (1 + 1) ≤ 4), fun s' hs' => ?_⟩
  cases hs'
  show TimerTaskHeap.Keeps _ (.remove 1)
  decide +kernel

/-- The id that is returned for the second task removes the first one. -/
theorem handle_removes_other :
    oneTask.tasks.Reachable ∧ oneTask.stored.NewIds [⟨3, 3, false, none, 2⟩] ∧
      (∃ s₁ s₂, oneTask.addTimer ⟨3, 3, false, none, 2⟩ = .ok (1, s₁) ∧
        s₁.removeTimer 1 = .ok (true, s₂) ∧ s₂.stored = [⟨3, 3, false, none, 2⟩]) ∧
      ¬ oneTask.Identifies ⟨3, 3, false, none, 2⟩ [] := by
  have hnew : oneTask.stored.NewIds [⟨3, 3, false, none, 2⟩] :=
    ⟨by decide, fun u hu task htask => by
      rw [List.mem_singleton.mp hu, List.mem_singleton.mp htask]
      decide⟩
  refine ⟨oneTask_reachable, hnew, ⟨_, _, rfl, rfl, rfl⟩, fun h => ?_⟩
  have hle := ((Timer.identifies_iff oneTask_reachable.wf hnew (by decide)).mp h).id_le
  exact absurd hle (by decide)

end LpNet
