import LpNet.Timer.Backend

/-!
The class `Timer`: its calls, and what the ids are worth that `addTimer` returns.

`addTimer` keeps the id that the back end returns in a `bool`, so that the caller gets 0
or 1. `identifies_iff` says for which tasks, and in which states of a heap, that is an id
to remove and modify the task with.
-/

namespace LpNet

open Transition

structure Timer (Cb : Type) where
  tasks : TimerBackend Cb
  running : Bool

namespace Timer

variable {Cb : Type}

def addTimer (s : Timer Cb) (task : TimerTask Cb) : Except Fault (ℕ × Timer Cb) := do
  let (id, tasks) ← s.tasks.add task
  let inserted : Bool := id != 0
  .ok (inserted.toNat, { s with tasks := tasks })

def removeTimer (s : Timer Cb) (id : ℕ) : Except Fault (Bool × Timer Cb) := do
  let (ok, tasks) ← s.tasks.remove id
  .ok (ok, { s with tasks := tasks })

def modifyTimer (s : Timer Cb) (id duration : ℕ) (cycled : Bool) (now : ℕ) :
    Except Fault (Bool × Timer Cb) := do
  let (ok, tasks) ← s.tasks.modify id duration cycled now
  .ok (ok, { s with tasks := tasks })

def addTimers (s : Timer Cb) : List (TimerTask Cb) → Except Fault (Timer Cb)
  | [] => .ok s
  | task :: rest => do
      let (_, s) ← s.addTimer task
      s.addTimers rest

def stored (s : Timer Cb) : TaskSet Cb := s.tasks.stored

end Timer

namespace TaskSet

variable {Cb : Type} {s s' ts : TaskSet Cb} {t : TimerTask Cb}

/-- The ids of added tasks are new, as `next_time_id()` makes them. -/
structure NewIds (s ts : TaskSet Cb) : Prop where
  nodup : (ts.map TimerTask.id).Nodup
  fresh : ∀ u ∈ s, ∀ task ∈ ts, u.id ≠ task.id

theorem NewIds.head (h : s.NewIds (t :: ts)) : ∀ u ∈ s, u.id ≠ t.id := fun u hu =>
  h.fresh u hu t (List.mem_cons_self ..)

theorem NewIds.tail (h : s.NewIds (t :: ts)) (hperm : s'.Perm (t :: s)) : s'.NewIds ts := by
  obtain ⟨hhead, hnodup⟩ := List.nodup_cons.mp h.nodup
  refine ⟨hnodup, fun u hu task htask => ?_⟩
  rcases List.mem_cons.mp (hperm.mem_iff.mp hu) with rfl | hu
  · exact fun heq => hhead (List.mem_map.mpr ⟨task, htask, heq.symm⟩)
  · exact h.fresh u hu task (List.mem_cons_of_mem _ htask)

theorem NewIds.other (h : s.NewIds (t :: ts)) : ∀ u ∈ ts ++ s, u.id ≠ t.id := by
  intro u hu
  rcases List.mem_append.mp hu with hu | hu
  · exact fun heq => (List.nodup_cons.mp h.nodup).1 (List.mem_map.mpr ⟨u, hu, heq⟩)
  · exact h.head u hu

end TaskSet

namespace Timer

variable {Cb : Type} {s : Timer Cb} {t : TimerTask Cb} {ts : List (TimerTask Cb)}

theorem addTimer_ok (hw : s.tasks.Wf) (hfresh : ∀ u ∈ s.stored, u.id ≠ t.id)
    (hroom : s.tasks.HasRoom 1) (horders : s.tasks.Orders (t :: s.stored)) :
    ∃ s', s.addTimer t = .ok ((t.id != 0).toNat, s') ∧ s'.tasks.Wf ∧
      s'.stored.Perm (t :: s.stored) ∧ (∀ n, s'.tasks.HasRoom n ↔ s.tasks.HasRoom (n + 1)) ∧
      ∀ tasks, s'.tasks.Orders tasks ↔ s.tasks.Orders tasks := by
  obtain ⟨tasks, hadd, hw', hstored, hroom', horders'⟩ := hw.add hfresh hroom horders
  exact ⟨{ s with tasks := tasks }, by rw [addTimer, hadd, ok_bind], hw', hstored, hroom',
    horders'⟩

theorem addTimers_cons {id : ℕ} {s₁ : Timer Cb} (hadd : s.addTimer t = .ok (id, s₁)) :
    s.addTimers (t :: ts) = s₁.addTimers ts := by
  rw [addTimers, hadd]
  rfl

theorem toNat_of_le_one {id : ℕ} (h : id ≤ 1) : (id != 0).toNat = id := by
  rcases Nat.le_one_iff_eq_zero_or_eq_one.mp h with h | h <;> rw [h] <;> rfl

theorem perm_behind {s' : TaskSet Cb} {s : TaskSet Cb} (hperm : s'.Perm (t :: s))
    (ts : TaskSet Cb) : (ts ++ s').Perm (t :: (ts ++ s)) :=
  (hperm.append_left ts).trans List.perm_middle

theorem addTimers_ok (hw : s.tasks.Wf) (hnew : s.stored.NewIds ts)
    (hroom : s.tasks.HasRoom ts.length) (horders : s.tasks.Orders (ts ++ s.stored)) :
    ∃ s', s.addTimers ts = .ok s' ∧ s'.tasks.Wf ∧ s'.stored.Perm (ts ++ s.stored) ∧
      ∀ tasks, s'.tasks.Orders tasks ↔ s.tasks.Orders tasks := by
  induction ts generalizing s with
  | nil => exact ⟨s, rfl, hw, .refl _, fun _ => Iff.rfl⟩
  | cons t ts ih =>
      rw [List.length_cons] at hroom
      obtain ⟨s₁, hadd, hw₁, hstored₁, hroom₁, horders₁⟩ :=
        addTimer_ok hw hnew.head (hroom.mono (by omega))
          (horders.sublist ((List.sublist_append_right ..).cons_cons t))
      have hbehind := perm_behind hstored₁ ts
      obtain ⟨s', hadds, hw', hstored, horders'⟩ :=
        ih hw₁ (hnew.tail hstored₁) ((hroom₁ ts.length).mpr hroom)
          ((horders₁ _).mpr (horders.perm hbehind.symm))
      exact ⟨s', (addTimers_cons hadd).trans hadds, hw', hstored.trans hbehind,
        fun tasks => (horders' tasks).trans (horders₁ tasks)⟩

/-- A heap that is too small is written past, and a map takes no task that it cannot order. -/
theorem addTimers_refused (hw : s.tasks.Wf) (hnew : s.stored.NewIds ts)
    (hrefused : ¬ (s.tasks.HasRoom ts.length ∧ s.tasks.Orders (ts ++ s.stored))) :
    ∃ e, s.addTimers ts = .error e := by
  induction ts generalizing s with
  | nil =>
      refine absurd ?_ hrefused
      obtain ⟨tasks, running⟩ := s
      cases tasks with
      | heap h => exact ⟨hw, trivial⟩
      | map m => exact ⟨trivial, (TimerTaskMap.Kept.distinct hw).times⟩
  | cons t ts ih =>
      cases hadd : s.addTimer t with
      | error e => exact ⟨e, by rw [addTimers, hadd]; rfl⟩
      | ok r =>
          obtain ⟨⟨id, tasks⟩, hadded, -⟩ := bind_eq_ok.mp hadd
          have hone : s.tasks.HasRoom 1 := by
            by_contra hroom
            rw [TimerBackend.add_no_room hroom] at hadded
            cases hadded
          obtain ⟨s₁, hadd', hw₁, hstored₁, hroom₁, horders₁⟩ :=
            addTimer_ok hw hnew.head hone (hw.orders_of_add hnew.head hadded)
          obtain ⟨e, he⟩ := ih hw₁ (hnew.tail hstored₁) fun h =>
            hrefused ⟨(hroom₁ ts.length).mp h.1,
              ((horders₁ _).mp h.2).perm (perm_behind hstored₁ ts)⟩
          exact ⟨e, (addTimers_cons hadd').trans he⟩

/-- The id that `addTimer` returns for `t` can be used, after the tasks `ts` were added as well,
to remove `t` and nothing else, and to modify it and nothing else, to any deadline that the back
end can order. -/
def Identifies (s : Timer Cb) (t : TimerTask Cb) (ts : List (TimerTask Cb)) : Prop :=
  ∃ id s₁ s₂, s.addTimer t = .ok (id, s₁) ∧ s₁.addTimers ts = .ok s₂ ∧
    (∃ s₃, s₂.removeTimer id = .ok (true, s₃) ∧ s₃.stored.Perm (ts ++ s.stored)) ∧
    ∀ duration cycled now,
      s.tasks.Orders ((t.setExpiredTime now duration).setCycle cycled :: (ts ++ s.stored)) →
      ∃ s₃, s₂.modifyTimer id duration cycled now = .ok (true, s₃) ∧
        s₃.stored.Perm ((t.setExpiredTime now duration).setCycle cycled :: (ts ++ s.stored))

/-- The id of `t` survives the `bool`. A map can order the tasks by their deadlines. With a heap
there is a cell for each task, and once all are added, a removal of `t` gives up `t`. -/
structure Handled (s : Timer Cb) (t : TimerTask Cb) (ts : List (TimerTask Cb)) : Prop where
  id_le : t.id ≤ 1
  orders : s.tasks.Orders (t :: (ts ++ s.stored))
  room : s.tasks.HasRoom (ts.length + 1)
  gives : ∀ s', s.addTimers (t :: ts) = .ok s' → s'.tasks.GivesUp t.id

theorem not_modified {rest : TaskSet Cb} {id : ℕ} (hw : s.tasks.Wf)
    (hperm : s.stored.Perm (t :: rest)) (hother : ∀ u ∈ rest, u.id ≠ t.id) (hne : t.id ≠ id)
    (htime : t.expiredTime < 2 ^ 64) (horders : s.tasks.Orders (t :: rest)) :
    ¬ ∀ duration cycled now,
      s.tasks.Orders ((t.setExpiredTime now duration).setCycle cycled :: rest) →
      ∃ s', s.modifyTimer id duration cycled now = .ok (true, s') ∧
        s'.stored.Perm ((t.setExpiredTime now duration).setCycle cycled :: rest) := by
  intro hmodify
  -- `t` is to keep its deadline
  have hsame : SizeT.add 0 t.expiredTime = t.expiredTime := by
    rw [SizeT.add_eq (by omega), Nat.zero_add]
  have horders' : s.tasks.Orders
      ((t.setExpiredTime 0 t.expiredTime).setCycle (!t.cycled) :: rest) := by
    cases htasks : s.tasks with
    | heap h => trivial
    | map m =>
        rw [htasks] at horders
        show (SizeT.add 0 t.expiredTime :: rest.map TimerTask.expiredTime).Nodup
        rw [hsame]
        exact horders
  obtain ⟨s', hmodifyTimer, hchanged⟩ := hmodify t.expiredTime (!t.cycled) 0 horders'
  obtain ⟨⟨ok, b⟩, hmodified, heq⟩ := bind_eq_ok.mp hmodifyTimer
  cases heq
  have hmem : (t.setExpiredTime 0 t.expiredTime).setCycle (!t.cycled) ∈ b.stored :=
    hchanged.mem_iff.mpr (List.mem_cons_self ..)
  -- `t` is the only task with its id, and is as it was
  have heq := TimerBackend.eq_of_id hperm hother ((hw.modify_kept hmodified).2 _ hmem hne) rfl
  have hcycled : (!t.cycled) = t.cycled := congrArg TimerTask.cycled heq
  exact absurd hcycled (Bool.not_ne_self t.cycled)

/-- The id is one that identifies its task exactly when it is 0 or 1, the map, if the timer has
one, can order the tasks, and the heap, if it has one, has room and drops the right cell. -/
theorem identifies_iff (hw : s.tasks.Wf) (hnew : s.stored.NewIds (t :: ts))
    (htime : t.expiredTime < 2 ^ 64) : s.Identifies t ts ↔ s.Handled t ts := by
  by_cases htakes : s.tasks.HasRoom (ts.length + 1) ∧ s.tasks.Orders (t :: (ts ++ s.stored))
  case neg =>
    obtain ⟨e, he⟩ := addTimers_refused hw hnew htakes
    refine iff_of_false ?_ fun h => htakes ⟨h.room, h.orders⟩
    rintro ⟨id, s₁, s₂, hadd, hadds, -⟩
    rw [addTimers_cons hadd, hadds] at he
    cases he
  case pos =>
    obtain ⟨hroom, horders⟩ := htakes
    obtain ⟨s₁, hadd, hw₁, hstored₁, hroom₁, horders₁⟩ :=
      addTimer_ok hw hnew.head (hroom.mono (by omega))
        (horders.sublist ((List.sublist_append_right ..).cons_cons t))
    have hbehind := perm_behind hstored₁ ts
    obtain ⟨s₂, hadds, hw₂, hstored₂, horders₂⟩ :=
      addTimers_ok hw₁ (hnew.tail hstored₁) ((hroom₁ ts.length).mpr hroom)
        ((horders₁ _).mpr (horders.perm hbehind.symm))
    have hkind : ∀ tasks, s₂.tasks.Orders tasks ↔ s.tasks.Orders tasks := fun tasks =>
      (horders₂ tasks).trans (horders₁ tasks)
    have hboth : s.addTimers (t :: ts) = .ok s₂ := (addTimers_cons hadd).trans hadds
    have hperm : s₂.stored.Perm (t :: (ts ++ s.stored)) := hstored₂.trans hbehind
    have hother := hnew.other
    constructor
    · rintro ⟨id, s₁', s₂', hadd', hadds', ⟨s₃, hremove, hrest⟩, hmodify⟩
      rw [hadd] at hadd'
      cases hadd'
      rw [hadds] at hadds'
      cases hadds'
      have hle : t.id ≤ 1 := by
        by_contra hgt
        have hne : t.id ≠ (t.id != 0).toNat := by
          have := Bool.toNat_le (t.id != 0)
          omega
        exact not_modified hw₂ hperm hother hne htime ((hkind _).mpr horders)
          fun duration cycled now h => hmodify duration cycled now ((hkind _).mp h)
      have hid := toNat_of_le_one hle
      refine ⟨hle, horders, hroom, fun s' hs' => ?_⟩
      rw [hboth] at hs'
      cases hs'
      by_contra hgives
      obtain ⟨b, hremoved, -, -, hstays⟩ := hw₂.remove_single hperm hother
      rw [hid, removeTimer, hremoved, ok_bind] at hremove
      cases hremove
      exact hother t (hrest.mem_iff.mp (hstays hgives)) rfl
    · intro h
      have hid := toNat_of_le_one h.id_le
      refine ⟨_, s₁, s₂, hadd, hadds, ?_, fun duration cycled now hnext => ?_⟩
      · obtain ⟨b, hremoved, -, hends, -⟩ := hw₂.remove_single hperm hother
        exact ⟨{ s₂ with tasks := b }, by rw [hid, removeTimer, hremoved, ok_bind],
          hends (h.gives s₂ hboth)⟩
      · obtain ⟨b, hmodified, -, hstored⟩ :=
          hw₂.modify_single hperm hother ((hkind _).mpr hnext)
        exact ⟨{ s₂ with tasks := b }, by rw [hid, modifyTimer, hmodified, ok_bind], hstored⟩

end Timer

end LpNet
