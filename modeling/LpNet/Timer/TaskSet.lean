import LpNet.Timer.Task
import Mathlib.Data.List.MinMax
import Mathlib.Data.List.Nodup

/-!
What a timer back end is for: a set of tasks from which the one with the
earliest deadline is taken.

The set is a list in no particular order, and a back end refines it when its own
tasks are a permutation of the list. The ids and the deadlines of the tasks are
to be distinct (`Distinct`); then an id names one task and only one task is the
earliest, so that nothing observed depends on the order of the list.
-/

namespace LpNet

abbrev TaskSet (Cb : Type) := List (TimerTask Cb)

namespace TaskSet

variable {Cb : Type}

/-- No two tasks share an id or a deadline. -/
structure Distinct (s : TaskSet Cb) : Prop where
  ids : (s.map TimerTask.id).Nodup
  times : (s.map TimerTask.expiredTime).Nodup

instance (s : TaskSet Cb) : Decidable s.Distinct :=
  decidable_of_iff ((s.map TimerTask.id).Nodup ∧ (s.map TimerTask.expiredTime).Nodup)
    ⟨fun h => ⟨h.1, h.2⟩, fun h => ⟨h.ids, h.times⟩⟩

def has (s : TaskSet Cb) (id : ℕ) : Bool := s.any fun task => task.id == id

def without (s : TaskSet Cb) (id : ℕ) : TaskSet Cb := s.filter fun task => task.id != id

def update (s : TaskSet Cb) (id : ℕ) (f : TimerTask Cb → TimerTask Cb) : TaskSet Cb :=
  s.map fun task => if task.id = id then f task else task

def earliest (s : TaskSet Cb) : Option (TimerTask Cb) := s.argmin TimerTask.expiredTime

/-- The call on the set. A task that is taken and is cyclic is put back with a new
deadline, which the caller sees. -/
def apply (s : TaskSet Cb) : TimerOp Cb → TimerResult Cb × TaskSet Cb
  | .add task => (.added task.id, task :: s)
  | .remove id => (.done (s.has id), s.without id)
  | .modify id duration cycled now =>
      (.done (s.has id), s.update id fun task =>
        (task.setExpiredTime now duration).setCycle cycled)
  | .pop =>
      match s.earliest with
      | none => (.done false, s)
      | some task => (.done true, s.without task.id)
  | .popTask now =>
      match s.earliest with
      | none => (.popped none, s)
      | some task =>
          if task.cycled then
            let task := task.setExpiredTime now task.duration
            (.popped (some task), task :: s.without task.id)
          else (.popped (some task), s.without task.id)

def answer (result : TimerResult Cb) (s : TaskSet Cb) : TimerAnswer Cb :=
  ⟨result, s.length, s.earliest⟩

def step (s : TaskSet Cb) (op : TimerOp Cb) : Except Fault (TimerAnswer Cb × TaskSet Cb) :=
  let (result, s) := s.apply op
  .ok (answer result s, s)

/-- The call leads to a set of at most `capacity` tasks with distinct ids and deadlines. -/
structure Admits (capacity : ℕ) (s : TaskSet Cb) (op : TimerOp Cb) : Prop where
  distinct : Distinct (s.apply op).2
  length_le : (s.apply op).2.length ≤ capacity

instance (capacity : ℕ) (s : TaskSet Cb) (op : TimerOp Cb) : Decidable (s.Admits capacity op) :=
  decidable_of_iff ((s.apply op).2.Distinct ∧ (s.apply op).2.length ≤ capacity)
    ⟨fun h => ⟨h.1, h.2⟩, fun h => ⟨h.distinct, h.length_le⟩⟩

/-! ### Independence of the order -/

variable {s l : TaskSet Cb} {x : TimerTask Cb} {id : ℕ}

theorem nodup_map_cons {β : Type} {f : TimerTask Cb → β} (hnew : ∀ y ∈ s, f y ≠ f x)
    (hs : (s.map f).Nodup) : ((x :: s).map f).Nodup := by
  refine List.nodup_cons.mpr ⟨fun hmem => ?_, hs⟩
  obtain ⟨y, hy, heq⟩ := List.mem_map.mp hmem
  exact hnew y hy heq

theorem distinct_nil : Distinct ([] : TaskSet Cb) := ⟨by simp, by simp⟩

theorem Distinct.perm (h : Distinct s) (hp : s.Perm l) : Distinct l :=
  ⟨(hp.map _).nodup_iff.mp h.ids, (hp.map _).nodup_iff.mp h.times⟩

theorem Distinct.id_ne (h : Distinct (x :: l)) : ∀ y ∈ l, y.id ≠ x.id := by
  intro y hy heq
  exact (List.nodup_cons.mp h.ids).1 (heq ▸ List.mem_map_of_mem hy)

theorem Distinct.time_ne (h : Distinct (x :: l)) : ∀ y ∈ l, y.expiredTime ≠ x.expiredTime := by
  intro y hy heq
  exact (List.nodup_cons.mp h.times).1 (heq ▸ List.mem_map_of_mem hy)

theorem has_eq_true (hp : s.Perm (x :: l)) : s.has x.id = true := by
  rw [has, List.any_eq_true]
  exact ⟨x, hp.mem_iff.mpr (by simp), by simp⟩

theorem has_eq_false (h : ∀ y ∈ s, y.id ≠ id) : s.has id = false := by
  rw [has, List.any_eq_false]
  intro y hy
  simpa using h y hy

theorem without_of_absent (h : ∀ y ∈ s, y.id ≠ id) : s.without id = s := by
  rw [without, List.filter_eq_self]
  intro y hy
  simpa using h y hy

theorem update_of_absent (h : ∀ y ∈ s, y.id ≠ id) (f : TimerTask Cb → TimerTask Cb) :
    s.update id f = s := by
  rw [update]
  conv_rhs => rw [← List.map_id s]
  refine List.map_congr_left fun y hy => ?_
  rw [if_neg (h y hy)]
  rfl

/-- Taking a task out of a set leaves the others. -/
theorem without_perm (hs : Distinct s) (hp : s.Perm (x :: l)) : (s.without x.id).Perm l := by
  have hl : without l x.id = l := without_of_absent (hs.perm hp).id_ne
  have hx : without (x :: l) x.id = l := by
    rw [without, List.filter_cons_of_neg (by simp)]
    exact hl
  rw [← hx]
  exact hp.filter _

theorem update_perm (hs : Distinct s) (hp : s.Perm (x :: l)) (f : TimerTask Cb → TimerTask Cb) :
    (s.update x.id f).Perm (f x :: l) := by
  have hl : update l x.id f = l := update_of_absent (hs.perm hp).id_ne f
  have hx : update (x :: l) x.id f = f x :: l := by
    rw [update, List.map_cons, if_pos rfl]
    exact congrArg _ hl
  rw [← hx]
  exact hp.map _

theorem earliest_eq (hs : Distinct s) (hp : s.Perm (x :: l))
    (hmin : ∀ y ∈ l, x.expiredTime ≤ y.expiredTime) : s.earliest = some x := by
  have hx : x ∈ s := hp.mem_iff.mpr (by simp)
  cases hm : s.earliest with
  | none =>
      rw [earliest, List.argmin_eq_none] at hm
      rw [hm] at hx
      cases hx
  | some m =>
      have hle : m.expiredTime ≤ x.expiredTime := List.le_of_mem_argmin hx hm
      rcases List.mem_cons.mp (hp.mem_iff.mp (List.argmin_mem hm)) with rfl | hml
      · rfl
      · exact absurd (le_antisymm hle (hmin m hml)) ((hs.perm hp).time_ne m hml)

end TaskSet

end LpNet
