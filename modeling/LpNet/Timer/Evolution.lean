import LpNet.Timer.Content

/-!
What a call of `TimerTaskMap` does to the tasks that are stored.

`Effect` lists the outcomes of the calls, with the tasks before and after. Every call on a
map that is kept in order has one of them (`Kept.effect`), and in a run in which the ids
and the deadlines of the tasks are always distinct the tasks of the map are at every
point those of the set (`evolves_as_set`).
-/

namespace LpNet

open Transition

variable {Cb : Type}

structure TaskSet.Earliest (s : TaskSet Cb) (task : TimerTask Cb) : Prop where
  mem : task ∈ s
  le : ∀ u ∈ s, task.expiredTime ≤ u.expiredTime

namespace TimerTaskMap

def Keyed (m : TimerTaskMap Cb) : Prop := ∀ entry ∈ m.data, entry.1 = hash entry.2

/-- What a call on the map `m` answers and leaves behind. -/
inductive Effect (m : TimerTaskMap Cb) :
    TimerOp Cb → TimerResult Cb → TimerTaskMap Cb → Prop
  | added {task m'} (stored : m'.stored.Perm (task :: m.stored)) :
      Effect m (.add task) (.added task.id) m'
  | removed {id t m'} (id_eq : t.id = id) (stored : m.stored.Perm (t :: m'.stored)) :
      Effect m (.remove id) (.done true) m'
  | remove_absent {id} (absent : ∀ u ∈ m.stored, u.id ≠ id) :
      Effect m (.remove id) (.done false) m
  /-- The task keeps its id and its callback. -/
  | modified {id duration cycled now t u rest m'} (id_eq : t.id = id)
      (before : m.stored.Perm (t :: rest)) (after : m'.stored.Perm (u :: rest))
      (kept : u.id = id ∧ u.callback = t.callback)
      (changed : u.duration = duration ∧ u.cycled = cycled ∧
        u.expiredTime = SizeT.add now duration) :
      Effect m (.modify id duration cycled now) (.done true) m'
  | modify_absent {id duration cycled now} (absent : ∀ u ∈ m.stored, u.id ≠ id) :
      Effect m (.modify id duration cycled now) (.done false) m
  | popped {t m'} (earliest : m.stored.Earliest t) (stored : m.stored.Perm (t :: m'.stored)) :
      Effect m .pop (.done true) m'
  | pop_empty (empty : m.stored = []) : Effect m .pop (.done false) m
  | taken {now t m'} (once : t.cycled = false) (earliest : m.stored.Earliest t)
      (stored : m.stored.Perm (t :: m'.stored)) :
      Effect m (.popTask now) (.popped (some t)) m'
  /-- A cyclic task is there once more, with its next deadline. -/
  | rearmed {now t u rest m'} (cyclic : t.cycled = true) (earliest : m.stored.Earliest t)
      (before : m.stored.Perm (t :: rest)) (after : m'.stored.Perm (u :: rest))
      (kept : u.id = t.id ∧ u.callback = t.callback ∧ u.duration = t.duration ∧
        u.cycled = true)
      (changed : u.expiredTime = SizeT.add now t.duration) :
      Effect m (.popTask now) (.popped (some u)) m'
  | take_empty {now} (empty : m.stored = []) : Effect m (.popTask now) (.popped none) m

def AddsNewId (m : TimerTaskMap Cb) : TimerOp Cb → Prop
  | .add task => ∀ u ∈ m.stored, u.id ≠ task.id
  | _ => True

instance (m : TimerTaskMap Cb) (op : TimerOp Cb) : Decidable (m.AddsNewId op) :=
  match op with
  | .add _ => inferInstanceAs (Decidable (∀ _ ∈ _, _))
  | .remove _ => .isTrue trivial
  | .modify _ _ _ _ => .isTrue trivial
  | .pop => .isTrue trivial
  | .popTask _ => .isTrue trivial

variable {m : TimerTaskMap Cb} {op : TimerOp Cb}

theorem Kept.earliest (h : m.Kept) {entry : IdTimestampPair × TimerTask Cb}
    {rest : List (IdTimestampPair × TimerTask Cb)} (hdata : m.data = entry :: rest) :
    m.stored.Earliest entry.2 := by
  have hsorted := h.sorted
  rw [hdata, List.pairwise_cons] at hsorted
  rw [stored, hdata]
  refine ⟨List.mem_cons_self .., fun u hu => ?_⟩
  rcases List.mem_cons.mp hu with rfl | hu
  · exact le_refl _
  · obtain ⟨e, he, rfl⟩ := List.mem_map.mp hu
    exact (hsorted.1 e he).le

theorem stored_eq_nil (hdata : m.data = []) : m.stored = [] := by
  rw [stored, hdata, List.map_nil]

theorem stored_eq_cons {entry : IdTimestampPair × TimerTask Cb}
    {rest : List (IdTimestampPair × TimerTask Cb)} (hdata : m.data = entry :: rest) :
    m.stored = entry.2 :: rest.map Prod.snd := by
  rw [stored, hdata, List.map_cons]

theorem Kept.effect {result : TimerResult Cb} {m' : TimerTaskMap Cb} (h : m.Kept)
    (hnew : m.AddsNewId op) (hperform : m.perform op = .ok (result, m')) :
    m.Effect op result m' ∧ m'.Kept := by
  cases op with
  | add task =>
      obtain ⟨⟨id, m''⟩, hadd, heq⟩ := bind_eq_ok.mp hperform
      cases heq
      obtain ⟨data, hput, rfl, rfl⟩ := add_eq_ok.mp hadd
      obtain ⟨-, hkept, hstored⟩ := h.put hnew hput
      exact ⟨.added hstored, hkept⟩
  | remove id =>
      cases hfind : m.data.find? (hasId id) with
      | none =>
          rw [perform, TimerTaskMap.remove, hfind] at hperform
          cases hperform
          exact ⟨.remove_absent (h.find_eq_none_iff.mp hfind), h⟩
      | some entry =>
          obtain ⟨m'', hremove, hkept, hperm⟩ := h.remove hfind
          rw [perform, hremove] at hperform
          cases hperform
          exact ⟨.removed (h.find hfind).1 hperm, hkept⟩
  | modify id duration cycled now =>
      obtain ⟨⟨ok, m''⟩, hmodify, heq⟩ := bind_eq_ok.mp hperform
      cases heq
      cases hfind : m.data.find? (hasId id) with
      | none =>
          rw [TimerTaskMap.modify, hfind] at hmodify
          cases hmodify
          exact ⟨.modify_absent (h.find_eq_none_iff.mp hfind), h⟩
      | some entry =>
          obtain ⟨rfl, hkept, rest, hbefore, hafter⟩ := h.modify hfind hmodify
          have hid := (h.find hfind).1
          exact ⟨.modified hid hbefore hafter ⟨hid, rfl⟩ ⟨rfl, rfl, rfl⟩, hkept⟩
  | pop =>
      rw [perform, pop] at hperform
      cases hdata : m.data with
      | nil =>
          rw [hdata] at hperform
          cases hperform
          exact ⟨.pop_empty (stored_eq_nil hdata), h⟩
      | cons entry rest =>
          rw [hdata] at hperform
          cases hperform
          obtain ⟨hkept, hstored, -⟩ := h.rest hdata
          exact ⟨.popped (h.earliest hdata) (.of_eq hstored), hkept⟩
  | popTask now =>
      obtain ⟨⟨popped, m''⟩, hpop, heq⟩ := bind_eq_ok.mp hperform
      cases heq
      cases hdata : m.data with
      | nil =>
          rw [TimerTaskMap.popTask, hdata] at hpop
          cases hpop
          exact ⟨.take_empty (stored_eq_nil hdata), h⟩
      | cons entry rest =>
          have hbefore : m.stored.Perm (entry.2 :: rest.map Prod.snd) :=
            .of_eq (stored_eq_cons hdata)
          obtain ⟨hkept, ⟨honce, rfl, hstored⟩ | ⟨hcyclic, rfl, hstored⟩⟩ := h.popTask hdata hpop
          · rw [← hstored] at hbefore
            exact ⟨.taken honce (h.earliest hdata) hbefore, hkept⟩
          · exact ⟨.rearmed hcyclic (h.earliest hdata) hbefore hstored ⟨rfl, rfl, rfl, hcyclic⟩ rfl,
              hkept⟩

def Performs (m : TimerTaskMap Cb) (op : TimerOp Cb) : Prop :=
  ∃ result m', m.perform op = .ok (result, m') ∧ m.Effect op result m'

/-! ### Runs -/

theorem Holds.evolves {s : TaskSet Cb} {ops : List (TimerOp Cb)} (hh : Holds m s)
    (hdistinct : AlongStates TaskSet.step TaskSet.Distinct s ops) :
    Along mapStep Performs m ops ∧
      AlongStates mapStep Keyed m ops ∧
      ∃ answers m' s', run mapStep m ops = .ok (answers, m') ∧
        run TaskSet.step s ops = .ok (answers, s') ∧ m'.stored.Perm s' := by
  induction ops generalizing m s with
  | nil => exact ⟨trivial, hh.keyed, [], m, s, rfl, rfl, hh.perm⟩
  | cons op ops ih =>
      have hs : s.Distinct := hdistinct.head
      have hrest : AlongStates TaskSet.step TaskSet.Distinct (s.apply op).2 ops :=
        hdistinct.2 _ _ rfl
      have hadmits : s.Admits (s.apply op).2.length op := ⟨hrest.head, le_refl _⟩
      have hkept : m.Kept := ⟨hh.toSorted, (hh.perm.map TimerTask.id).nodup_iff.mpr hs.ids⟩
      have hnew : m.AddsNewId op := by
        cases op with
        | add task =>
            have hnext : TaskSet.Distinct (task :: s) := hrest.head
            exact fun u hu => hnext.id_ne u (hh.perm.mem_iff.mp hu)
        | remove _ | modify _ _ _ _ | pop | popTask _ => trivial
      obtain ⟨answer, m', s', hstep, hset, hholds, -⟩ := mapStep_refines hh hs hadmits
      have hs' : s' = (s.apply op).2 := (congrArg Prod.snd (Except.ok.inj hset)).symm
      rw [hs'] at hset hholds
      obtain ⟨hperforms, hkeyed, answers, m'', s'', hrun, hrunset, hperm⟩ := ih hholds hrest
      obtain ⟨m₁, hperform, -⟩ := hh.perform hs hadmits
      refine ⟨(along_cons_ok hstep).mpr
          ⟨⟨_, m₁, hperform, (hkept.effect hnew hperform).1⟩, hperforms⟩,
        (alongStates_cons_ok hstep).mpr ⟨hh.keyed, hkeyed⟩,
        answer :: answers, m'', s'', ?_, ?_, hperm⟩
      · rw [run_cons_ok _ hstep, hrun]
        rfl
      · rw [run_cons_ok _ hset, hrunset]
        rfl

/-- In a run in which the ids and the deadlines of the tasks are distinct in every state, every
call has its effect on the tasks that are stored, the keys stay those of the tasks, and the map
answers what the set of tasks answers and ends with the same tasks. -/
theorem evolves_as_set (capacity : ℕ) (ops : List (TimerOp Cb))
    (hdistinct : AlongStates TaskSet.step TaskSet.Distinct ([] : TaskSet Cb) ops) :
    Along mapStep Performs (new Cb capacity) ops ∧
      AlongStates mapStep Keyed (new Cb capacity) ops ∧
      ∃ answers m s, run mapStep (new Cb capacity) ops = .ok (answers, m) ∧
        run TaskSet.step ([] : TaskSet Cb) ops = .ok (answers, s) ∧ m.stored.Perm s :=
  (holds_new Cb capacity).evolves hdistinct

/-- Of two tasks the cyclic one is put off, and popped before the other is removed. -/
def putOff : List (TimerOp Unit) :=
  [.add ⟨5, 5, true, none, 1⟩, .add ⟨20, 20, false, none, 2⟩, .modify 1 7 true 2, .popTask 9,
    .remove 2]

theorem evolves_as_set_putOff :
    Along mapStep Performs (new Unit 0) putOff ∧
      AlongStates mapStep Keyed (new Unit 0) putOff ∧
      ∃ answers m s, run mapStep (new Unit 0) putOff = .ok (answers, m) ∧
        run TaskSet.step ([] : TaskSet Unit) putOff = .ok (answers, s) ∧ m.stored.Perm s :=
  evolves_as_set 0 putOff (by decide)

end TimerTaskMap

end LpNet
