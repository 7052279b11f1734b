import LpNet.Timer.TaskSet
import LpNet.Lib.StrictWeak
import LpNet.Lib.Transition

/-!
The class `TimerTaskMap`.

The `std::map` is the list of its entries in the order of the tree. A look-up
walks to the first entry that is not less than the key, which is where the tree
leads when the comparison orders the keys. An insertion where it does not is a fault: the
standard promises nothing then, and the tree can lose entries. `mapStep_refines` says that
on tasks with distinct ids and deadlines every call does to the map what it does to a
set of tasks.
-/

namespace LpNet

open Transition

/-- `std::pair<TimerTaskId, uint64_t>`. -/
abbrev IdTimestampPair := ℕ × ℕ

structure TimerTaskMap (Cb : Type) where
  data : List (IdTimestampPair × TimerTask Cb)
  capacity : ℕ
  deriving DecidableEq, Repr

namespace TimerTaskMap

variable {Cb : Type}

/-- `Comparator`. -/
def less (a b : IdTimestampPair) : Bool := a.1 != b.1 && a.2 ≤ b.2

def hash (task : TimerTask Cb) : IdTimestampPair := (task.id, task.expiredTime)

/-- Where the tree leads for a key; an entry with an equivalent one gets the task that `onHit`
makes of its own. -/
def place (onHit : TimerTask Cb → TimerTask Cb) (key : IdTimestampPair) (task : TimerTask Cb) :
    List (IdTimestampPair × TimerTask Cb) → List (IdTimestampPair × TimerTask Cb)
  | [] => [(key, task)]
  | (k, t) :: rest =>
      if less k key then (k, t) :: place onHit key task rest
      else if less key k then (key, task) :: (k, t) :: rest
      else (k, onHit t) :: rest

/-- Put a task at its key, into a tree whose keys the comparator orders together with it. -/
def put (onHit : TimerTask Cb → TimerTask Cb) (key : IdTimestampPair) (task : TimerTask Cb)
    (data : List (IdTimestampPair × TimerTask Cb)) :
    Except Fault (List (IdTimestampPair × TimerTask Cb)) :=
  if StrictWeakOn less (key :: data.map Prod.fst) then .ok (place onHit key task data)
  else .error .unordered

/-- `data_[key] = task`. -/
def assign (data : List (IdTimestampPair × TimerTask Cb)) (key : IdTimestampPair)
    (task : TimerTask Cb) : Except Fault (List (IdTimestampPair × TimerTask Cb)) :=
  put (fun _ => task) key task data

def emplace (data : List (IdTimestampPair × TimerTask Cb)) (key : IdTimestampPair)
    (task : TimerTask Cb) : Except Fault (List (IdTimestampPair × TimerTask Cb)) :=
  put (fun t => t) key task data

def new (Cb : Type) (capacity : ℕ) : TimerTaskMap Cb := ⟨[], capacity⟩

def size (m : TimerTaskMap Cb) : ℕ := m.data.length

def top (m : TimerTaskMap Cb) : TimerTask Cb :=
  match m.data with
  | [] => default
  | entry :: _ => entry.2

def add (m : TimerTaskMap Cb) (task : TimerTask Cb) : Except Fault (ℕ × TimerTaskMap Cb) := do
  let key := hash task
  let data ← assign m.data key task
  .ok (key.1, { m with data := data })

/-- The predicate both `find_if`s search with. -/
def hasId (id : ℕ) (entry : IdTimestampPair × TimerTask Cb) : Bool := entry.1.1 == id

def remove (m : TimerTaskMap Cb) (id : ℕ) : Bool × TimerTaskMap Cb :=
  match m.data.find? (hasId id) with
  | none => (false, m)
  | some _ => (true, { m with data := m.data.eraseP (hasId id) })

def modify (m : TimerTaskMap Cb) (id duration : ℕ) (cycled : Bool) (now : ℕ) :
    Except Fault (Bool × TimerTaskMap Cb) :=
  match m.data.find? (hasId id) with
  | none => .ok (false, m)
  | some entry => do
      let task := (entry.2.setExpiredTime now duration).setCycle cycled
      let data ← emplace (m.data.eraseP (hasId id)) (hash task) task
      .ok (true, { m with data := data })

def pop (m : TimerTaskMap Cb) : Bool × TimerTaskMap Cb :=
  match m.data with
  | [] => (false, m)
  | _ :: rest => (true, { m with data := rest })

/-- `pop(task)`. Answers what is stored in `task`, or `none` for false. -/
def popTask (m : TimerTaskMap Cb) (now : ℕ) :
    Except Fault (Option (TimerTask Cb) × TimerTaskMap Cb) :=
  match m.data with
  | [] => .ok (none, m)
  | entry :: rest =>
      if entry.2.cycled then do
        let task := entry.2.setExpiredTime now entry.2.duration
        let data ← assign rest (hash task) task
        .ok (some task, { m with data := data })
      else .ok (some entry.2, { m with data := rest })

def perform (m : TimerTaskMap Cb) :
    TimerOp Cb → Except Fault (TimerResult Cb × TimerTaskMap Cb)
  | .add task => do
      let (id, m) ← m.add task
      .ok (.added id, m)
  | .remove id =>
      let (ok, m) := m.remove id
      .ok (.done ok, m)
  | .modify id duration cycled now => do
      let (ok, m) ← m.modify id duration cycled now
      .ok (.done ok, m)
  | .pop =>
      let (ok, m) := m.pop
      .ok (.done ok, m)
  | .popTask now => do
      let (task, m) ← m.popTask now
      .ok (.popped task, m)

def mapStep (m : TimerTaskMap Cb) (op : TimerOp Cb) :
    Except Fault (TimerAnswer Cb × TimerTaskMap Cb) := do
  let (result, m) ← m.perform op
  .ok (⟨result, m.size, if m.size = 0 then none else some m.top⟩, m)

theorem put_eq_ok {onHit : TimerTask Cb → TimerTask Cb} {key : IdTimestampPair}
    {task : TimerTask Cb} {data data' : List (IdTimestampPair × TimerTask Cb)} :
    put onHit key task data = .ok data' ↔
      StrictWeakOn less (key :: data.map Prod.fst) ∧ place onHit key task data = data' := by
  rw [put]
  split
  case isTrue h => simp [h]
  case isFalse h => simp [h]

theorem add_eq_ok {m m' : TimerTaskMap Cb} {task : TimerTask Cb} {id : ℕ} :
    m.add task = .ok (id, m') ↔
      ∃ data', assign m.data (hash task) task = .ok data' ∧ id = task.id ∧
        m' = { m with data := data' } := by
  rw [add, bind_eq_ok]
  refine exists_congr fun data' => and_congr_right fun _ => ?_
  rw [Except.ok.injEq, Prod.mk.injEq]
  exact and_congr eq_comm eq_comm

/-! ### The calls on a map that holds a set of tasks -/

/-- The entries are keyed by their tasks and sorted by deadline. -/
structure Sorted (data : List (IdTimestampPair × TimerTask Cb)) : Prop where
  keyed : ∀ entry ∈ data, entry.1 = hash entry.2
  sorted : data.Pairwise fun a b => a.2.expiredTime < b.2.expiredTime

structure Holds (m : TimerTaskMap Cb) (s : TaskSet Cb) : Prop extends Sorted m.data where
  perm : (m.data.map Prod.snd).Perm s

variable {m : TimerTaskMap Cb} {s : TaskSet Cb} {data : List (IdTimestampPair × TimerTask Cb)}
  {id : ℕ}

theorem holds_new (Cb : Type) (capacity : ℕ) : Holds (new Cb capacity) [] where
  keyed := by simp [new]
  sorted := .nil
  perm := .refl _

theorem Sorted.sublist {data' : List (IdTimestampPair × TimerTask Cb)} (h : Sorted data)
    (hsub : data'.Sublist data) : Sorted data' :=
  ⟨fun e he => h.keyed e (hsub.subset he), h.sorted.sublist hsub⟩

/-- On keys with distinct ids the comparator is a strict weak order exactly when the deadlines are
distinct too. -/
theorem strictWeakOn_less_iff {keys : List IdTimestampPair} (hids : (keys.map Prod.fst).Nodup) :
    StrictWeakOn less keys ↔ (keys.map Prod.snd).Nodup := by
  constructor
  · intro horder
    refine (List.nodup_map_iff_inj_on hids.of_map).mpr fun a ha b hb heq => ?_
    by_contra hne
    -- each of the two is less than the other
    have hid : a.1 ≠ b.1 := fun hid => hne (Prod.ext hid heq)
    have hab : less a b = true := by simp [less, hid, heq]
    have hba : less b a = true := by simp [less, hid.symm, heq]
    rw [horder.asymm a ha b hb hab] at hba
    cases hba
  · intro htimes
    refine .of_lt Prod.snd fun a ha b hb => ?_
    by_cases heq : a = b
    case pos => simp [less, heq]
    case neg =>
      have hid : a.1 ≠ b.1 := fun hid => heq (List.inj_on_of_nodup_map hids ha hb hid)
      have htime : a.2 ≠ b.2 := fun htime => heq (List.inj_on_of_nodup_map htimes ha hb htime)
      simp only [less, Bool.and_eq_true, bne_iff_ne, decide_eq_true_eq]
      omega

theorem keys_eq_map (hkeyed : ∀ entry ∈ data, entry.1 = hash entry.2) :
    data.map Prod.fst = (data.map Prod.snd).map hash := by
  rw [List.map_map]
  exact List.map_congr_left hkeyed

/-- The keys of tasks with distinct ids are in order exactly when the deadlines are distinct. -/
theorem strictWeakOn_tasks_iff (hkeyed : ∀ entry ∈ data, entry.1 = hash entry.2)
    {task : TimerTask Cb} (hids : ((task :: data.map Prod.snd).map TimerTask.id).Nodup) :
    StrictWeakOn less (hash task :: data.map Prod.fst) ↔
      ((task :: data.map Prod.snd).map TimerTask.expiredTime).Nodup := by
  have hkeys : hash task :: data.map Prod.fst = (task :: data.map Prod.snd).map hash := by
    rw [keys_eq_map hkeyed, List.map_cons]
  rw [hkeys, strictWeakOn_less_iff (by rw [List.map_map]; exact hids), List.map_map]
  rfl

/-- A task with a new id and a new deadline is put between the earlier and the later ones. -/
theorem place_perm (onHit : TimerTask Cb → TimerTask Cb) {task : TimerTask Cb}
    (h : Sorted data) (hfresh : ∀ entry ∈ data,
      entry.2.id ≠ task.id ∧ entry.2.expiredTime ≠ task.expiredTime) :
    (place onHit (hash task) task data).Perm ((hash task, task) :: data) ∧
      Sorted (place onHit (hash task) task data) := by
  induction data with
  | nil => exact ⟨.refl _, ⟨by simp [place], by simp [place]⟩⟩
  | cons entry rest ih =>
      obtain ⟨k, t⟩ := entry
      obtain rfl : k = hash t := h.keyed (k, t) (by simp)
      obtain ⟨hid, htime⟩ := hfresh (hash t, t) (by simp)
      have hsorted := List.pairwise_cons.mp h.sorted
      obtain ⟨hperm, hplaced⟩ := ih ⟨fun e he => h.keyed e (List.mem_cons_of_mem _ he), hsorted.2⟩
        fun e he => hfresh e (List.mem_cons_of_mem _ he)
      by_cases hle : t.expiredTime ≤ task.expiredTime
      · have hless : less (hash t) (hash task) = true := by simp [less, hash, hid, hle]
        rw [place, if_pos hless]
        refine ⟨(hperm.cons _).trans (.swap ..), ⟨fun e he => ?_, ?_⟩⟩
        · rcases List.mem_cons.mp he with rfl | he
          · rfl
          · exact hplaced.keyed e he
        · refine List.pairwise_cons.mpr ⟨fun e he => ?_, hplaced.sorted⟩
          rcases List.mem_cons.mp (hperm.mem_iff.mp he) with rfl | he
          · exact lt_of_le_of_ne hle htime
          · exact hsorted.1 e he
      · have hlt : task.expiredTime < t.expiredTime := not_le.mp hle
        have hless : less (hash t) (hash task) = false := by simp [less, hash, hle]
        have hless' : less (hash task) (hash t) = true := by
          simp [less, hash, Ne.symm hid, hlt.le]
        rw [place, if_neg (by simp [hless]), if_pos hless']
        refine ⟨.refl _, ⟨fun e he => ?_, ?_⟩⟩
        · rcases List.mem_cons.mp he with rfl | he
          · rfl
          · exact h.keyed e he
        · refine List.pairwise_cons.mpr ⟨fun e he => ?_, h.sorted⟩
          rcases List.mem_cons.mp he with rfl | he
          · exact hlt
          · exact hlt.trans (hsorted.1 e he)

/-- Putting a task at its key adds it to the set, when its id and deadline are new. -/
theorem Holds.put {task : TimerTask Cb} {l : TaskSet Cb} (hh : Holds m l)
    (onHit : TimerTask Cb → TimerTask Cb) (hd : TaskSet.Distinct (task :: l)) :
    ∃ data', put onHit (hash task) task m.data = .ok data' ∧
      Holds { m with data := data' } (task :: l) := by
  have hd' : TaskSet.Distinct (task :: m.data.map Prod.snd) := hd.perm (hh.perm.symm.cons task)
  have hfresh : ∀ entry ∈ m.data,
      entry.2.id ≠ task.id ∧ entry.2.expiredTime ≠ task.expiredTime := by
    intro entry hentry
    have hmem := List.mem_map_of_mem (f := Prod.snd) hentry
    exact ⟨hd'.id_ne _ hmem, hd'.time_ne _ hmem⟩
  obtain ⟨hperm, hsorted⟩ := place_perm onHit hh.toSorted hfresh
  refine ⟨_, if_pos ((strictWeakOn_tasks_iff hh.keyed hd'.ids).mpr hd'.times), hsorted, ?_⟩
  exact (hperm.map Prod.snd).trans (hh.perm.cons task)

theorem Holds.find_none (hh : Holds m s) (hfind : m.data.find? (hasId id) = none) :
    ∀ y ∈ s, y.id ≠ id := by
  intro y hy
  obtain ⟨entry, hentry, rfl⟩ := List.mem_map.mp (hh.perm.mem_iff.mpr hy)
  rw [List.find?_eq_none] at hfind
  have hkey := hfind entry hentry
  rw [hasId, hh.keyed entry hentry] at hkey
  simpa [hash] using hkey

theorem find_perm {entry : IdTimestampPair × TimerTask Cb}
    (hfind : data.find? (hasId id) = some entry) :
    entry.1.1 = id ∧ data.Perm (entry :: data.eraseP (hasId id)) := by
  obtain ⟨hhas, before, after, rfl, hbefore⟩ := List.find?_eq_some_iff_append.mp hfind
  refine ⟨by simpa [hasId] using hhas, ?_⟩
  rw [List.eraseP_append_right _ (fun b hb => by simpa using hbefore b hb),
    List.eraseP_cons_of_pos hhas]
  exact List.perm_middle

theorem Holds.eraseP (hh : Holds m s) (hs : s.Distinct)
    {entry : IdTimestampPair × TimerTask Cb} (hfind : m.data.find? (hasId id) = some entry) :
    entry.2.id = id ∧ s.Perm (entry.2 :: s.without id) ∧
      Holds { m with data := m.data.eraseP (hasId id) } (s.without id) := by
  obtain ⟨hkey, hdata⟩ := find_perm hfind
  have hid : entry.2.id = id := by
    rw [hh.keyed entry (List.mem_of_find?_eq_some hfind)] at hkey
    exact hkey
  have hperm : s.Perm (entry.2 :: (m.data.eraseP (hasId id)).map Prod.snd) :=
    hh.perm.symm.trans (hdata.map Prod.snd)
  have hwithout := TaskSet.without_perm hs hperm
  rw [hid] at hwithout
  exact ⟨hid, hperm.trans (hwithout.symm.cons _), hh.toSorted.sublist List.eraseP_sublist,
    hwithout.symm⟩

theorem Holds.head (hh : Holds m s) (hs : s.Distinct)
    {entry : IdTimestampPair × TimerTask Cb} {rest : List (IdTimestampPair × TimerTask Cb)}
    (hdata : m.data = entry :: rest) :
    s.earliest = some entry.2 ∧ Holds { m with data := rest } (s.without entry.2.id) := by
  have hperm : s.Perm (entry.2 :: rest.map Prod.snd) := by
    have hp := hh.perm.symm
    rwa [hdata, List.map_cons] at hp
  have hsorted := hh.sorted
  rw [hdata, List.pairwise_cons] at hsorted
  refine ⟨TaskSet.earliest_eq hs hperm fun y hy => ?_, ?_, ?_⟩
  · obtain ⟨e, he, rfl⟩ := List.mem_map.mp hy
    exact (hsorted.1 e he).le
  · refine hh.toSorted.sublist ?_
    rw [hdata]
    exact List.sublist_cons_self ..
  · exact (TaskSet.without_perm hs hperm).symm

theorem Holds.eq_nil (hh : Holds m s) (hdata : m.data = []) : s = [] := by
  have hp := hh.perm
  rw [hdata] at hp
  exact List.nil_perm.mp hp

theorem Holds.perform {capacity : ℕ} (hh : Holds m s) (hs : s.Distinct) {op : TimerOp Cb}
    (hadmits : s.Admits capacity op) :
    ∃ m', m.perform op = .ok ((s.apply op).1, m') ∧ Holds m' (s.apply op).2 := by
  have hdistinct := hadmits.distinct
  cases op with
  | add task =>
      obtain ⟨data', hput, hholds⟩ := hh.put (fun _ => task) hdistinct
      exact ⟨_, by rw [TimerTaskMap.perform, add, assign, hput]; rfl, hholds⟩
  | remove id =>
      rw [TaskSet.apply, TimerTaskMap.perform, TimerTaskMap.remove]
      cases hfind : m.data.find? (hasId id) with
      | none =>
          have habsent := hh.find_none hfind
          rw [TaskSet.has_eq_false habsent, TaskSet.without_of_absent habsent]
          exact ⟨m, rfl, hh⟩
      | some entry =>
          obtain ⟨rfl, hperm, hholds⟩ := hh.eraseP hs hfind
          rw [TaskSet.has_eq_true hperm]
          exact ⟨_, rfl, hholds⟩
  | modify id duration cycled now =>
      rw [TaskSet.apply] at hdistinct ⊢
      rw [TimerTaskMap.perform, TimerTaskMap.modify]
      cases hfind : m.data.find? (hasId id) with
      | none =>
          have habsent := hh.find_none hfind
          rw [TaskSet.has_eq_false habsent, TaskSet.update_of_absent habsent]
          exact ⟨m, rfl, hh⟩
      | some entry =>
          obtain ⟨rfl, hperm, hholds⟩ := hh.eraseP hs hfind
          have hupdate := TaskSet.update_perm hs hperm
            fun task => (task.setExpiredTime now duration).setCycle cycled
          obtain ⟨data', hput, hplaced⟩ := hholds.put (fun t => t) (hdistinct.perm hupdate)
          rw [TaskSet.has_eq_true hperm]
          refine ⟨{ m with data := data' }, ?_, hplaced.toSorted, hplaced.perm.trans hupdate.symm⟩
          dsimp only
          rw [emplace, hput]
          rfl
  | pop =>
      rw [TaskSet.apply, TimerTaskMap.perform, TimerTaskMap.pop]
      cases hdata : m.data with
      | nil =>
          obtain rfl := hh.eq_nil hdata
          exact ⟨m, rfl, hh⟩
      | cons entry rest =>
          obtain ⟨hearliest, hholds⟩ := hh.head hs hdata
          rw [hearliest]
          exact ⟨_, rfl, hholds⟩
  | popTask now =>
      rw [TaskSet.apply] at hdistinct ⊢
      rw [TimerTaskMap.perform, TimerTaskMap.popTask]
      cases hdata : m.data with
      | nil =>
          obtain rfl := hh.eq_nil hdata
          exact ⟨m, rfl, hh⟩
      | cons entry rest =>
          obtain ⟨hearliest, hholds⟩ := hh.head hs hdata
          rw [hearliest] at hdistinct ⊢
          dsimp only at hdistinct ⊢
          split at hdistinct
          case isTrue hcycled =>
            obtain ⟨data', hput, hplaced⟩ :=
              hholds.put (fun _ => entry.2.setExpiredTime now entry.2.duration) hdistinct
            rw [if_pos hcycled, if_pos hcycled, assign, hput]
            exact ⟨_, rfl, hplaced⟩
          case isFalse hcycled =>
            rw [if_neg hcycled, if_neg hcycled]
            exact ⟨_, rfl, hholds⟩

theorem Holds.size_eq (hh : Holds m s) : m.size = s.length := by
  rw [← hh.perm.length_eq, List.length_map, size]

theorem Holds.top_eq (hh : Holds m s) (hs : s.Distinct) :
    (if m.size = 0 then none else some m.top) = s.earliest := by
  rw [size, top]
  cases hdata : m.data with
  | nil =>
      rw [hh.eq_nil hdata]
      rfl
  | cons entry rest =>
      rw [(hh.head hs hdata).1, List.length_cons, if_neg (Nat.succ_ne_zero _)]

theorem mapStep_refines {capacity : ℕ} (hh : Holds m s) (hs : s.Distinct) {op : TimerOp Cb}
    (hadmits : s.Admits capacity op) :
    ∃ answer m' s', m.mapStep op = .ok (answer, m') ∧ s.step op = .ok (answer, s') ∧
      Holds m' s' ∧ s'.Distinct := by
  obtain ⟨m', hperform, hholds⟩ := hh.perform hs hadmits
  refine ⟨TaskSet.answer (s.apply op).1 (s.apply op).2, m', (s.apply op).2, ?_, rfl, hholds,
    hadmits.distinct⟩
  rw [mapStep, hperform, ok_bind, TaskSet.answer, ← hholds.size_eq,
    ← hholds.top_eq hadmits.distinct]

end TimerTaskMap

end LpNet
