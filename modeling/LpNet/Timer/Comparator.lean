import LpNet.Timer.Evolution

/-!
Whether `TimerTaskMap::Comparator` orders the keys it is given.

`std::map` asks for a strict weak order. Two keys with different ids and the same
deadline are each less than the other, so that the comparator is one only on keys whose
deadlines are distinct. `ordered_iff` is about every key that a run of calls compares.
-/

namespace LpNet

open Transition

namespace TimerTaskMap

variable {Cb : Type} {m : TimerTaskMap Cb} {op : TimerOp Cb}

/-! ### The keys of a run -/

def keys (m : TimerTaskMap Cb) : List IdTimestampPair := m.data.map Prod.fst

/-- The keys that a call has the map compare: those in it, and the one it puts there. -/
def probed (m : TimerTaskMap Cb) : TimerOp Cb → List IdTimestampPair
  | .add task => hash task :: m.keys
  | .modify id duration cycled now =>
      match m.data.find? (hasId id) with
      | none => m.keys
      | some entry =>
          -- the old key is gone when the new one is put in
          hash ((entry.2.setExpiredTime now duration).setCycle cycled) ::
            (m.data.eraseP (hasId id)).map Prod.fst
  | .popTask now =>
      match m.data with
      | [] => []
      | entry :: rest =>
          if entry.2.cycled then
            hash (entry.2.setExpiredTime now entry.2.duration) :: rest.map Prod.fst
          else m.keys
  | .remove _ | .pop => m.keys

/-- The comparator is a strict weak order on the keys that are present and on those that the call
compares, the call has its effect on the tasks, and afterwards `top()` is the earliest. -/
structure OrderedCall (m : TimerTaskMap Cb) (op : TimerOp Cb) : Prop where
  present : StrictWeakOn less m.keys
  compared : StrictWeakOn less (m.probed op)
  performs : ∃ result m', m.perform op = .ok (result, m') ∧ m.Effect op result m' ∧
    (m'.data ≠ [] → m'.stored.Earliest m'.top)

/-- No two of these keys have the same deadline. -/
def DistinctDeadlines (m : TimerTaskMap Cb) (op : TimerOp Cb) : Prop :=
  (m.keys.map Prod.snd).Nodup ∧ ((m.probed op).map Prod.snd).Nodup

instance (m : TimerTaskMap Cb) (op : TimerOp Cb) : Decidable (m.DistinctDeadlines op) :=
  inferInstanceAs (Decidable (_ ∧ _))

theorem Kept.keys_ids (h : m.Kept) : (m.keys.map Prod.fst).Nodup := by
  rw [keys, keys_eq_map h.keyed, List.map_map]
  exact h.ids

theorem Kept.cons_ids (h : m.Kept) {task : TimerTask Cb}
    (hfresh : ∀ u ∈ m.stored, u.id ≠ task.id) : ((hash task :: m.keys).map Prod.fst).Nodup := by
  rw [List.map_cons, List.nodup_cons]
  refine ⟨fun hmem => ?_, h.keys_ids⟩
  rw [keys, List.map_map] at hmem
  obtain ⟨entry, hentry, heq⟩ := List.mem_map.mp hmem
  rw [Function.comp_apply, h.keyed entry hentry] at heq
  exact hfresh entry.2 (List.mem_map_of_mem hentry) heq

theorem Kept.probed_ids (h : m.Kept) (hnew : m.AddsNewId op) :
    ((m.probed op).map Prod.fst).Nodup := by
  cases op with
  | add task => exact h.cons_ids hnew
  | remove id => exact h.keys_ids
  | modify id duration cycled now =>
      rw [probed]
      cases hfind : m.data.find? (hasId id) with
      | none => exact h.keys_ids
      | some entry =>
          obtain ⟨hid, -, hkept, hfresh⟩ := h.find hfind
          exact hkept.cons_ids fun u hu heq => hfresh u hu (heq.trans hid)
  | pop => exact h.keys_ids
  | popTask now =>
      rw [probed]
      cases hdata : m.data with
      | nil => exact List.nodup_nil
      | cons entry rest =>
          dsimp only
          split
          case isTrue =>
            have hkept : ({ m with data := rest } : TimerTaskMap Cb).Kept := by
              refine h.sublist ?_
              rw [hdata]
              exact List.sublist_cons_self ..
            refine hkept.cons_ids fun u hu heq => ?_
            have hids := h.ids
            rw [stored_eq_cons hdata, List.map_cons, List.nodup_cons] at hids
            exact hids.1 (List.mem_map.mpr ⟨u, hu, heq⟩)
          case isFalse => exact h.keys_ids

theorem Kept.top_earliest (h : m.Kept) (hne : m.data ≠ []) : m.stored.Earliest m.top := by
  obtain ⟨entry, rest, hdata⟩ := List.exists_cons_of_ne_nil hne
  have htop : m.top = entry.2 := by rw [TimerTaskMap.top, hdata]
  rw [htop]
  exact h.earliest hdata

theorem perform_ok (horder : StrictWeakOn less (m.probed op)) :
    ∃ result m', m.perform op = .ok (result, m') := by
  cases op with
  | add task =>
      have hput : assign m.data (hash task) task = .ok _ := put_eq_ok.mpr ⟨horder, rfl⟩
      exact ⟨_, _, by rw [perform, add, hput]; rfl⟩
  | remove id => exact ⟨_, _, rfl⟩
  | modify id duration cycled now =>
      rw [perform, TimerTaskMap.modify]
      rw [probed] at horder
      cases hfind : m.data.find? (hasId id) with
      | none => exact ⟨_, _, rfl⟩
      | some entry =>
          rw [hfind] at horder
          dsimp only
          rw [emplace, put_eq_ok.mpr ⟨horder, rfl⟩]
          exact ⟨_, _, rfl⟩
  | pop => exact ⟨_, _, rfl⟩
  | popTask now =>
      rw [perform, TimerTaskMap.popTask]
      rw [probed] at horder
      cases hdata : m.data with
      | nil => exact ⟨_, _, rfl⟩
      | cons entry rest =>
          rw [hdata] at horder
          dsimp only at horder ⊢
          split at horder
          case isTrue hcycled =>
            rw [if_pos hcycled, assign, put_eq_ok.mpr ⟨horder, rfl⟩]
            exact ⟨_, _, rfl⟩
          case isFalse hcycled =>
            rw [if_neg hcycled]
            exact ⟨_, _, rfl⟩

theorem Kept.orderedCall_iff (h : m.Kept) (hnew : m.AddsNewId op) :
    m.OrderedCall op ↔ m.DistinctDeadlines op := by
  constructor
  · intro hcall
    exact ⟨(strictWeakOn_less_iff h.keys_ids).mp hcall.present,
      (strictWeakOn_less_iff (h.probed_ids hnew)).mp hcall.compared⟩
  · rintro ⟨hpresent, hcompared⟩
    have horder := (strictWeakOn_less_iff (h.probed_ids hnew)).mpr hcompared
    obtain ⟨result, m', hperform⟩ := perform_ok horder
    obtain ⟨heffect, hkept⟩ := h.effect hnew hperform
    exact ⟨(strictWeakOn_less_iff h.keys_ids).mpr hpresent, horder, result, m', hperform, heffect,
      hkept.top_earliest⟩

theorem Kept.mapStep {m' : TimerTaskMap Cb} {answer : TimerAnswer Cb} (h : m.Kept)
    (hnew : m.AddsNewId op) (hstep : m.mapStep op = .ok (answer, m')) : m'.Kept := by
  obtain ⟨⟨result, m''⟩, hperform, heq⟩ := bind_eq_ok.mp hstep
  cases heq
  exact (h.effect hnew hperform).2

/-- In a run in which every added task has a new id, the map is ordered by its comparator, takes the
earliest task and loses none exactly as long as no two keys that it compares have the same
deadline. -/
theorem ordered_iff (capacity : ℕ) (ops : List (TimerOp Cb))
    (hnew : Along mapStep AddsNewId (new Cb capacity) ops) :
    Along mapStep OrderedCall (new Cb capacity) ops ↔
      Along mapStep DistinctDeadlines (new Cb capacity) ops :=
  along_iff_along (fun _ _ _ _ h hnew hstep => h.mapStep hnew hstep)
    (fun _ _ h hnew => h.orderedCall_iff hnew) (kept_new Cb capacity) hnew

/-- Three tasks, of which the cyclic one is taken when it is due. -/
def threeDeadlines : List (TimerOp Unit) :=
  [.add ⟨5, 9, false, none, 1⟩, .add ⟨5, 5, true, none, 2⟩, .add ⟨5, 7, false, none, 3⟩,
    .popTask 6]

theorem ordered_iff_three : Along mapStep OrderedCall (new Unit 0) threeDeadlines ↔
    Along mapStep DistinctDeadlines (new Unit 0) threeDeadlines :=
  ordered_iff 0 threeDeadlines (by decide)

/-- Two tasks created in the same millisecond: each key is less than the other. -/
theorem not_ordered_equal_deadlines : ¬ Along mapStep OrderedCall (new Unit 0)
    [.add ⟨5, 5, false, none, 1⟩, .add ⟨5, 5, false, none, 2⟩] := by
  intro h
  have hcall := (h.2 _ _ rfl).1
  have hboth := hcall.compared.asymm (2, 5) (by decide) (1, 5) (by decide) (by decide)
  exact absurd hboth (by decide)

end TimerTaskMap

end LpNet
