import LpNet.Lib.Recency
import LpNet.Memory

/-!
The class `LRUReplacer`, of which `BufferPool` is a wrapper.

The keys of the list are a recency list (`Represents`): an access is a touch, `evite` and
`remove` forget a key. `inclusion` compares a replacer with a larger one.
-/

namespace LpNet

open Transition

structure LRUReplacer (K V : Type) where
  capacity : ℕ
  caches : List (K × V)
  deriving DecidableEq, Repr

/-- What a call answers: its result, and what it leaves in `value`, if it takes one. -/
abbrev LruAnswer (V : Type) := Bool × Option V

inductive LruOp (K V : Type)
  | access (key : K) (value : V)
  | evite (key : K) (value : V)
  | remove (key : K)
  deriving DecidableEq, Repr

def LruOp.key {K V : Type} : LruOp K V → K
  | .access key _ | .evite key _ | .remove key => key

namespace LRUReplacer

variable {K V : Type}

def new (K V : Type) (capacity : ℕ) : LRUReplacer K V := ⟨capacity, []⟩

/-- `caches_.pop_back()`, which is undefined on an empty list. -/
def popBack (caches : List (K × V)) : Except Fault (List (K × V)) :=
  if caches.isEmpty then .error .outOfBounds else .ok caches.dropLast

variable [DecidableEq K]

/-- `access(key, value)`. A hit is put in front before it is taken out where it was found. -/
def access (r : LRUReplacer K V) (key : K) (value : V) :
    Except Fault (LruAnswer V × LRUReplacer K V) :=
  match r.caches.find? fun entry => entry.1 = key with
  | some entry =>
      .ok ((true, some entry.2),
        { r with caches := entry :: r.caches.eraseP fun entry => entry.1 = key })
  | none => do
      let caches ← if r.capacity ≤ r.caches.length then popBack r.caches else .ok r.caches
      .ok ((false, some value), { r with caches := (key, value) :: caches })

def evite (r : LRUReplacer K V) (key : K) (value : V) : LruAnswer V × LRUReplacer K V :=
  match r.caches.find? fun entry => entry.1 = key with
  | some entry =>
      ((true, some entry.2), { r with caches := r.caches.eraseP fun entry => entry.1 = key })
  | none => ((false, some value), r)

def remove (r : LRUReplacer K V) (key : K) : LruAnswer V × LRUReplacer K V :=
  match r.caches.find? fun entry => entry.1 = key with
  | some _ => ((true, none), { r with caches := r.caches.eraseP fun entry => entry.1 = key })
  | none => ((false, none), r)

def lruStep (r : LRUReplacer K V) : LruOp K V → Except Fault (LruAnswer V × LRUReplacer K V)
  | .access key value => r.access key value
  | .evite key value => .ok (r.evite key value)
  | .remove key => .ok (r.remove key)

omit [DecidableEq K] in
def keys (r : LRUReplacer K V) : List K := r.caches.map Prod.fst

/-! ### The list of entries -/

variable {r : LRUReplacer K V} {key : K}

theorem find_eq_none : (r.caches.find? fun entry => entry.1 = key) = none ↔ key ∉ r.keys := by
  rw [List.find?_eq_none, keys, List.mem_map, not_exists]
  refine forall_congr' fun entry => ?_
  rw [decide_eq_true_eq, not_and]

theorem find_eq_some {entry : K × V}
    (h : (r.caches.find? fun entry => entry.1 = key) = some entry) :
    entry ∈ r.caches ∧ entry.1 = key :=
  ⟨List.mem_of_find?_eq_some h, by simpa using List.find?_some h⟩

theorem map_eraseP (caches : List (K × V)) (key : K) :
    (caches.eraseP fun entry => entry.1 = key).map Prod.fst = (caches.map Prod.fst).erase key := by
  induction caches with
  | nil => rfl
  | cons entry caches ih =>
      by_cases heq : entry.1 = key
      case pos => simp [heq]
      case neg => simp [heq, ih]

theorem eraseP_eq_filter {caches : List (K × V)} (h : (caches.map Prod.fst).Nodup) (key : K) :
    (caches.eraseP fun entry => entry.1 = key) = caches.filter fun entry => entry.1 ≠ key := by
  induction caches with
  | nil => rfl
  | cons entry caches ih =>
      rw [List.map_cons, List.nodup_cons] at h
      by_cases heq : entry.1 = key
      case pos =>
        have hall : ∀ other ∈ caches, decide (other.1 ≠ key) = true := by
          intro other hother
          rw [decide_eq_true_eq]
          intro hkey
          exact h.1 (heq ▸ hkey ▸ List.mem_map_of_mem hother)
        rw [List.eraseP_cons_of_pos (by simpa using heq),
          List.filter_cons_of_neg (by simpa using heq),
          List.filter_eq_self.mpr hall]
      case neg =>
        rw [List.eraseP_cons_of_neg (by simpa using heq),
          List.filter_cons_of_pos (by simpa using heq),
          ih h.2]

theorem dropLast_eq_filter {caches : List (K × V)} (h : (caches.map Prod.fst).Nodup)
    {last : K × V} (hlast : caches.getLast? = some last) :
    caches.dropLast = caches.filter fun entry => entry.1 ≠ last.1 := by
  obtain ⟨front, rfl⟩ := List.getLast?_eq_some_iff.mp hlast
  rw [List.map_append, List.nodup_append] at h
  have hall : ∀ entry ∈ front, (decide (entry.1 ≠ last.1)) = true := by
    intro entry hentry
    rw [decide_eq_true_eq]
    exact h.2.2 entry.1 (List.mem_map_of_mem hentry) last.1 (by simp)
  rw [List.dropLast_concat, List.filter_append, List.filter_eq_self.mpr hall]
  simp

/-! ### The recency list -/

omit [DecidableEq K] in
structure Represents {n : ℕ} (r : LRUReplacer K V) (q : Recency K n) : Prop where
  capacity_eq : r.capacity = n
  keys_eq : r.keys = q.keys

variable {n : ℕ} {q : Recency K n}

omit [DecidableEq K] in
theorem represents_new (n : ℕ) : (new K V n).Represents (Recency.empty K n) := ⟨rfl, rfl⟩

omit [DecidableEq K] in
theorem Represents.nodup (h : r.Represents q) : (r.caches.map Prod.fst).Nodup := by
  have hnodup := q.nodup
  rw [← h.keys_eq] at hnodup
  exact hnodup

omit [DecidableEq K] in
theorem Represents.length_eq (h : r.Represents q) : r.caches.length = q.keys.length := by
  rw [← h.keys_eq, keys, List.length_map]

theorem Represents.hit (h : r.Represents q) (hn : 0 < n) {entry : K × V}
    (hentry : entry ∈ r.caches) (hkey : entry.1 = key) :
    Represents { r with caches := entry :: r.caches.eraseP fun entry => entry.1 = key }
      (q.touch hn key) := by
  have hmem : key ∈ q.keys := by
    rw [← h.keys_eq, ← hkey]
    exact List.mem_map_of_mem hentry
  refine ⟨h.capacity_eq, ?_⟩
  rw [keys, List.map_cons, map_eraseP, hkey, ← keys, h.keys_eq, Recency.touch_keys,
    Recency.others, if_pos hmem]

/-- A miss: the new entry comes in front of those that stay. -/
theorem Represents.miss (h : r.Represents q) (hn : 0 < n) (hkey : key ∉ r.keys) (value : V) :
    Represents { r with caches := (key, value) ::
      if r.capacity ≤ r.caches.length then r.caches.dropLast else r.caches } (q.touch hn key) := by
  rw [h.keys_eq] at hkey
  refine ⟨h.capacity_eq, ?_⟩
  rw [keys, List.map_cons, Recency.touch_keys, Recency.others, if_neg hkey, h.capacity_eq,
    h.length_eq, ← h.keys_eq]
  split
  · rw [List.map_dropLast, keys]
  · rfl

theorem Represents.erased (h : r.Represents q) (key : K) :
    Represents { r with caches := r.caches.eraseP fun entry => entry.1 = key } (q.forget key) := by
  refine ⟨h.capacity_eq, ?_⟩
  rw [keys, map_eraseP, ← keys, h.keys_eq, Recency.forget_keys]

theorem Represents.absent (h : r.Represents q) (hkey : key ∉ r.keys) :
    r.Represents (q.forget key) := by
  refine ⟨h.capacity_eq, ?_⟩
  rw [h.keys_eq] at hkey
  rw [Recency.forget_keys, List.erase_of_not_mem hkey, h.keys_eq]

theorem access_hit {entry : K × V} {value : V}
    (h : (r.caches.find? fun entry => entry.1 = key) = some entry) :
    r.access key value = .ok ((true, some entry.2),
      { r with caches := entry :: r.caches.eraseP fun entry => entry.1 = key }) := by
  rw [access, h]

theorem access_miss (hcapacity : 0 < r.capacity) {value : V}
    (h : (r.caches.find? fun entry => entry.1 = key) = none) :
    r.access key value = .ok ((false, some value), { r with caches := (key, value) ::
      if r.capacity ≤ r.caches.length then r.caches.dropLast else r.caches }) := by
  rw [access, h]
  dsimp only
  split
  case isTrue hfull =>
    have hne : r.caches.isEmpty = false := by
      rw [List.isEmpty_eq_false_iff, ← List.length_pos_iff]
      exact Nat.lt_of_lt_of_le hcapacity hfull
    rw [popBack, hne]
    rfl
  case isFalse => rfl

theorem evite_eq (r : LRUReplacer K V) (key : K) (value : V) :
    (r.evite key value).1.1 = (r.remove key).1.1 ∧ (r.evite key value).2 = (r.remove key).2 := by
  rw [evite, LRUReplacer.remove]
  cases r.caches.find? fun entry => entry.1 = key with
  | some entry => exact ⟨rfl, rfl⟩
  | none => exact ⟨rfl, rfl⟩

theorem Represents.remove (h : r.Represents q) (key : K) :
    (r.remove key).2.Represents (q.forget key) ∧ ((r.remove key).1.1 = true ↔ key ∈ q.keys) := by
  rw [LRUReplacer.remove, ← h.keys_eq]
  cases hfind : r.caches.find? fun entry => entry.1 = key with
  | some entry =>
      obtain ⟨hentry, hkey⟩ := find_eq_some hfind
      exact ⟨h.erased key, iff_of_true rfl (hkey ▸ List.mem_map_of_mem hentry)⟩
  | none =>
      have hkey := find_eq_none.mp hfind
      exact ⟨h.absent hkey, iff_of_false Bool.false_ne_true hkey⟩

def after (hn : 0 < n) (q : Recency K n) : LruOp K V → Recency K n
  | .access key _ => q.touch hn key
  | .evite key _ | .remove key => q.forget key

theorem Represents.step (h : r.Represents q) (hn : 0 < n) (op : LruOp K V) :
    ∃ answer r', r.lruStep op = .ok (answer, r') ∧ r'.Represents (after hn q op) ∧
      (answer.1 = true ↔ op.key ∈ q.keys) := by
  cases op with
  | access key value =>
      rw [lruStep, ← h.keys_eq]
      cases hfind : r.caches.find? fun entry => entry.1 = key with
      | some entry =>
          obtain ⟨hentry, hkey⟩ := find_eq_some hfind
          refine ⟨_, _, access_hit hfind, h.hit hn hentry hkey, ?_⟩
          exact iff_of_true rfl (hkey ▸ List.mem_map_of_mem hentry)
      | none =>
          have hkey := find_eq_none.mp hfind
          refine ⟨_, _, access_miss (h.capacity_eq ▸ hn) hfind, h.miss hn hkey value, ?_⟩
          exact iff_of_false Bool.false_ne_true hkey
  | evite key value =>
      obtain ⟨hfound, hleft⟩ := evite_eq r key value
      obtain ⟨hkeys, hiff⟩ := h.remove key
      exact ⟨_, _, rfl, hleft ▸ hkeys, hfound ▸ hiff⟩
  | remove key =>
      obtain ⟨hkeys, hiff⟩ := h.remove key
      exact ⟨_, _, rfl, hkeys, hiff⟩

/-- Of two replacers that are given the same calls, the smaller one holds the first keys of the
larger one, and hits only where the larger one does. -/
theorem inclusion {n m : ℕ} (hn : 1 ≤ n) (hnm : n ≤ m) (ops : List (LruOp K V)) :
    ∃ small large r r', run lruStep (new K V n) ops = .ok (small, r) ∧
      run lruStep (new K V m) ops = .ok (large, r') ∧
      List.Forall₂ (fun a b => a.1 = true → b.1 = true) small large ∧ r.keys <+: r'.keys := by
  have hm : 0 < m := Nat.lt_of_lt_of_le hn hnm
  have hfree : ∀ (k : ℕ), Along lruStep (fun _ _ => True) (new K V k) ops := fun k =>
    along_of_forall_mem fun _ _ => trivial
  have hstep : ∀ (r r' : LRUReplacer K V) (op : LruOp K V),
      (∃ (q : Recency K n) (q' : Recency K m), r.Represents q ∧ r'.Represents q' ∧
        q.keys <+: q'.keys) → True → True →
      ∃ a b s s', r.lruStep op = .ok (a, s) ∧ r'.lruStep op = .ok (b, s') ∧
        (a.1 = true → b.1 = true) ∧
        ∃ (q : Recency K n) (q' : Recency K m), s.Represents q ∧ s'.Represents q' ∧
          q.keys <+: q'.keys := by
    rintro r r' op ⟨q, q', h, h', hfirst⟩ - -
    obtain ⟨a, s, hs, hrep, ha⟩ := h.step hn op
    obtain ⟨b, s', hs', hrep', hb⟩ := h'.step hm op
    refine ⟨a, b, s, s', hs, hs', fun hhit => ?_, _, _, hrep, hrep', ?_⟩
    · exact hb.mpr (hfirst.subset (ha.mp hhit))
    · cases op with
      | access key value => exact Recency.prefix_touch hn hnm hfirst key
      | evite key value => exact Recency.prefix_forget hfirst key
      | remove key => exact Recency.prefix_forget hfirst key
  obtain ⟨small, large, r, r', hr, hr', hhits, q, q', h, h', hfirst⟩ :=
    run_related_of_simulation hstep
      ⟨_, _, represents_new n, represents_new m, List.prefix_refl _⟩ (hfree n) (hfree m)
  rw [← h.keys_eq, ← h'.keys_eq] at hfirst
  exact ⟨small, large, r, r', hr, hr', hhits, hfirst⟩

/-- A replacer of one entry next to one of two. -/
theorem inclusion_one_two :
    ∃ small large r r',
      run lruStep (new ℕ ℕ 1) [.access 7 70, .access 8 80, .access 7 71, .remove 8] =
        .ok (small, r) ∧
      run lruStep (new ℕ ℕ 2) [.access 7 70, .access 8 80, .access 7 71, .remove 8] =
        .ok (large, r') ∧
      List.Forall₂ (fun a b => a.1 = true → b.1 = true) small large ∧ r.keys <+: r'.keys :=
  inclusion (by decide) (by decide) _

end LRUReplacer

end LpNet
