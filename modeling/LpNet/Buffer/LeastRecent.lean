import LpNet.Buffer.Replacer

/-!
What an `LRUReplacer` replaces.

`LruLog` is the replacer with the calls made so far, from which it can be read when a key
was accessed last and which value it was inserted with. `Recent` is what the history says
of the list in every state, and `Replaces` what it says of a call; `replaces_least_recent`
proves both for every sequence of calls.
-/

namespace LpNet

open Transition

/-- A replacer with the calls made so far and their answers, the last one first. -/
structure LruLog (K V : Type) where
  lru : LRUReplacer K V
  calls : List (LruOp K V × LruAnswer V)
  deriving DecidableEq, Repr

namespace LruLog

variable {K V : Type}

def start (K V : Type) (capacity : ℕ) : LruLog K V := ⟨.new K V capacity, []⟩

variable [DecidableEq K]

def logStep (s : LruLog K V) (op : LruOp K V) : Except Fault (LruAnswer V × LruLog K V) := do
  let (answer, lru) ← s.lru.lruStep op
  .ok (answer, ⟨lru, (op, answer) :: s.calls⟩)

/-- Which call was the last access of the key, counted from 1, and 0 if there was none. -/
def lastAccess : List (LruOp K V × LruAnswer V) → K → ℕ
  | [], _ => 0
  | (.access k _, _) :: calls, key => if key = k then calls.length + 1 else lastAccess calls key
  | (.evite _ _, _) :: calls, key | (.remove _, _) :: calls, key => lastAccess calls key

/-- The value that the last access that missed the key inserted it with. -/
def lastInserted : List (LruOp K V × LruAnswer V) → K → Option V
  | [], _ => none
  | (.access k value, (hit, _)) :: calls, key =>
      if key = k ∧ hit = false then some value else lastInserted calls key
  | (.evite _ _, _) :: calls, key | (.remove _, _) :: calls, key => lastInserted calls key

/-- Distinct keys, not too many, the one accessed last first, each with the value it was last
inserted with. -/
structure Recent (n : ℕ) (s : LruLog K V) : Prop where
  capacity_eq : s.lru.capacity = n
  nodup : s.lru.keys.Nodup
  length_le : s.lru.caches.length ≤ n
  order : s.lru.keys.Pairwise fun a b => lastAccess s.calls b < lastAccess s.calls a
  accessed : ∀ key ∈ s.lru.keys, 0 < lastAccess s.calls key
  stored : ∀ entry ∈ s.lru.caches, lastInserted s.calls entry.1 = some entry.2

def without (caches : List (K × V)) (key : K) : List (K × V) :=
  caches.filter fun entry => entry.1 ≠ key

/-- What a call answers and leaves: a hit gives the value that the key was last inserted with
and moves it to the front; a miss on a full replacer takes the key out that was accessed before
all others, and no other; `evite` and `remove` take out their key and no other. -/
def Replaces (s : LruLog K V) (answer : LruAnswer V) (s' : LruLog K V) : LruOp K V → Prop
  | .access key value =>
      (key ∈ s.lru.keys ∧ ∃ stored, lastInserted s.calls key = some stored ∧
          answer = (true, some stored) ∧
          s'.lru.caches = (key, stored) :: without s.lru.caches key) ∨
        (key ∉ s.lru.keys ∧ answer = (false, some value) ∧
          ((s.lru.caches.length < s.lru.capacity ∧
              s'.lru.caches = (key, value) :: s.lru.caches) ∨
            (s.lru.caches.length = s.lru.capacity ∧ ∃ oldest ∈ s.lru.keys,
              (∀ k ∈ s.lru.keys, k ≠ oldest → lastAccess s.calls oldest < lastAccess s.calls k) ∧
              s'.lru.caches = (key, value) :: without s.lru.caches oldest)))
  | .evite key value =>
      (key ∈ s.lru.keys ∧ answer = (true, lastInserted s.calls key) ∨
        key ∉ s.lru.keys ∧ answer = (false, some value)) ∧
        s'.lru.caches = without s.lru.caches key
  | .remove key =>
      (key ∈ s.lru.keys ∧ answer = (true, none) ∨ key ∉ s.lru.keys ∧ answer = (false, none)) ∧
        s'.lru.caches = without s.lru.caches key

/-! ### Reading the history -/

variable {n : ℕ} {s : LruLog K V} {calls : List (LruOp K V × LruAnswer V)}

theorem lastAccess_le (calls : List (LruOp K V × LruAnswer V)) (key : K) :
    lastAccess calls key ≤ calls.length := by
  induction calls with
  | nil => exact Nat.le_refl 0
  | cons call calls ih =>
      obtain ⟨op, answer⟩ := call
      cases op with
      | access k value =>
          rw [lastAccess, List.length_cons]
          split
          · exact Nat.le_refl _
          · exact Nat.le_succ_of_le ih
      | evite k value => exact Nat.le_succ_of_le ih
      | remove k => exact Nat.le_succ_of_le ih

theorem lastAccess_self (key : K) (value : V) (answer : LruAnswer V) :
    lastAccess ((.access key value, answer) :: calls) key = calls.length + 1 := by
  rw [lastAccess, if_pos rfl]

theorem lastAccess_of_ne {key k : K} (h : key ≠ k) (value : V) (answer : LruAnswer V) :
    lastAccess ((.access k value, answer) :: calls) key = lastAccess calls key := by
  rw [lastAccess, if_neg h]

theorem lastInserted_hit (key k : K) (value : V) (out : Option V) :
    lastInserted ((.access k value, (true, out)) :: calls) key = lastInserted calls key := by
  rw [lastInserted, if_neg fun h => Bool.false_ne_true h.2.symm]

theorem lastInserted_miss (key : K) (value : V) (out : Option V) :
    lastInserted ((.access key value, (false, out)) :: calls) key = some value := by
  rw [lastInserted, if_pos ⟨rfl, rfl⟩]

theorem lastInserted_of_ne {key k : K} (h : key ≠ k) (value : V) (answer : LruAnswer V) :
    lastInserted ((.access k value, answer) :: calls) key = lastInserted calls key := by
  rw [lastInserted, if_neg fun heq => h heq.1]

theorem without_of_absent {caches : List (K × V)} {key : K} (h : key ∉ caches.map Prod.fst) :
    without caches key = caches := by
  refine List.filter_eq_self.mpr fun entry hentry => ?_
  rw [decide_eq_true_eq]
  intro heq
  exact h (heq ▸ List.mem_map_of_mem hentry)

/-! ### One call -/

theorem start_recent (n : ℕ) : (start K V n).Recent n where
  capacity_eq := rfl
  nodup := List.nodup_nil
  length_le := Nat.zero_le n
  order := List.Pairwise.nil
  accessed := fun key hkey => by cases hkey
  stored := fun entry hentry => by cases hentry

/-- The list as a recency list, in the order of the last accesses. -/
theorem Recent.represents (h : s.Recent n) :
    ∃ q : Recency K n, s.lru.Represents q ∧ q.Stamped (lastAccess s.calls) := by
  refine ⟨⟨s.lru.keys, h.nodup, ?_⟩, ⟨h.capacity_eq, rfl⟩, h.order⟩
  rw [LRUReplacer.keys, List.length_map]
  exact h.length_le

theorem recent_of_represents {q : Recency K n} (h : s.lru.Represents q)
    (hstamped : q.Stamped (lastAccess s.calls))
    (haccessed : ∀ key ∈ q.keys, 0 < lastAccess s.calls key)
    (hstored : ∀ entry ∈ s.lru.caches, lastInserted s.calls entry.1 = some entry.2) :
    s.Recent n where
  capacity_eq := h.capacity_eq
  nodup := h.nodup
  length_le := h.length_eq ▸ q.length_le
  order := by
    rw [h.keys_eq]
    exact hstamped
  accessed := by
    rw [h.keys_eq]
    exact haccessed
  stored := hstored

theorem Recent.touched (hn : 0 < n) {q : Recency K n} (h : s.lru.Represents q)
    (hs : s.Recent n) (hstamped : q.Stamped (lastAccess s.calls)) {key : K} {value : V}
    {answer : LruAnswer V} {lru : LRUReplacer K V} (hlru : lru.Represents (q.touch hn key))
    (hstored : ∀ entry ∈ lru.caches,
      lastInserted ((.access key value, answer) :: s.calls) entry.1 = some entry.2) :
    Recent n ⟨lru, (.access key value, answer) :: s.calls⟩ := by
  refine recent_of_represents hlru ?_ ?_ hstored
  · refine hstamped.touch hn (fun x _ => ?_) fun x hx => lastAccess_of_ne hx value answer
    rw [lastAccess_self]
    exact Nat.lt_succ_of_le (lastAccess_le s.calls x)
  · intro k hk
    rw [Recency.touch_keys, List.mem_cons] at hk
    dsimp only
    by_cases heq : k = key
    case pos =>
      rw [heq, lastAccess_self]
      exact Nat.succ_pos _
    case neg =>
      rw [lastAccess_of_ne heq]
      refine hs.accessed k ?_
      rw [h.keys_eq]
      exact (q.others_sublist key).subset (hk.resolve_left heq)

/-- Taking a key out keeps what the history says of the others. -/
theorem Recent.erased (hs : s.Recent n) (key : K) :
    Recent n
      ⟨{ s.lru with caches := s.lru.caches.eraseP fun entry => entry.1 = key }, s.calls⟩ := by
  obtain ⟨q, h, hstamped⟩ := hs.represents
  refine recent_of_represents (h.erased key) (hstamped.forget key) ?_ ?_
  · intro k hk
    refine hs.accessed k ?_
    rw [h.keys_eq]
    exact List.mem_of_mem_erase hk
  · exact fun entry hentry => hs.stored entry (List.eraseP_sublist.subset hentry)

theorem Recent.recorded (hs : s.Recent n) {call : LruOp K V × LruAnswer V}
    (haccess : ∀ k, lastAccess (call :: s.calls) k = lastAccess s.calls k)
    (hinserted : ∀ k, lastInserted (call :: s.calls) k = lastInserted s.calls k) :
    Recent n ⟨s.lru, call :: s.calls⟩ := by
  obtain ⟨q, h, hstamped⟩ := hs.represents
  have hsame : lastAccess (call :: s.calls) = lastAccess s.calls := funext haccess
  refine recent_of_represents h ?_ ?_ ?_
  · rw [hsame]
    exact hstamped
  · intro k hk
    dsimp only
    rw [haccess]
    exact hs.accessed k (h.keys_eq ▸ hk)
  · intro entry hentry
    dsimp only
    rw [hinserted]
    exact hs.stored entry hentry

/-- A full replacer takes out the key that was accessed before all others. -/
theorem Recent.evicted (hs : s.Recent n) (hn : 0 < n) (hfull : n ≤ s.lru.caches.length) :
    ∃ oldest ∈ s.lru.keys,
      (∀ k ∈ s.lru.keys, k ≠ oldest → lastAccess s.calls oldest < lastAccess s.calls k) ∧
      s.lru.caches.dropLast = without s.lru.caches oldest := by
  obtain ⟨q, h, hstamped⟩ := hs.represents
  cases hlast : s.lru.caches.getLast? with
  | none =>
      rw [List.getLast?_eq_none_iff.mp hlast] at hfull
      exact absurd hn (Nat.not_lt.mpr hfull)
  | some last =>
      have hkeys : q.keys.getLast? = some last.1 := by
        rw [← h.keys_eq, LRUReplacer.keys, List.getLast?_map, hlast]
        rfl
      refine ⟨last.1, List.mem_map_of_mem (List.mem_of_getLast? hlast), ?_,
        LRUReplacer.dropLast_eq_filter h.nodup hlast⟩
      rw [h.keys_eq]
      exact hstamped.oldest hkeys

theorem logStep_of_lruStep {op : LruOp K V} {answer : LruAnswer V} {lru : LRUReplacer K V}
    (h : s.lru.lruStep op = .ok (answer, lru)) :
    s.logStep op = .ok (answer, ⟨lru, (op, answer) :: s.calls⟩) := by
  rw [logStep, h, ok_bind]

theorem Recent.access (hs : s.Recent n) (hn : 0 < n) (key : K) (value : V) :
    ∃ answer s', s.logStep (.access key value) = .ok (answer, s') ∧ s'.Recent n ∧
      s.Replaces answer s' (.access key value) := by
  obtain ⟨q, h, hstamped⟩ := hs.represents
  cases hfind : s.lru.caches.find? fun entry => entry.1 = key with
  | some entry =>
      obtain ⟨hentry, hkey⟩ := LRUReplacer.find_eq_some hfind
      have hstored := hs.stored entry hentry
      have heq : entry = (key, entry.2) := by rw [← hkey]
      refine ⟨_, _, logStep_of_lruStep (LRUReplacer.access_hit hfind),
        hs.touched hn h hstamped (h.hit hn hentry hkey) fun other hother => ?_, .inl ⟨?_, ?_⟩⟩
      · rw [lastInserted_hit]
        rcases List.mem_cons.mp hother with rfl | hother
        · exact hstored
        · exact hs.stored other (List.eraseP_sublist.subset hother)
      · exact hkey ▸ List.mem_map_of_mem hentry
      · refine ⟨entry.2, hkey ▸ hstored, rfl, ?_⟩
        dsimp only
        rw [LRUReplacer.eraseP_eq_filter h.nodup, ← heq]
        rfl
  | none =>
      have hkey := LRUReplacer.find_eq_none.mp hfind
      have hcapacity : 0 < s.lru.capacity := h.capacity_eq ▸ hn
      refine ⟨_, _, logStep_of_lruStep (LRUReplacer.access_miss hcapacity hfind),
        hs.touched hn h hstamped (h.miss hn hkey value) fun other hother => ?_,
        .inr ⟨hkey, rfl, ?_⟩⟩
      · rcases List.mem_cons.mp hother with rfl | hother
        · exact lastInserted_miss key value (some value)
        · have hold : other ∈ s.lru.caches := by
            split at hother
            · exact (List.dropLast_sublist _).subset hother
            · exact hother
          have hne : other.1 ≠ key := fun heq => hkey (heq ▸ List.mem_map_of_mem hold)
          rw [lastInserted_of_ne hne]
          exact hs.stored other hold
      · by_cases hfull : s.lru.capacity ≤ s.lru.caches.length
        case pos =>
          have hle := hs.length_le
          have hn' := h.capacity_eq
          obtain ⟨oldest, hmem, holdest, hdrop⟩ := hs.evicted hn (hn' ▸ hfull)
          refine .inr ⟨by omega, oldest, hmem, holdest, ?_⟩
          dsimp only
          rw [if_pos hfull, hdrop]
        case neg =>
          refine .inl ⟨Nat.not_le.mp hfull, ?_⟩
          dsimp only
          rw [if_neg hfull]

/-- Every call keeps the list in the order of the last accesses, and does what the history says
of it. -/
theorem Recent.step (hs : s.Recent n) (hn : 0 < n) (op : LruOp K V) :
    ∃ answer s', s.logStep op = .ok (answer, s') ∧ s'.Recent n ∧ s.Replaces answer s' op := by
  cases op with
  | access key value => exact hs.access hn key value
  | evite key value =>
      cases hfind : s.lru.caches.find? fun entry => entry.1 = key with
      | some entry =>
          obtain ⟨hentry, hkey⟩ := LRUReplacer.find_eq_some hfind
          have hstep : s.lru.lruStep (.evite key value) = .ok ((true, some entry.2),
              { s.lru with caches := s.lru.caches.eraseP fun entry => entry.1 = key }) := by
            rw [LRUReplacer.lruStep, LRUReplacer.evite, hfind]
          refine ⟨_, _, logStep_of_lruStep hstep,
            (hs.erased key).recorded (fun _ => rfl) fun _ => rfl,
            .inl ⟨hkey ▸ List.mem_map_of_mem hentry, ?_⟩, ?_⟩
          · rw [← hkey, hs.stored entry hentry]
          · exact LRUReplacer.eraseP_eq_filter hs.nodup key
      | none =>
          have hkey := LRUReplacer.find_eq_none.mp hfind
          have hstep : s.lru.lruStep (.evite key value) = .ok ((false, some value), s.lru) := by
            rw [LRUReplacer.lruStep, LRUReplacer.evite, hfind]
          exact ⟨_, _, logStep_of_lruStep hstep, hs.recorded (fun _ => rfl) fun _ => rfl,
            .inr ⟨hkey, rfl⟩, (without_of_absent hkey).symm⟩
  | remove key =>
      cases hfind : s.lru.caches.find? fun entry => entry.1 = key with
      | some entry =>
          obtain ⟨hentry, hkey⟩ := LRUReplacer.find_eq_some hfind
          have hstep : s.lru.lruStep (.remove key) = .ok ((true, none),
              { s.lru with caches := s.lru.caches.eraseP fun entry => entry.1 = key }) := by
            rw [LRUReplacer.lruStep, LRUReplacer.remove, hfind]
          exact ⟨_, _, logStep_of_lruStep hstep,
            (hs.erased key).recorded (fun _ => rfl) fun _ => rfl,
            .inl ⟨hkey ▸ List.mem_map_of_mem hentry, rfl⟩,
            LRUReplacer.eraseP_eq_filter hs.nodup key⟩
      | none =>
          have hkey := LRUReplacer.find_eq_none.mp hfind
          have hstep : s.lru.lruStep (.remove key) = .ok ((false, none), s.lru) := by
            rw [LRUReplacer.lruStep, LRUReplacer.remove, hfind]
          exact ⟨_, _, logStep_of_lruStep hstep, hs.recorded (fun _ => rfl) fun _ => rfl,
            .inr ⟨hkey, rfl⟩, (without_of_absent hkey).symm⟩

/-- After every sequence of calls, the list is in the order of the last accesses and holds the
values of the last insertions, and any further call does what the history says of it. -/
theorem replaces_least_recent {n : ℕ} (hn : 1 ≤ n) (ops : List (LruOp K V)) :
    ∃ answers s, run logStep (start K V n) ops = .ok (answers, s) ∧ s.Recent n ∧
      ∀ op, ∃ answer s', s.logStep op = .ok (answer, s') ∧ s.Replaces answer s' op := by
  obtain ⟨answers, s, hrun, hs⟩ := run_total (I := Recent n) (P := fun _ _ => True)
    (fun s op hs _ => by
      obtain ⟨answer, s', hstep, hs', -⟩ := hs.step hn op
      exact ⟨answer, s', hstep, hs'⟩)
    (start_recent (K := K) (V := V) n) (along_of_forall_mem fun op (_ : op ∈ ops) => trivial)
  refine ⟨answers, s, hrun, hs, fun op => ?_⟩
  obtain ⟨answer, s', hstep, -, hreplaces⟩ := hs.step hn op
  exact ⟨answer, s', hstep, hreplaces⟩

/-- A replacer of two entries, after a hit, an eviction and a removal. -/
theorem replaces_least_recent_two :
    ∃ answers s, run logStep (start ℕ ℕ 2)
        [.access 7 70, .access 8 80, .access 7 71, .access 9 90, .remove 7] = .ok (answers, s) ∧
      s.Recent 2 ∧ ∀ op, ∃ answer s', s.logStep op = .ok (answer, s') ∧ s.Replaces answer s' op :=
  replaces_least_recent (by decide) _

end LruLog

end LpNet
