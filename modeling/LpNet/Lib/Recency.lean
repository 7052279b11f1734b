import Mathlib.Data.List.Nodup

/-!
Bounded recency lists: distinct keys, the one used last first.

`touch` uses a key: it moves to the front, and where a key has to make room for it that is
the last one. `forget` takes a key out. Whatever stamps say when a key was used, a list
that is in the order of the stamps stays so when a touch stamps its key anew
(`Stamped.touch`), and the key that makes room has the oldest stamp
(`Stamped.oldest`). A smaller list is at all times the first part of a larger one
(`prefix_touch`, `prefix_forget`).
-/

namespace LpNet

universe u

/-- At most `capacity` distinct keys. -/
@[ext] structure Recency (κ : Type u) (capacity : ℕ) where
  keys : List κ
  nodup : keys.Nodup
  length_le : keys.length ≤ capacity

namespace Recency

variable {κ : Type u} [DecidableEq κ] {n m : ℕ}

def empty (κ : Type u) (n : ℕ) : Recency κ n := ⟨[], List.nodup_nil, Nat.zero_le n⟩

/-- What stays, behind the key, when it is touched. -/
def others (r : Recency κ n) (k : κ) : List κ :=
  if k ∈ r.keys then r.keys.erase k
  else if n ≤ r.keys.length then r.keys.dropLast else r.keys

theorem others_sublist (r : Recency κ n) (k : κ) : (r.others k).Sublist r.keys := by
  rw [others]
  split
  · exact List.erase_sublist
  · split
    · exact List.dropLast_sublist r.keys
    · exact List.Sublist.refl r.keys

theorem ne_of_mem_others {r : Recency κ n} {k x : κ} (hx : x ∈ r.others k) : x ≠ k := by
  intro heq
  subst heq
  have hmem : x ∈ r.keys := (r.others_sublist x).subset hx
  rw [others, if_pos hmem] at hx
  exact r.nodup.not_mem_erase hx

theorem others_length_lt (r : Recency κ n) (hn : 0 < n) (k : κ) : (r.others k).length < n := by
  have hle := r.length_le
  rw [others]
  split
  case isTrue hmem =>
    have hpos := List.length_pos_of_mem hmem
    rw [List.length_erase_of_mem hmem]
    omega
  case isFalse =>
    split
    · rw [List.length_dropLast]
      omega
    · omega

def touch (hn : 0 < n) (r : Recency κ n) (k : κ) : Recency κ n where
  keys := k :: r.others k
  nodup := List.nodup_cons.mpr
    ⟨fun hk => ne_of_mem_others hk rfl, (r.others_sublist k).nodup r.nodup⟩
  length_le := r.others_length_lt hn k

def forget (r : Recency κ n) (k : κ) : Recency κ n where
  keys := r.keys.erase k
  nodup := r.nodup.erase k
  length_le := Nat.le_trans List.erase_sublist.length_le r.length_le

@[simp] theorem touch_keys (hn : 0 < n) (r : Recency κ n) (k : κ) :
    (r.touch hn k).keys = k :: r.others k := rfl

@[simp] theorem forget_keys (r : Recency κ n) (k : κ) : (r.forget k).keys = r.keys.erase k := rfl

/-! ### The order of use -/

omit [DecidableEq κ] in
/-- The keys are in the order of their stamps, the latest first. -/
def Stamped (stamp : κ → ℕ) (r : Recency κ n) : Prop :=
  r.keys.Pairwise fun a b => stamp b < stamp a

variable {stamp stamp' : κ → ℕ} {r : Recency κ n} {k : κ}

theorem Stamped.touch (h : Stamped stamp r) (hn : 0 < n)
    (hself : ∀ x ∈ r.keys, stamp x < stamp' k) (hother : ∀ x, x ≠ k → stamp' x = stamp x) :
    Stamped stamp' (r.touch hn k) := by
  refine List.pairwise_cons.mpr ⟨fun x hx => ?_, ?_⟩
  · rw [hother x (ne_of_mem_others hx)]
    exact hself x ((r.others_sublist k).subset hx)
  · refine (List.Pairwise.sublist (r.others_sublist k) h).imp_of_mem fun ha hb hlt => ?_
    rw [hother _ (ne_of_mem_others ha), hother _ (ne_of_mem_others hb)]
    exact hlt

theorem Stamped.forget (h : Stamped stamp r) (k : κ) : Stamped stamp (r.forget k) :=
  List.Pairwise.sublist List.erase_sublist h

omit [DecidableEq κ] in
theorem Stamped.oldest (h : Stamped stamp r) {last : κ} (hlast : r.keys.getLast? = some last) :
    ∀ x ∈ r.keys, x ≠ last → stamp last < stamp x := by
  intro x hx hne
  obtain ⟨front, hfront⟩ := List.getLast?_eq_some_iff.mp hlast
  rw [Stamped, hfront, List.pairwise_append] at h
  rw [hfront, List.mem_append] at hx
  rcases hx with hx | hx
  · exact h.2.2 x hx last (List.mem_singleton_self last)
  · exact absurd (List.mem_singleton.mp hx) hne

/-! ### A smaller list and a larger one -/

theorem prefix_erase {a b : List κ} (h : a <+: b) (k : κ) : a.erase k <+: b.erase k := by
  obtain ⟨c, rfl⟩ := h
  rw [List.erase_append]
  split
  case isTrue => exact List.prefix_append _ _
  case isFalse hmem =>
    rw [List.erase_of_not_mem hmem]
    exact List.prefix_append _ _

theorem prefix_others {a : Recency κ n} {b : Recency κ m} (hnm : n ≤ m) (h : a.keys <+: b.keys)
    (k : κ) : a.others k <+: b.others k := by
  by_cases ha : k ∈ a.keys
  case pos =>
    rw [others, others, if_pos ha, if_pos (h.subset ha)]
    exact prefix_erase h k
  case neg =>
    have hself : a.others k <+: a.keys := by
      rw [others, if_neg ha]
      split
      · exact List.dropLast_prefix a.keys
      · exact List.prefix_refl a.keys
    by_cases hb : k ∈ b.keys
    case pos =>
      have herase := prefix_erase h k
      rw [List.erase_of_not_mem ha] at herase
      rw [others.eq_1 b, if_pos hb]
      exact hself.trans herase
    case neg =>
      -- both are first parts of the larger list, so the shorter one is one of the other
      have hother : b.others k <+: b.keys := by
        rw [others, if_neg hb]
        split
        · exact List.dropLast_prefix b.keys
        · exact List.prefix_refl b.keys
      refine List.prefix_of_prefix_length_le (hself.trans h) hother ?_
      have hle := h.length_le
      have hn := a.length_le
      have hdropA : a.keys.dropLast.length = a.keys.length - 1 := List.length_dropLast
      have hdropB : b.keys.dropLast.length = b.keys.length - 1 := List.length_dropLast
      rw [others, others, if_neg ha, if_neg hb]
      split <;> split <;> omega

theorem prefix_touch {a : Recency κ n} {b : Recency κ m} (hn : 0 < n) (hnm : n ≤ m)
    (h : a.keys <+: b.keys) (k : κ) :
    (a.touch hn k).keys <+: (b.touch (Nat.lt_of_lt_of_le hn hnm) k).keys :=
  (List.prefix_cons_inj k).mpr (prefix_others hnm h k)

theorem prefix_forget {a : Recency κ n} {b : Recency κ m} (h : a.keys <+: b.keys) (k : κ) :
    (a.forget k).keys <+: (b.forget k).keys := prefix_erase h k

end Recency

end LpNet
