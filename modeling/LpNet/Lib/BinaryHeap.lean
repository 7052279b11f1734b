import Mathlib.Data.List.GetD
import Mathlib.Data.List.Perm.Basic
import Mathlib.Logic.Equiv.Basic
import Mathlib.Order.Lattice
import Mathlib.Algebra.Order.Group.Nat
import Mathlib.Tactic.Common

/-!
Binary heaps kept in an array.

Cell `i` has the children `2 * i + 1` and `2 * i + 2`. The order laws are about
the function `k` that gives the key of each cell: `Ordered` is the heap order,
and `Hole` is what is left of it when the key of one cell is arbitrary. A sift
moves the hole along a path of the tree, by exchanging two cells
(`Hole.swap_up`, `Hole.swap_down`), and ends when the key in the hole fits its
neighbours (`Hole.ordered`) or the hole is the last cell and can be dropped
(`Hole.drop_last`).

The array itself is a list of which the first `n` cells are in use. `keys_swap`
reads the exchange of two cells as a permutation of the cells, and
`take_swap_perm` says that the content stays the same.
-/

namespace LpNet.BinaryHeap

variable {α β : Type*}

/-! ### Parents and children -/

def parent (i : ℕ) : ℕ := (i - 1) / 2

theorem parent_lt {i : ℕ} (h : 0 < i) : parent i < i := by
  rw [parent]
  omega

theorem parent_eq_iff {i p : ℕ} (h : 0 < i) : parent i = p ↔ i = 2 * p + 1 ∨ i = 2 * p + 2 := by
  rw [parent]
  omega

section Order

variable [LinearOrder β] {k k' : ℕ → β} {n cur : ℕ}

/-! ### The heap order -/

/-- No key among the first `n` is below its parent's. -/
def Ordered (k : ℕ → β) (n : ℕ) : Prop := ∀ i, 0 < i → i < n → k (parent i) ≤ k i

theorem ordered_zero (k : ℕ → β) : Ordered k 0 := fun _ _ h => absurd h (Nat.not_lt_zero _)

theorem Ordered.root_le (h : Ordered k n) {i : ℕ} (hi : i < n) : k 0 ≤ k i := by
  induction i using Nat.strong_induction_on with
  | _ i ih =>
      rcases Nat.eq_zero_or_pos i with rfl | hpos
      · exact le_refl _
      · have hlt := parent_lt hpos
        exact le_trans (ih (parent i) hlt (by omega)) (h i hpos hi)

/-- The heap order off one cell: the pairs that do not touch it are in order, and its children
are in order with its parent. -/
structure Hole (k : ℕ → β) (n cur : ℕ) : Prop where
  off : ∀ i, 0 < i → i < n → i ≠ cur → parent i ≠ cur → k (parent i) ≤ k i
  across : 0 < cur → ∀ i, 0 < i → i < n → parent i = cur → k (parent cur) ≤ k i

def AboveChildren (k : ℕ → β) (n cur : ℕ) : Prop :=
  ∀ i, 0 < i → i < n → parent i = cur → k cur ≤ k i

instance (k : ℕ → β) (n cur : ℕ) : Decidable (AboveChildren k n cur) :=
  decidable_of_iff (∀ i < n, 0 < i → parent i = cur → k cur ≤ k i)
    ⟨fun h i hpos hi => h i hi hpos, fun h i hi hpos => h i hpos hi⟩

/-- The key of the cell is not below its parent's. -/
def BelowParent (k : ℕ → β) (cur : ℕ) : Prop := 0 < cur → k (parent cur) ≤ k cur

theorem Ordered.hole (h : Ordered k n) (hcur : cur < n) : Hole k n cur where
  off i hpos hi _ _ := h i hpos hi
  across hpos i hi hin hparent :=
    le_trans (h cur hpos hcur) (by rw [← hparent]; exact h i hi hin)

theorem Hole.congr (h : Hole k n cur) (hk : ∀ i, i ≠ cur → k' i = k i) : Hole k' n cur where
  off i hpos hi hne hparent := by
    rw [hk i hne, hk _ hparent]
    exact h.off i hpos hi hne hparent
  across hpos i hi hin hparent := by
    have hne : i ≠ cur := by
      rintro rfl
      exact absurd hparent (parent_lt hi).ne
    rw [hk i hne, hk _ (parent_lt hpos).ne]
    exact h.across hpos i hi hin hparent

theorem Hole.ordered (h : Hole k n cur) (habove : AboveChildren k n cur)
    (hbelow : BelowParent k cur) : Ordered k n := by
  intro i hpos hi
  by_cases hcur : i = cur
  · subst hcur
    exact hbelow hpos
  · by_cases hparent : parent i = cur
    · rw [hparent]
      exact habove i hpos hi hparent
    · exact h.off i hpos hi hcur hparent

theorem Hole.drop_last (h : Hole k (n + 1) n) : Ordered k n := by
  intro i hpos hi
  have hlt := parent_lt hpos
  exact h.off i hpos (by omega) (by omega) (by omega)

/-- An added cell is a hole, with nothing below it. -/
theorem Ordered.hole_succ (h : Ordered k n) : Hole k (n + 1) n ∧ AboveChildren k (n + 1) n := by
  refine ⟨⟨fun i hpos hi hne _ => h i hpos (by omega), fun _ i hpos hi hparent => ?_⟩,
    fun i hpos hi hparent => ?_⟩
  all_goals
    have hlt := parent_lt hpos
    omega

/-! ### Moving the hole up -/

/-- A key below its parent's takes the parent's place. -/
theorem Hole.swap_up (h : Hole k n cur) (habove : AboveChildren k n cur) (hpos : 0 < cur)
    (hcur : cur < n) (hlt : k cur < k (parent cur)) :
    Hole (k ∘ Equiv.swap cur (parent cur)) n (parent cur) ∧
      AboveChildren (k ∘ Equiv.swap cur (parent cur)) n (parent cur) := by
  have hp := parent_lt hpos
  refine ⟨⟨fun i hi hin hne hparent => ?_, fun hppos i hi hin hparent => ?_⟩,
    fun i hi hin hparent => ?_⟩
  · -- the pairs off the new hole: those at the old one now have the parent's key above
    have hicur : i ≠ cur := by
      rintro rfl
      exact hparent rfl
    simp only [Function.comp_apply, Equiv.swap_apply_of_ne_of_ne hicur hne]
    by_cases hchild : parent i = cur
    · rw [hchild, Equiv.swap_apply_left]
      exact h.across hpos i hi hin hchild
    · rw [Equiv.swap_apply_of_ne_of_ne hchild hparent]
      exact h.off i hi hin hicur hchild
  · have hpp := parent_lt hppos
    have hgrand : k (parent (parent cur)) ≤ k (parent cur) :=
      h.off (parent cur) hppos (by omega) (by omega) (by omega)
    simp only [Function.comp_apply]
    rw [Equiv.swap_apply_of_ne_of_ne (by omega) (by omega)]
    by_cases hicur : i = cur
    · rw [hicur, Equiv.swap_apply_left]
      exact hgrand
    · have hile := parent_lt hi
      rw [Equiv.swap_apply_of_ne_of_ne hicur (by omega)]
      refine le_trans hgrand ?_
      rw [← hparent]
      exact h.off i hi hin hicur (by omega)
  · simp only [Function.comp_apply, Equiv.swap_apply_right]
    by_cases hicur : i = cur
    · rw [hicur, Equiv.swap_apply_left]
      exact hlt.le
    · have hile := parent_lt hi
      rw [Equiv.swap_apply_of_ne_of_ne hicur (by omega)]
      refine le_trans hlt.le ?_
      rw [← hparent]
      exact h.off i hi hin hicur (by omega)

/-! ### Moving the hole down -/

/-- The child with the lesser key, the left one when there is no other. -/
def lesserChild (k : ℕ → β) (n i : ℕ) : ℕ :=
  if 2 * i + 2 < n ∧ k (2 * i + 2) < k (2 * i + 1) then 2 * i + 2 else 2 * i + 1

theorem lesserChild_eq_or (k : ℕ → β) (n i : ℕ) :
    lesserChild k n i = 2 * i + 1 ∨ lesserChild k n i = 2 * i + 2 := by
  rw [lesserChild]
  split
  · exact .inr rfl
  · exact .inl rfl

theorem lt_lesserChild (k : ℕ → β) (n i : ℕ) : i < lesserChild k n i := by
  have := lesserChild_eq_or k n i
  omega

theorem parent_lesserChild (k : ℕ → β) (n i : ℕ) : parent (lesserChild k n i) = i :=
  (parent_eq_iff (by have := lt_lesserChild k n i; omega)).mpr (lesserChild_eq_or k n i)

theorem lesserChild_lt {i : ℕ} (h : 2 * i + 1 < n) : lesserChild k n i < n := by
  rw [lesserChild]
  split
  case isTrue hright => exact hright.1
  case isFalse => exact h

theorem lesserChild_le {i j : ℕ} (hj : 0 < j) (hjn : j < n) (hparent : parent j = i) :
    k (lesserChild k n i) ≤ k j := by
  rw [lesserChild]
  rcases (parent_eq_iff hj).mp hparent with rfl | rfl
  · split
    case isTrue hright => exact hright.2.le
    case isFalse => exact le_refl _
  · split
    case isTrue => exact le_refl _
    case isFalse hleft => exact not_lt.mp fun hlt => hleft ⟨hjn, hlt⟩

theorem lesserChild_congr {i : ℕ} (h : ∀ j, i < j → k' j = k j) :
    lesserChild k' n i = lesserChild k n i := by
  rw [lesserChild, lesserChild, h _ (by omega), h _ (by omega)]

theorem Hole.swap_down (h : Hole k n cur) (hchild : 2 * cur + 1 < n) :
    Hole (k ∘ Equiv.swap (lesserChild k n cur) cur) n (lesserChild k n cur) := by
  have hcn := lesserChild_lt (k := k) hchild
  have hle := fun j => lesserChild_le (k := k) (n := n) (i := cur) (j := j)
  have hparent := parent_lesserChild k n cur
  have hgt := lt_lesserChild k n cur
  generalize lesserChild k n cur = c at *
  refine ⟨fun i hi hin hne hpne => ?_, fun hpos i hi hin hic => ?_⟩
  · by_cases hicur : i = cur
    · subst hicur
      have hlt := parent_lt hi
      simp only [Function.comp_apply, Equiv.swap_apply_right]
      rw [Equiv.swap_apply_of_ne_of_ne hpne (by omega)]
      exact h.across hi c (by omega) hcn hparent
    · simp only [Function.comp_apply, Equiv.swap_apply_of_ne_of_ne hne hicur]
      by_cases hpcur : parent i = cur
      · rw [hpcur, Equiv.swap_apply_right]
        exact hle i hi hin hpcur
      · rw [Equiv.swap_apply_of_ne_of_ne hpne hpcur]
        exact h.off i hi hin hicur hpcur
  · have hlt := parent_lt hi
    simp only [Function.comp_apply, hparent, Equiv.swap_apply_right]
    rw [Equiv.swap_apply_of_ne_of_ne (by omega) (by omega)]
    rw [← hic]
    exact h.off i hi hin (by omega) (by omega)

/-- Following the lesser child from a cell leads to the cell without children `j`. -/
inductive LeadsTo (k : ℕ → β) (n : ℕ) : ℕ → ℕ → Prop
  | leaf {i : ℕ} (h : n ≤ 2 * i + 1) : LeadsTo k n i i
  | down {i j : ℕ} (h : 2 * i + 1 < n) (hrest : LeadsTo k n (lesserChild k n i) j) :
      LeadsTo k n i j

instance decidableLeadsTo (k : ℕ → β) (n j i : ℕ) : Decidable (LeadsTo k n i j) :=
  if h : 2 * i + 1 < n then
    have := decidableLeadsTo k n j (lesserChild k n i)
    decidable_of_iff (LeadsTo k n (lesserChild k n i) j)
      ⟨.down h, fun hi => by
        cases hi with
        | leaf hleaf => omega
        | down _ hrest => exact hrest⟩
  else
    decidable_of_iff (i = j)
      ⟨fun hij => hij ▸ .leaf (by omega), fun hi => by
        cases hi with
        | leaf _ => rfl
        | down hchild _ => exact absurd hchild h⟩
termination_by n - i
decreasing_by
  have := lt_lesserChild k n i
  omega

/-- Every cell leads to a cell without children. -/
theorem exists_leadsTo (k : ℕ → β) (n i : ℕ) : ∃ j, LeadsTo k n i j := by
  induction hd : n - i using Nat.strong_induction_on generalizing i with
  | _ d ih =>
      by_cases hchild : 2 * i + 1 < n
      case pos =>
        have hlt := lt_lesserChild k n i
        obtain ⟨j, hj⟩ := ih (n - lesserChild k n i) (by omega) (lesserChild k n i) rfl
        exact ⟨j, .down hchild hj⟩
      case neg => exact ⟨i, .leaf (by omega)⟩

theorem LeadsTo.unique {i j j' : ℕ} (h : LeadsTo k n i j) (h' : LeadsTo k n i j') : j = j' := by
  induction h with
  | leaf hleaf =>
      cases h' with
      | leaf _ => rfl
      | down hchild _ => omega
  | down hchild _ ih =>
      cases h' with
      | leaf hleaf => omega
      | down _ hrest => exact ih hrest

theorem LeadsTo.congr {i j : ℕ} (h : LeadsTo k n i j) (hk : ∀ l, i < l → k' l = k l) :
    LeadsTo k' n i j := by
  induction h with
  | leaf hleaf => exact .leaf hleaf
  | @down i j hchild _ ih =>
      refine .down hchild ?_
      have hlt := lt_lesserChild k n i
      rw [lesserChild_congr hk]
      exact ih fun l hl => hk l (by omega)

end Order

/-! ### Cells of a list -/

section Cells

variable [Inhabited α]

def keys (key : α → β) (mem : List α) (i : ℕ) : β := key (mem.getD i default)

def swap (mem : List α) (x y : ℕ) : List α :=
  (mem.set x (mem.getD y default)).set y (mem.getD x default)

variable {mem : List α} {x y n : ℕ}

theorem keys_set_self (key : α → β) (hx : x < mem.length) (a : α) :
    keys key (mem.set x a) x = key a := by
  simp [keys, List.getD_eq_getElem?_getD, hx]

theorem keys_set_of_ne (key : α → β) {i : ℕ} (h : i ≠ x) (a : α) :
    keys key (mem.set x a) i = keys key mem i := by
  simp [keys, List.getD_eq_getElem?_getD, List.getElem?_set_ne (Ne.symm h)]

theorem getD_take {i : ℕ} (h : i < n) :
    (mem.take n).getD i default = mem.getD i default := by
  simp only [List.getD_eq_getElem?_getD, List.getElem?_take_of_lt h]

theorem take_perm_cons (hn : n ≤ mem.length) (hx : x < n) :
    (mem.take n).Perm (mem.getD x default :: (mem.take n).eraseIdx x) := by
  have hx' : x < (mem.take n).length := by
    rw [List.length_take]
    omega
  rw [← getD_take hx, List.getD_eq_getElem _ _ hx']
  exact (List.getElem_cons_eraseIdx_perm hx').symm

omit [Inhabited α] in
/-- Overwriting a cell exchanges one element of the content. -/
theorem take_set_perm_cons (hn : n ≤ mem.length) (hx : x < n) (a : α) :
    ((mem.set x a).take n).Perm (a :: (mem.take n).eraseIdx x) := by
  have hx' : x < (mem.take n).length := by
    rw [List.length_take]
    omega
  rw [List.take_set]
  exact List.set_perm_cons_eraseIdx hx' a

/-- The last cell is one element of the content. -/
theorem take_succ_perm (hn : n < mem.length) :
    (mem.take (n + 1)).Perm (mem.getD n default :: mem.take n) := by
  rw [List.take_succ_eq_append_getElem hn, List.getD_eq_getElem _ _ hn]
  exact List.perm_append_singleton ..

@[simp] theorem swap_length (mem : List α) (x y : ℕ) : (swap mem x y).length = mem.length := by
  simp [swap]

theorem getD_swap (hx : x < mem.length) (hy : y < mem.length) (i : ℕ) :
    (swap mem x y).getD i default = mem.getD (Equiv.swap x y i) default := by
  simp only [swap, List.getD_eq_getElem?_getD, List.getElem?_set, List.length_set,
    Equiv.swap_apply_def]
  by_cases hiy : y = i
  · subst hiy
    by_cases hxy : y = x
    · subst hxy
      simp [hy]
    · simp [hy, hxy]
  · by_cases hix : x = i
    · subst hix
      simp [hiy, hx]
    · simp [hiy, hix, Ne.symm hix, Ne.symm hiy]

theorem keys_swap (key : α → β) (hx : x < mem.length) (hy : y < mem.length) :
    keys key (swap mem x y) = keys key mem ∘ Equiv.swap x y := by
  funext i
  rw [keys, getD_swap hx hy]
  rfl

theorem keys_swap_left (key : α → β) (hx : x < mem.length) (hy : y < mem.length) :
    keys key (swap mem x y) x = keys key mem y := by
  rw [keys_swap key hx hy, Function.comp_apply, Equiv.swap_apply_left]

theorem keys_swap_right (key : α → β) (hx : x < mem.length) (hy : y < mem.length) :
    keys key (swap mem x y) y = keys key mem x := by
  rw [keys_swap key hx hy, Function.comp_apply, Equiv.swap_apply_right]

theorem keys_swap_of_ne (key : α → β) (hx : x < mem.length) (hy : y < mem.length) {i : ℕ}
    (hix : i ≠ x) (hiy : i ≠ y) : keys key (swap mem x y) i = keys key mem i := by
  rw [keys_swap key hx hy, Function.comp_apply, Equiv.swap_apply_of_ne_of_ne hix hiy]

/-- Exchanging two of the first `n` cells keeps their content. -/
theorem take_swap_perm (hn : n ≤ mem.length) (hx : x < n) (hy : y < n) :
    ((swap mem x y).take n).Perm (mem.take n) := by
  have hx' : x < (mem.take n).length := by
    rw [List.length_take]
    omega
  have hy' : y < (mem.take n).length := by
    rw [List.length_take]
    omega
  rw [swap, List.take_set, List.take_set, ← getD_take hx, ← getD_take hy,
    List.getD_eq_getElem _ _ hx', List.getD_eq_getElem _ _ hy']
  exact List.set_set_perm hx' hy'

end Cells

end LpNet.BinaryHeap
