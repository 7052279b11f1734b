import LpNet.Timer.Removal

/-!
When `TimerTaskHeap::modify` restores the heap.

A task that becomes early is moved up to its place. `moveDown` keeps its `cur` for the
whole loop: after one exchange it walks to the right from the child, and as long as the next
cell is earlier it exchanges that one with `cur` too (`moveDownFrom_keys`). `Sinks` says
when the deadlines are in order afterwards, and `restores_iff` that the tasks are the
same in any case.
-/

namespace LpNet

open BinaryHeap Transition

namespace TimerTaskHeap

variable {Cb : Type}

/-! ### What `moveDown` makes of the deadlines -/

/-- The `m` cells to the right of `c` are in use and each is earlier than the one before. -/
def Descends (k : ℕ → ℕ) (n c m : ℕ) : Prop :=
  ∀ j < m, c + j + 1 < n ∧ k (c + j + 1) < k (c + j)

/-- The deadline `x` is in the cell `c`, those from `c` on have moved one cell to the right, and
the last of them is in the cell `cur`. -/
def shifted (k : ℕ → ℕ) (cur c x m : ℕ) (i : ℕ) : ℕ :=
  if i = cur then k (c + m) else if i = c then x
  else if c < i ∧ i ≤ c + m then k (i - 1) else k i

variable {k : ℕ → ℕ} {n cur c x m : ℕ}

theorem Descends.succ (h : Descends k n c m) (hlt : c + m + 1 < n)
    (hdown : k (c + m + 1) < k (c + m)) : Descends k n c (m + 1) := by
  intro j hj
  rcases Nat.lt_succ_iff_lt_or_eq.mp hj with hj | rfl
  · exact h j hj
  · exact ⟨hlt, hdown⟩

theorem Descends.lt (h : Descends k n c m) {i j : ℕ} (hij : i < j) (hj : j ≤ m) :
    k (c + j) < k (c + i) := by
  induction j with
  | zero => omega
  | succ j ih =>
      have hstep := (h j (by omega)).2
      rcases Nat.lt_succ_iff_lt_or_eq.mp hij with hlt | rfl
      · exact lt_trans hstep (ih hlt (by omega))
      · exact hstep

theorem shifted_zero (hne : cur ≠ c) :
    shifted k cur c x 0 = Function.update k cur x ∘ Equiv.swap c cur := by
  funext i
  simp only [shifted, Function.comp_apply, Equiv.swap_apply_def, Function.update_apply]
  split_ifs <;> first | rfl | omega

theorem shifted_succ (hlt : cur < c) :
    shifted k cur c x m ∘ Equiv.swap (c + m + 1) cur = shifted k cur c x (m + 1) := by
  funext i
  simp only [shifted, Function.comp_apply, Equiv.swap_apply_def]
  split_ifs <;> first | rfl | omega | (congr 1; omega)

/-! The values of `shifted`. -/

theorem shifted_cur : shifted k cur c x m cur = k (c + m) := if_pos rfl

theorem shifted_child (hne : c ≠ cur) : shifted k cur c x m c = x := by
  rw [shifted, if_neg hne, if_pos rfl]

theorem shifted_run (hlt : cur < c) {i : ℕ} (hi : c < i) (him : i ≤ c + m) :
    shifted k cur c x m i = k (i - 1) := by
  rw [shifted, if_neg (by omega), if_neg (by omega), if_pos ⟨hi, him⟩]

theorem shifted_off {i : ℕ} (hcur : i ≠ cur) (hrun : ¬ (c ≤ i ∧ i ≤ c + m)) :
    shifted k cur c x m i = k i := by
  rw [shifted, if_neg hcur, if_neg (by omega), if_neg (by omega)]

/-- After the first exchange the loop moves the deadlines to the right of the child as far as they
descend, and stops. -/
theorem moveDownFrom_keys (rounds : ℕ) {data : List (TimerTask Cb)} (hn : n ≤ data.length)
    (hlt : cur < c) (hc : c + m < n) (hrounds : n ≤ c + m + rounds) (hx : k c < x)
    (hkeys : timeAt data = shifted k cur c x m) (hdesc : Descends k n c m) :
    ∃ data' m', moveDownFrom n cur rounds data (c + m) = .ok data' ∧
      timeAt data' = shifted k cur c x m' ∧ c + m' < n ∧ Descends k n c m' ∧
      ¬ (c + m' + 1 < n ∧ k (c + m' + 1) < k (c + m')) := by
  induction rounds generalizing data m with
  | zero => omega
  | succ rounds ih =>
      have hat_cur : timeAt data cur = k (c + m) := by rw [hkeys, shifted_cur]
      have hat_next : timeAt data (c + m + 1) = k (c + m + 1) := by
        rw [hkeys, shifted_off (by omega) (by omega)]
      -- the task beside which the loop stands is later than the one in `cur`
      have hat_child : k (c + m) < timeAt data (c + m) := by
        rw [hkeys]
        cases m with
        | zero =>
            rw [Nat.add_zero, shifted_child (by omega)]
            exact hx
        | succ m =>
            rw [shifted_run hlt (by omega) (le_refl _)]
            exact (hdesc m (by omega)).2
      by_cases hnext : c + m + 1 < n ∧ k (c + m + 1) < k (c + m)
      case pos =>
        have hright : c + m + 1 < n ∧ timeAt data (c + m) > k (c + m + 1) :=
          ⟨hnext.1, lt_trans hnext.2 hat_child⟩
        have hswap : timeAt (swap data (c + m + 1) cur) = shifted k cur c x (m + 1) := by
          rw [timeAt, keys_swap _ (by omega) (by omega), ← timeAt, hkeys, shifted_succ hlt]
        rw [moveDownFrom]
        dsimp only
        rw [if_pos hc, hat_cur, hat_next, if_pos hright, hat_next, if_pos hnext.2]
        exact ih (by rw [swap_length]; exact hn) hnext.1 (by omega) hswap
          (hdesc.succ hnext.1 hnext.2)
      case neg =>
        refine ⟨data, m, moveDownFrom_stays rounds ?_ fun hlt' _ => ?_, hkeys, hc, hdesc, hnext⟩
        · rw [hat_cur]
          exact hat_child.le
        · rw [hat_cur, hat_next]
          exact not_lt.mp fun hdown => hnext ⟨hlt', hdown⟩

/-! ### When the order is restored -/

/-- A child of a cell of the run lies to the right of the run. -/
theorem Descends.child_right (hdesc : Descends k n c m) (hord : Ordered k n) {i : ℕ}
    (hpos : 0 < i) (hi : i < n) (hge : c ≤ parent i) : c + m < i := by
  by_contra hin
  have hp := parent_lt hpos
  have hlt := hdesc.lt (by omega : parent i - c < i - c) (by omega)
  rw [show c + (i - c) = i by omega, show c + (parent i - c) = parent i by omega] at hlt
  exact absurd (hord i hpos hi) (not_le.mpr hlt)

/-- The parent of a cell of the run is neither `cur` nor in the run. -/
theorem Descends.parent_off (h : Descends k n c m) (hord : Ordered k n)
    (hleast : ∀ i, 0 < i → i < n → parent i = cur → k c ≤ k i) {i : ℕ} (hci : c < i)
    (him : i ≤ c + m) (hi : i < n) : parent i ≠ cur ∧ ¬ (c ≤ parent i ∧ parent i ≤ c + m) := by
  have hpos : 0 < i := by omega
  have hfirst := h.lt (by omega : 0 < i - c) (by omega)
  rw [Nat.add_zero, show c + (i - c) = i by omega] at hfirst
  refine ⟨fun hpi => absurd (hleast i hpos hi hpi) (not_le.mpr hfirst), fun hin => ?_⟩
  have hright := h.child_right hord hpos hi hin.1
  omega

/-- The deadlines are in order after the walk exactly when `x` is not above the children of `c`,
no deadline that moved is above those of its new children, and the one that went to `cur` is not
below its parent's. -/
theorem shifted_ordered_iff (hord : Ordered k n) (hchild : 2 * cur + 1 < n)
    (hc : c = lesserChild k n cur) (hcm : c + m < n) (hx : k c < x) (hdesc : Descends k n c m) :
    Ordered (shifted k cur c x m) n ↔
      (∀ i, 0 < i → i < n → parent i = c → x ≤ k i) ∧
        (0 < cur → k (parent cur) ≤ k (c + m)) ∧
        ∀ j < m, ∀ i, 0 < i → i < n → parent i = c + j + 1 → k (c + j) ≤ k i := by
  have hlt : cur < c := hc ▸ lt_lesserChild k n cur
  have hparent : parent c = cur := hc ▸ parent_lesserChild k n cur
  have hleast : ∀ i, 0 < i → i < n → parent i = cur → k c ≤ k i := fun i hpos hi hpi =>
    hc ▸ lesserChild_le hpos hi hpi
  have hlast : k (c + m) ≤ k c := by
    rcases Nat.eq_zero_or_pos m with rfl | hm
    · exact le_refl _
    · exact (hdesc.lt hm (le_refl m)).le
  constructor
  · intro h
    refine ⟨fun i hpos hi hpi => ?_, fun hcur => ?_, fun j hj i hpos hi hpi => ?_⟩
    · have hright := hdesc.child_right hord hpos hi (by omega)
      have hle := h i hpos hi
      rwa [hpi, shifted_child (by omega), shifted_off (by omega) (by omega)] at hle
    · have hp := parent_lt hcur
      have hle := h cur hcur (by omega)
      rwa [shifted_cur, shifted_off (by omega) (by omega)] at hle
    · have hright := hdesc.child_right hord hpos hi (by omega)
      have hle := h i hpos hi
      rwa [hpi, shifted_run hlt (by omega) (by omega), shifted_off (by omega) (by omega)] at hle
  · rintro ⟨habove, hbelow, hmoved⟩ i hpos hi
    have hp := parent_lt hpos
    by_cases hicur : i = cur
    · subst hicur
      rw [shifted_cur, shifted_off (by omega) (by omega)]
      exact hbelow hpos
    by_cases hrun : c ≤ i ∧ i ≤ c + m
    case pos =>
      rcases Nat.eq_or_lt_of_le hrun.1 with rfl | hci
      · rw [hparent, shifted_cur, shifted_child (by omega)]
        exact le_trans hlast hx.le
      · have hstep := hdesc (i - 1 - c) (by omega)
        rw [show c + (i - 1 - c) + 1 = i by omega, show c + (i - 1 - c) = i - 1 by omega] at hstep
        obtain ⟨hpcur, hprun⟩ := hdesc.parent_off hord hleast hci hrun.2 hi
        rw [shifted_run hlt hci hrun.2, shifted_off hpcur hprun]
        exact le_trans (hord i hpos hi) hstep.2.le
    case neg =>
      rw [shifted_off hicur hrun]
      by_cases hpcur : parent i = cur
      · rw [hpcur, shifted_cur]
        exact le_trans hlast (hleast i hpos hi hpcur)
      by_cases hprun : c ≤ parent i ∧ parent i ≤ c + m
      case pos =>
        rcases Nat.eq_or_lt_of_le hprun.1 with heq | hcp
        · rw [← heq, shifted_child (by omega)]
          exact habove i hpos hi heq.symm
        · rw [shifted_run hlt hcp hprun.2]
          have hle := hmoved (parent i - 1 - c) (by omega) i hpos hi (by omega)
          rwa [show c + (parent i - 1 - c) = parent i - 1 by omega] at hle
      case neg =>
        rw [shifted_off hpcur hprun]
        exact hord i hpos hi

/-- A deadline `x` in cell `cur` is in place after `moveDown`: there is no earlier child; or none of
the children of the lesser child `c` is earlier, and the deadlines that descend to the right of
`c`, which move one cell to the right, fit above their new children and below the parent of
`cur`. -/
def Sinks (k : ℕ → ℕ) (n cur x : ℕ) : Prop :=
  n ≤ 2 * cur + 1 ∨ x ≤ k (lesserChild k n cur) ∨
    (∀ i, 0 < i → i < n → parent i = lesserChild k n cur → x ≤ k i) ∧
      ∀ m, Descends k n (lesserChild k n cur) m →
        (0 < cur → k (parent cur) ≤ k (lesserChild k n cur + m)) ∧
          ∀ j < m, ∀ i, 0 < i → i < n → parent i = lesserChild k n cur + j + 1 →
            k (lesserChild k n cur + j) ≤ k i

/-- It is enough to look at the longest descent. -/
theorem sinks_iff (hchild : 2 * cur + 1 < n) (hc : c = lesserChild k n cur) (hx : k c < x)
    (hdesc : Descends k n c m) (hstop : ¬ (c + m + 1 < n ∧ k (c + m + 1) < k (c + m))) :
    Sinks k n cur x ↔
      (∀ i, 0 < i → i < n → parent i = c → x ≤ k i) ∧
        (0 < cur → k (parent cur) ≤ k (c + m)) ∧
        ∀ j < m, ∀ i, 0 < i → i < n → parent i = c + j + 1 → k (c + j) ≤ k i := by
  rw [Sinks, ← hc]
  constructor
  · rintro (hleaf | hle | ⟨habove, hmoved⟩)
    · omega
    · omega
    · exact ⟨habove, hmoved m hdesc⟩
  · rintro ⟨habove, hbelow, hmoved⟩
    refine .inr (.inr ⟨habove, fun m' hdesc' => ?_⟩)
    have hm' : m' ≤ m := not_lt.mp fun hlt => hstop (hdesc' m hlt)
    refine ⟨fun hpos => le_trans (hbelow hpos) ?_, fun j hj => hmoved j (by omega)⟩
    rcases Nat.eq_or_lt_of_le hm' with rfl | hlt
    · exact le_refl _
    · exact (hdesc.lt hlt (le_refl m)).le

/-! ### `modify` -/

variable {h : TimerTaskHeap Cb} {id idx : ℕ} {task : TimerTask Cb}

theorem timeAt_set (hlen : idx < h.data.length) (task : TimerTask Cb) :
    timeAt (h.data.set idx task) = Function.update (timeAt h.data) idx task.expiredTime := by
  funext i
  by_cases hi : i = idx
  · rw [hi, timeAt_set_self hlen, Function.update_self]
  · rw [timeAt_set_of_ne hi, Function.update_of_ne hi]

theorem Valid.holds (hv : h.Valid) : Holds h.data.length h h.stored :=
  ⟨hv.order, hv.fits, rfl, .refl _⟩

/-- A task stored in a cell where it is not earlier than its parent: `moveDown` restores the order
exactly when its deadline sinks. -/
theorem Valid.moveDown_iff (hv : h.Valid) (hidx : idx < h.size)
    (hbelow : 0 < idx → timeAt h.data (parent idx) ≤ task.expiredTime) :
    ∃ h', ({ h with data := h.data.set idx task } : TimerTaskHeap Cb).moveDown idx = .ok h' ∧
      (Ordered (timeAt h'.data) h'.size ↔
        Sinks (timeAt h.data) h.size idx task.expiredTime) := by
  have hfits : h.size ≤ h.data.length := hv.fits
  by_cases hquiet : h.size ≤ 2 * idx + 1 ∨
      task.expiredTime ≤ timeAt h.data (lesserChild (timeAt h.data) h.size idx)
  case pos =>
    -- nothing moves
    have hsettles : Settles (timeAt h.data) h.size idx task.expiredTime := hquiet.imp_right .inl
    obtain ⟨h', hmove, hholds⟩ := hv.holds.moveDown_set hidx (.refl _) hbelow hsettles
    exact ⟨h', hmove, iff_of_true hholds.order (hquiet.imp_right .inl)⟩
  case neg =>
    obtain ⟨hchild, hx⟩ := not_or.mp hquiet
    rw [not_le] at hchild hx
    set k := timeAt h.data with hk
    obtain ⟨c, hc⟩ : ∃ c, c = lesserChild k h.size idx := ⟨_, rfl⟩
    rw [← hc] at hx
    have hlt : idx < c := hc ▸ lt_lesserChild k h.size idx
    have hcn : c < h.size := hc ▸ lesserChild_lt hchild
    have htimes : timeAt (h.data.set idx task) = Function.update k idx task.expiredTime :=
      timeAt_set (by omega) task
    have hlesser : lesserChild (timeAt (h.data.set idx task)) h.size idx = c := by
      rw [hc, htimes]
      exact lesserChild_congr fun j hj => Function.update_of_ne (by omega) _ _
    have hswap : timeAt (swap (h.data.set idx task) c idx) =
        shifted k idx c task.expiredTime 0 := by
      rw [timeAt, keys_swap _ (by rw [List.length_set]; omega) (by rw [List.length_set]; omega),
        ← timeAt, htimes, shifted_zero (by omega)]
    obtain ⟨data', m, hloop, hkeys, hcm, hdesc, hstop⟩ := moveDownFrom_keys (n := h.size)
      (m := 0) h.size (by rw [swap_length, List.length_set]; exact hfits) hlt hcn (by omega) hx
      hswap (fun j hj => absurd hj (Nat.not_lt_zero j))
    rw [Nat.add_zero] at hloop
    refine ⟨{ h with data := data' }, ?_, ?_⟩
    · rw [moveDown]
      dsimp only
      rw [moveDownFrom]
      dsimp only
      rw [if_pos (by omega), child_eq, hlesser, htimes, Function.update_self,
        Function.update_of_ne (by omega), if_pos hx, hloop, ok_bind]
    · rw [sinks_iff hchild hc hx hdesc hstop, hkeys]
      exact shifted_ordered_iff hv.order hchild hc hcm hx hdesc

/-- A new deadline `x` in cell `idx` is moved to its place: it is not later than the parent's, or it
sinks. -/
def Rearms (h : TimerTaskHeap Cb) (idx x : ℕ) : Prop :=
  0 < idx ∧ x ≤ timeAt h.data (parent idx) ∨ Sinks (timeAt h.data) h.size idx x

theorem Valid.modify_iff (hv : h.Valid) (hid : h.indexOf id = some idx) (duration : ℕ)
    (cycled : Bool) (now : ℕ) :
    ∃ h', h.modify id duration cycled now = .ok (true, h') ∧
      (Ordered (timeAt h'.data) h'.size ↔ h.Rearms idx (SizeT.add now duration)) := by
  obtain ⟨hidx, -⟩ := indexOf_some hid
  have hfits : h.size ≤ h.data.length := hv.fits
  rw [modify, hid, Rearms]
  dsimp only
  set task := ((h.data.getD idx default).setExpiredTime now duration).setCycle cycled with htask
  have htime : SizeT.add now duration = task.expiredTime := rfl
  rw [htime]
  split
  case isTrue hzero =>
    have hbelow : 0 < idx → timeAt h.data (parent idx) ≤ task.expiredTime := fun hpos => by omega
    obtain ⟨h', hmove, hiff⟩ := hv.moveDown_iff hidx hbelow
    refine ⟨h', by rw [hmove, ok_bind], hiff.trans ?_⟩
    rw [or_iff_right fun hup => by omega]
  case isFalse hne =>
    have hpos : 0 < idx := Nat.pos_of_ne_zero hne
    rw [timeAt_set_self (by omega), timeAt_set_parent hpos]
    split
    case isTrue hlate =>
      have hbelow : 0 < idx → timeAt h.data (parent idx) ≤ task.expiredTime := fun _ => hlate.le
      obtain ⟨h', hmove, hiff⟩ := hv.moveDown_iff hidx hbelow
      refine ⟨h', by rw [hmove, ok_bind], hiff.trans ?_⟩
      rw [or_iff_right fun hup => absurd hlate (not_lt.mpr hup.2)]
    case isFalse hearly =>
      obtain ⟨h', hmove, hholds⟩ :=
        hv.holds.moveUp_set hidx (.refl _) hpos (not_lt.mp hearly)
      exact ⟨h', by rw [hmove, ok_bind], iff_of_true hholds.order (.inl ⟨hpos, not_lt.mp hearly⟩)⟩

/-- The heap after `modify` has the tasks of before, with the one of this id changed, is in order
and has its earliest task on top. -/
structure Restored (h h' : TimerTaskHeap Cb) (id duration : ℕ) (cycled : Bool) (now : ℕ) :
    Prop where
  tasks : ∃ task rest, task.id = id ∧ h.stored.Perm (task :: rest) ∧
    h'.stored.Perm ((task.setExpiredTime now duration).setCycle cycled :: rest)
  order : Ordered (timeAt h'.data) h'.size
  earliest : h'.IsEarliest h'.top

/-- `modify` always ends and keeps the tasks; it restores the heap exactly when the new deadline is
moved to its place. -/
theorem restores_iff_rearms (h : TimerTaskHeap Cb) (hv : h.Valid) (id duration : ℕ) (cycled : Bool)
    (now : ℕ) (hid : ∃ task ∈ h.stored, task.id = id) :
    (∃ h', h.modify id duration cycled now = .ok (true, h') ∧ h.Restored h' id duration cycled now) ↔
      ∀ idx ∈ h.indexOf id, h.Rearms idx (SizeT.add now duration) := by
  cases hidx : h.indexOf id with
  | none =>
      obtain ⟨task, htask, heq⟩ := hid
      exact absurd heq (indexOf_eq_none_iff.mp hidx task htask)
  | some idx =>
      obtain ⟨hlt, hidx_id⟩ := indexOf_some hidx
      obtain ⟨h', hmodify, hiff⟩ := hv.modify_iff hidx duration cycled now
      obtain ⟨h'', hmodify', hsize, hlength, hperm⟩ :=
        modify_stored hv.fits hidx duration cycled now
      rw [hmodify] at hmodify'
      cases hmodify'
      have hfits : h'.Fits := by
        have hle : h.size ≤ h.data.length := hv.fits
        show h'.size ≤ h'.data.length
        omega
      constructor
      · rintro ⟨h₁, heq, hrestored⟩ i hi
        rw [hmodify] at heq
        cases heq
        cases hi
        exact hiff.mp hrestored.order
      · intro hrearms
        have horder := hiff.mpr (hrearms idx rfl)
        have hearliest := isEarliest_root hfits horder (by omega)
        refine ⟨h', hmodify, ⟨_, _, hidx_id, (getD_mem_stored hv.fits hidx).2, hperm⟩, horder, ?_⟩
        rw [hearliest.top_eq]
        exact hearliest

def fourTasks : TimerTaskHeap Unit :=
  ⟨[⟨1, 1, false, none, 10⟩, ⟨2, 2, false, none, 11⟩, ⟨3, 3, false, none, 12⟩,
    ⟨4, 4, false, none, 13⟩], 4, 4⟩

theorem fourTasks_valid : fourTasks.Valid where
  fits := by decide
  order := by
    intro i hpos hi
    have hcell : i = 1 ∨ i = 2 ∨ i = 3 := by
      have : i < 4 := hi
      omega
    rcases hcell with rfl | rfl | rfl <;> decide
  ids := by decide

theorem restores_iff_rearms_four :
    (∃ h', fourTasks.modify 13 7 true 0 = .ok (true, h') ∧
      fourTasks.Restored h' 13 7 true 0) ↔
      ∀ idx ∈ fourTasks.indexOf 13, fourTasks.Rearms idx (SizeT.add 0 7) :=
  restores_iff_rearms fourTasks fourTasks_valid 13 7 true 0
    ⟨⟨4, 4, false, none, 13⟩, by decide, rfl⟩

/-- The root is put off to 10 and sinks by one level only, above the task that is due at 4. -/
theorem modify_breaks_order : fourTasks.Valid ∧
    ¬ ∃ h', fourTasks.modify 10 10 false 0 = .ok (true, h') ∧
      fourTasks.Restored h' 10 10 false 0 := by
  refine ⟨fourTasks_valid, ?_⟩
  rintro ⟨h', hmodify, hrestored⟩
  have hafter : fourTasks.modify 10 10 false 0 = .ok (true,
      ⟨[⟨2, 2, false, none, 11⟩, ⟨10, 10, false, none, 10⟩, ⟨3, 3, false, none, 12⟩,
        ⟨4, 4, false, none, 13⟩], 4, 4⟩) := rfl
  rw [hafter] at hmodify
  cases hmodify
  exact absurd (hrestored.order 3 (by decide) (by decide)) (by decide)

end TimerTaskHeap

end LpNet
