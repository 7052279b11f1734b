import LpNet.Lib.Search
import Mathlib.Data.List.Rotate

/-!
Texts that are beginnings of a word, one after the other.

A search with one pass reads the word from its start again where it fails. If it fails only
at a character the word starts with, what it has read is tiled by beginnings of the word,
each of which goes on in the word with another character (`Stop`). `not_occursAt_tiles` is
why such a search misses nothing: no occurrence of the word starts in a tile. One that
starts `r` characters behind the start of a tile would make the first `r` characters of the
word tile a rotation of themselves, and hence occur in two rounds of the tiles, which is the
same for a shorter word.
-/

namespace LpNet.Tiling

open Search

variable {α : Type*} {w rest text : List α} {ls : List ℕ} {l r : ℕ}

/-! ### Tiles -/

/-- A beginning of the word, behind which the word goes on otherwise than it starts. -/
structure Stop (w : List α) (l : ℕ) : Prop where
  pos : 0 < l
  lt : l < w.length
  ne : w[l]? ≠ w[0]?

/-- The beginnings of these lengths in a row. -/
def tiles (w : List α) (ls : List ℕ) : List α := ls.flatMap fun l => w.take l

/-- One list starts with the other. -/
def Agree (w rest : List α) : Prop := w <+: rest ∨ rest <+: w

/-- Tiles, and behind them the word or the part of it that fits in the text. -/
def Tiled (w text : List α) : Prop :=
  ∃ ls rest, (∀ l ∈ ls, Stop w l) ∧ text = tiles w ls ++ rest ∧ Agree w rest

@[simp] theorem tiles_nil (w : List α) : tiles w [] = [] := rfl

@[simp] theorem tiles_cons (w : List α) (l : ℕ) (ls : List ℕ) :
    tiles w (l :: ls) = w.take l ++ tiles w ls := List.flatMap_cons

theorem tiles_append (w : List α) (ls ls' : List ℕ) :
    tiles w (ls ++ ls') = tiles w ls ++ tiles w ls' := List.flatMap_append

theorem stop_of_ne (hlt : l < w.length) (hne : w[l]? ≠ w[0]?) : Stop w l := by
  refine ⟨Nat.pos_of_ne_zero ?_, hlt, hne⟩
  rintro rfl
  exact hne rfl

theorem getElem?_of_starts {a b : List α} (h : a <+: b) {k : ℕ} (hk : k < a.length) :
    b[k]? = a[k]? := by
  obtain ⟨after, rfl⟩ := h
  exact List.getElem?_append_left hk

theorem Agree.getElem? (h : Agree w rest) {k : ℕ} (hw : k < w.length) (hk : k < rest.length) :
    rest[k]? = w[k]? := by
  rcases h with h | h
  · exact getElem?_of_starts h hw
  · exact (getElem?_of_starts h hk).symm

theorem Agree.take (h : Agree w rest) (hw : r ≤ w.length) (hk : r ≤ rest.length) :
    rest.take r = w.take r := by
  rcases h with ⟨after, rfl⟩ | ⟨after, rfl⟩
  · exact List.take_append_of_le_length hw
  · exact (List.take_append_of_le_length hk).symm

theorem getElem?_tile (hl : l ≤ w.length) {k : ℕ} (hk : k < l) :
    (w.take l ++ rest)[k]? = w[k]? := by
  rw [List.getElem?_append_left (by rw [List.length_take]; omega), List.getElem?_take, if_pos hk]

theorem getElem?_zero (hstop : ∀ l ∈ ls, Stop w l) (hrest : Agree w rest) (hw : 0 < w.length)
    (hlen : 0 < (tiles w ls ++ rest).length) : (tiles w ls ++ rest)[0]? = w[0]? := by
  cases ls with
  | nil => exact hrest.getElem? hw hlen
  | cons l ls =>
      have hl := hstop l (by simp)
      rw [tiles_cons, List.append_assoc]
      exact getElem?_tile hl.lt.le hl.pos

/-- Up to a character the word does not start with, a tiled text is tiles and nothing else. -/
theorem exists_tiles_take (hstop : ∀ l ∈ ls, Stop w l) (hrest : Agree w rest)
    (hr : r < w.length) (hlen : r < (tiles w ls ++ rest).length)
    (hne : (tiles w ls ++ rest)[r]? ≠ w[0]?) :
    ∃ ls', (∀ l ∈ ls', Stop w l ∧ l ≤ r) ∧ tiles w ls' = (tiles w ls ++ rest).take r := by
  induction ls generalizing r with
  | nil =>
      rw [tiles_nil, List.nil_append] at hlen hne
      rw [hrest.getElem? hr hlen] at hne
      refine ⟨[r], by simpa using stop_of_ne hr hne, ?_⟩
      simp [hrest.take hr.le hlen.le]
  | cons l ls ih =>
      have hl := hstop l (by simp)
      rw [tiles_cons, List.append_assoc] at hlen hne ⊢
      have hlength : (w.take l).length = l := List.length_take_of_le hl.lt.le
      by_cases hlt : r < l
      case pos =>
        rw [getElem?_tile hl.lt.le hlt] at hne
        refine ⟨[r], by simpa using stop_of_ne hr hne, ?_⟩
        rw [List.take_append_of_le_length (by omega), List.take_take, min_eq_left hlt.le]
        simp
      case neg =>
        rw [List.length_append] at hlen
        rw [List.getElem?_append_right (by omega), hlength] at hne
        obtain ⟨ls', hls', heq⟩ := ih (fun l' hl' => hstop l' (by simp [hl'])) (by omega)
          (by omega) hne
        refine ⟨l :: ls', ?_, ?_⟩
        · rw [List.forall_mem_cons]
          refine ⟨⟨hl, by omega⟩, fun l' hl' => ⟨(hls' l' hl').1, ?_⟩⟩
          have := (hls' l' hl').2
          omega
        · have hfirst : (w.take l).take r = w.take l := List.take_of_length_le (by omega)
          have hpart : (w.take l ++ (tiles w ls ++ rest)).take r =
              w.take l ++ (tiles w ls ++ rest).take (r - l) := by
            rw [List.take_append, hfirst, hlength]
          rw [tiles_cons, heq, hpart]

/-! ### An occurrence inside a tile -/

/-- Where a word repeats itself after `r` characters, it is its first `r` characters again and
again. -/
theorem getElem?_mod (hper : ∀ k, r + k < l → w[r + k]? = w[k]?) {k : ℕ} (hk : k < l) :
    w[k]? = w[k % r]? := by
  induction k using Nat.strong_induction_on with
  | _ k ih =>
      by_cases hlt : k < r
      case pos => rw [Nat.mod_eq_of_lt hlt]
      case neg =>
        rcases Nat.eq_zero_or_pos r with rfl | hpos
        · rw [Nat.mod_zero]
        · obtain ⟨d, rfl⟩ : ∃ d, k = r + d := ⟨k - r, by omega⟩
          rw [hper d hk, ih d (by omega) (by omega), Nat.add_mod_left]

/-- An occurrence that starts inside of a tile repeats the tile as long as it is in it. -/
theorem getElem?_inside (hocc : OccursAt w (w.take l ++ rest) r) (hlw : l ≤ w.length) (k : ℕ)
    (hk : r + k < l) : w[r + k]? = w[k]? := by
  have hlength : (w.take l).length = l := List.length_take_of_le hlw
  have hat := getElem?_of_starts hocc.2 (show k < w.length by omega)
  rw [List.getElem?_drop, List.getElem?_append_left (by omega), List.getElem?_take,
    if_pos hk] at hat
  exact hat

theorem getElem?_behind (hocc : OccursAt w (w.take l ++ rest) r) (hlw : l ≤ w.length)
    (hr : r ≤ l) (k : ℕ) (hk : l - r + k < w.length) : rest[k]? = w[l - r + k]? := by
  have hlength : (w.take l).length = l := List.length_take_of_le hlw
  have hat := getElem?_of_starts hocc.2 hk
  rw [List.getElem?_drop, List.getElem?_append_right (by omega), hlength] at hat
  rw [← hat]
  congr 1
  omega

/-- A rest that goes on with a word that repeats itself after `r` characters starts with a rotation
of these. -/
theorem take_eq_rotate (hper : ∀ k, r + k < l → w[r + k]? = w[k]?) (hr : r < l)
    (hlw : l ≤ w.length) (hrest : ∀ k < r, rest[k]? = w[l - r + k]?) :
    rest.take r = (w.take r).rotate (l - r) := by
  have hlength : (w.take r).length = r := List.length_take_of_le (by omega)
  refine List.ext_getElem? fun k => ?_
  by_cases hk : k < r
  case neg =>
    rw [List.getElem?_take, if_neg hk, List.getElem?_eq_none]
    rw [List.length_rotate, hlength]
    omega
  case pos =>
    have hmod : (k + (l - r)) % r < r := Nat.mod_lt _ (by omega)
    rw [List.getElem?_take, if_pos hk, hrest k hk, List.getElem?_rotate (by omega), hlength,
      List.getElem?_take, if_pos hmod, getElem?_mod hper (by omega), Nat.add_comm]

/-- A word that is a rotation of its tiles occurs in two rounds of them. -/
theorem occursAt_of_rotate {u c : List α} (hrot : c ~r u) (hne : c ≠ []) :
    ∃ j < c.length, OccursAt u (c ++ c) j := by
  obtain ⟨n, rfl⟩ := hrot
  have hpos := List.length_pos_of_ne_nil hne
  have hlt := Nat.mod_lt n hpos
  refine ⟨n % c.length, hlt, by rw [List.length_append]; omega, ?_⟩
  rw [List.rotate_eq_drop_append_take_mod, List.drop_append_of_le_length hlt.le,
    List.prefix_append_right_inj]
  exact List.take_prefix _ _

/-- An occurrence of a word inside a tile makes a shorter word, which is a rotation of its own
tiles. -/
theorem exists_rotated_of_occursAt (hl : Stop w l) (hstop : ∀ l ∈ ls, Stop w l)
    (hrest : Agree w rest) (hr : r < l)
    (hocc : OccursAt w (w.take l ++ (tiles w ls ++ rest)) r) :
    ∃ ls', 0 < r ∧ (∀ l ∈ ls', Stop (w.take r) l) ∧ tiles (w.take r) ls' ~r w.take r := by
  have hlw := hl.lt
  have hper := getElem?_inside hocc hlw.le
  have hbehind := getElem?_behind hocc hlw.le hr.le
  have hlong : r < (tiles w ls ++ rest).length := by
    have hat := hbehind r (by omega)
    rw [List.getElem?_eq_getElem (show l - r + r < w.length by omega)] at hat
    exact (List.getElem?_eq_some_iff.mp hat).1
  have hstart : w[l - r]? = w[0]? := by
    rw [← getElem?_zero hstop hrest (by omega) (by omega)]
    exact (hbehind 0 (by omega)).symm
  have hpos : 0 < r := by
    refine Nat.pos_of_ne_zero ?_
    rintro rfl
    exact hl.ne hstart
  have hback : w[r]? = w[0]? := hper 0 (by omega)
  have hother : (tiles w ls ++ rest)[r]? ≠ w[0]? := by
    rw [hbehind r (by omega), show l - r + r = l by omega]
    exact hl.ne
  obtain ⟨ls', hls', heq⟩ := exists_tiles_take hstop hrest (by omega) hlong hother
  have hshort : ∀ l' ∈ ls', l' < r := by
    intro l' hl'
    refine lt_of_le_of_ne (hls' l' hl').2 ?_
    rintro rfl
    exact (hls' l' hl').1.ne hback
  have hsame : tiles (w.take r) ls' = tiles w ls' := by
    refine List.flatMap_congr fun l' hl' => ?_
    rw [List.take_take, min_eq_left (hls' l' hl').2]
  refine ⟨ls', hpos, fun l' hl' => ⟨(hls' l' hl').1.pos, ?_, ?_⟩, ?_⟩
  · rw [List.length_take_of_le (by omega)]
    exact hshort l' hl'
  · rw [List.getElem?_take, if_pos (hshort l' hl'), List.getElem?_take, if_pos hpos]
    exact (hls' l' hl').1.ne
  · have hrotate : (tiles w ls ++ rest).take r = (w.take r).rotate (l - r) :=
      take_eq_rotate hper hr hlw.le fun k hk => hbehind k (by omega)
    rw [hsame, heq, hrotate]
    exact .forall _ _

/-! ### No occurrence starts in a tile -/

theorem not_occursAt_tiles (hstop : ∀ l ∈ ls, Stop w l) (hrest : Agree w rest) {o : ℕ}
    (ho : o < (tiles w ls).length) : ¬ OccursAt w (tiles w ls ++ rest) o := by
  induction hn : w.length using Nat.strong_induction_on generalizing w ls rest o with
  | _ n ih =>
      induction ls generalizing o with
      | nil => exact absurd ho (Nat.not_lt_zero o)
      | cons l ls ihls =>
          have hl := hstop l (by simp)
          have hstop' : ∀ l' ∈ ls, Stop w l' := fun l' hl' => hstop l' (by simp [hl'])
          have hlength : (w.take l).length = l := List.length_take_of_le hl.lt.le
          rw [tiles_cons, List.length_append, hlength] at ho
          rw [tiles_cons, List.append_assoc]
          by_cases hin : o < l
          case neg =>
            rintro ⟨hle, hpre⟩
            rw [List.length_append, hlength] at hle
            rw [List.drop_append, List.drop_of_length_le (by omega), hlength,
              List.nil_append] at hpre
            exact ihls hstop' (by omega) ⟨by omega, hpre⟩
          case pos =>
            intro hocc
            obtain ⟨ls', hpos, hls', hrot⟩ :=
              exists_rotated_of_occursAt hl hstop' hrest hin hocc
            have hlt := hl.lt
            have hu : (w.take o).length = o := List.length_take_of_le (by omega)
            have hne : tiles (w.take o) ls' ≠ [] := by
              rw [← List.length_pos_iff, hrot.perm.length_eq, hu]
              exact hpos
            obtain ⟨j, hj, hoccj⟩ := occursAt_of_rotate hrot hne
            rw [← tiles_append, ← List.append_nil (tiles _ _)] at hoccj
            refine ih o (by omega) ?_ (.inr List.nil_prefix) ?_ hu hoccj
            · intro l' hl'
              rw [List.mem_append, or_self] at hl'
              exact hls' l' hl'
            · rw [tiles_append, List.length_append]
              omega

end LpNet.Tiling
