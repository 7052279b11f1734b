import LpNet.Lib.Loop
import LpNet.Lib.Search
import LpNet.Logger.Formatter

/-!
`string_api::split`.

The loop looks for the delimiter from `start` on and goes on behind it. From a `start` in
the text it adds the pieces that the rest is cut into (`loop_split`), and each round is
behind the one before by more than the delimiter. The empty delimiter is found at every
`start` and does not move it, so the loop never ends.
-/

namespace LpNet.StringApi

open Loop Search

/-- `s.find(str, pos)`, where `none` is `npos`. -/
def find (s str : Text) (pos : ℕ) : Option ℕ :=
  if pos ≤ s.length then (locate str (s.drop pos)).map (pos + ·) else none

/-- `s.substr(pos, n)`, which throws if `pos` is behind the end. -/
def substrAt (s : Text) (pos n : ℕ) : Except Fault Text :=
  if pos ≤ s.length then .ok (substr s pos n) else .error .outOfBounds

def substrFrom (s : Text) (pos : ℕ) : Except Fault Text :=
  if pos ≤ s.length then .ok (s.drop pos) else .error .outOfBounds

structure SplitState where
  start : ℕ
  result : List Text
  deriving DecidableEq, Repr

/-- One round of the loop, or what comes behind it. -/
def splitRound (s delim : Text) (st : SplitState) : Except Fault (SplitState ⊕ List Text) :=
  match find s delim st.start with
  | some stop => do
      let piece ← substrAt s st.start (stop - st.start)
      .ok (.inl ⟨stop + delim.length, st.result ++ [piece]⟩)
  | none => do
      let piece ← substrFrom s st.start
      .ok (.inr (st.result ++ [piece]))

/-- `split(s, delim)`, with a number of rounds for its loop. -/
def split (rounds : ℕ) (s delim : Text) : Except Fault (List Text) :=
  loop .diverges (splitRound s delim) rounds ⟨0, []⟩

/-! ### A round -/

variable {s delim : Text} {start : ℕ} {result pieces : List Text}

theorem find_eq_some_iff {str : Text} {pos stop : ℕ} : find s str pos = some stop ↔
    pos ≤ s.length ∧ ∃ j, First str (s.drop pos) j ∧ pos + j = stop := by
  rw [find]
  split
  case isTrue hle => simp [hle, locate_eq_some_iff]
  case isFalse hlt => simp [hlt]

theorem splitRound_next {j : ℕ} (hle : start ≤ s.length) (hj : First delim (s.drop start) j) :
    Next (splitRound s delim) ⟨start, result⟩
      ⟨start + (j + delim.length), result ++ [(s.drop start).take j]⟩ := by
  have hfind : find s delim start = some (start + j) := find_eq_some_iff.mpr ⟨hle, j, hj, rfl⟩
  rw [Next, splitRound, hfind]
  simp [substrAt, hle, substr, Nat.add_assoc]

theorem splitRound_done (hle : start ≤ s.length) (h : ¬ delim <:+: s.drop start) :
    splitRound s delim ⟨start, result⟩ = .ok (.inr (result ++ [s.drop start])) := by
  have hfind : find s delim start = none := by
    rw [find, if_pos hle, locate_eq_none_iff.mpr h, Option.map_none]
  rw [splitRound, hfind]
  simp [substrFrom, hle]

theorem start_lt_of_next {st next : SplitState} (hdelim : delim ≠ [])
    (h : Next (splitRound s delim) st next) : st.start < next.start := by
  have hpos := List.length_pos_of_ne_nil hdelim
  rw [Next, splitRound] at h
  split at h
  case h_1 stop hfind =>
    obtain ⟨hle, j, -, rfl⟩ := find_eq_some_iff.mp hfind
    rw [substrAt, if_pos hle] at h
    cases h
    change st.start < st.start + j + delim.length
    omega
  case h_2 =>
    rw [substrFrom] at h
    split at h <;> cases h

/-! ### The loop -/

theorem loop_split {rounds : ℕ} (hle : start ≤ s.length) (h : Cut delim (s.drop start) pieces)
    (hrounds : pieces.length ≤ rounds) :
    loop .diverges (splitRound s delim) rounds ⟨start, result⟩ = .ok (result ++ pieces) := by
  generalize htext : s.drop start = text at h
  induction h generalizing start result rounds with
  | last hnot =>
      obtain ⟨rounds, rfl⟩ : ∃ r, rounds = r + 1 := ⟨rounds - 1, by simp at hrounds; omega⟩
      subst htext
      exact loop_done (splitRound_done hle hnot) rounds
  | @cut _ pieces j hj _ ih =>
      obtain ⟨rounds, rfl⟩ : ∃ r, rounds = r + 1 := ⟨rounds - 1, by simp at hrounds; omega⟩
      subst htext
      have hlen := hj.here.length_le
      rw [List.length_drop] at hlen
      rw [loop_next (splitRound_next hle hj),
        ih (by omega) (by simpa using hrounds) (by rw [List.drop_drop]), List.append_assoc]
      rfl

theorem split_eq {rounds : ℕ} (h : Cut delim s pieces) (hrounds : pieces.length ≤ rounds) :
    split rounds s delim = .ok pieces :=
  loop_split (Nat.zero_le _) h hrounds

theorem split_char {rounds : ℕ} (s : Text) (c : Char) (hrounds : s.length < rounds) :
    split rounds s [c] = .ok (s.splitOn c) := by
  have hdelim : [c] ≠ [] := List.cons_ne_nil c []
  obtain ⟨pieces, hcut⟩ := Cut.exists_of_ne_nil hdelim s
  have hfree : ∀ piece ∈ pieces, c ∉ piece := fun piece hpiece hmem =>
    hcut.not_infix hdelim piece hpiece ((List.singleton_infix_iff c piece).mpr hmem)
  have hpieces : s.splitOn c = pieces := by
    rw [← hcut.intercalate_eq]
    exact List.splitOn_intercalate c hfree hcut.ne_nil
  have hlength := hcut.length_le hdelim
  rw [hpieces]
  exact split_eq hcut (by omega)

/-- Splitting at a delimiter is undone by joining with it, leaves the delimiter in no piece,
and makes one piece more than there are occurrences. -/
theorem split_inverts_join (s delim : Text) (hdelim : delim ≠ []) :
    ∃ pieces, (∀ rounds, s.length < rounds → split rounds s delim = .ok pieces) ∧
      delim.intercalate pieces = s ∧ (∀ piece ∈ pieces, ¬ delim <:+: piece) ∧
      (∃ lengths rest, Pieces delim s lengths rest) ∧
      ∀ lengths rest, Pieces delim s lengths rest → pieces.length = lengths.length + 1 := by
  obtain ⟨pieces, hcut⟩ := Cut.exists_of_ne_nil hdelim s
  have hlength := hcut.length_le hdelim
  obtain ⟨lengths, rest, hpieces, hcount⟩ := hcut.exists_pieces
  refine ⟨pieces, fun rounds hrounds => split_eq hcut (by omega), hcut.intercalate_eq,
    hcut.not_infix hdelim, ⟨lengths, rest, hpieces⟩, ?_⟩
  intro lengths' rest' hpieces'
  rw [hcount, (hpieces.unique hpieces').1]

/-- A delimiter that overlaps itself. -/
theorem split_inverts_join_overlap :
    ∃ pieces, (∀ rounds, "aaaxaa".toList.length < rounds →
        split rounds "aaaxaa".toList "aa".toList = .ok pieces) ∧
      "aa".toList.intercalate pieces = "aaaxaa".toList ∧
      (∀ piece ∈ pieces, ¬ "aa".toList <:+: piece) ∧
      (∃ lengths rest, Pieces "aa".toList "aaaxaa".toList lengths rest) ∧
      ∀ lengths rest, Pieces "aa".toList "aaaxaa".toList lengths rest →
        pieces.length = lengths.length + 1 :=
  split_inverts_join _ _ (by decide)

/-! ### The end of the loop -/

/-- The loop ends with few pieces, and each of its rounds moves `start`. -/
def SplitEnds (s delim : Text) : Prop :=
  (∃ pieces, (∃ enough, ∀ rounds, enough ≤ rounds → split rounds s delim = .ok pieces) ∧
      pieces.length ≤ s.length + 1) ∧
    ∀ st next, Reached (splitRound s delim) ⟨0, []⟩ st → Next (splitRound s delim) st next →
      st.start < next.start

theorem split_empty (rounds : ℕ) (s : Text) : split rounds s [] = .error .diverges := by
  refine loop_eq_out (I := fun st => st.start = 0) ?_ rfl rounds
  rintro ⟨start, result⟩ rfl
  have hzero : First [] (s.drop 0) 0 := first_zero.mpr (List.nil_prefix)
  exact ⟨_, splitRound_next (Nat.zero_le _) hzero, rfl⟩

theorem SplitEnds.delim_ne_nil (h : SplitEnds s delim) : delim ≠ [] := by
  obtain ⟨⟨pieces, ⟨enough, hall⟩, -⟩, -⟩ := h
  have hok := hall enough (Nat.le_refl enough)
  rintro rfl
  rw [split_empty] at hok
  cases hok

theorem splitEnds_iff (s delim : Text) : SplitEnds s delim ↔ delim ≠ [] := by
  constructor
  · exact SplitEnds.delim_ne_nil
  · intro hdelim
    obtain ⟨pieces, hcut⟩ := Cut.exists_of_ne_nil hdelim s
    exact ⟨⟨pieces, ⟨pieces.length, fun rounds hrounds => split_eq hcut hrounds⟩,
      hcut.length_le hdelim⟩, fun st next _ hnext => start_lt_of_next hdelim hnext⟩

theorem not_splitEnds_empty : ¬ SplitEnds "key=value".toList [] := fun h => h.delim_ne_nil rfl

end LpNet.StringApi
