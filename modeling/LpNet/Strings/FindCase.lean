import LpNet.Lib.Loop
import LpNet.Lib.Tiling
import LpNet.Logger.Formatter

/-!
`string_api::find_case`.

One pass over `s` with an index `j` into `target`, which goes back to 0 where the characters
differ, without a step in `s`. A loop that ends has tiled what it read of `s` by beginnings
of `target` (`tiled_of_loop`), and then what it returns is the first occurrence
(`not_occursAt_tiles`); on any other text it stays where a character differs from the first
one of `target`. `start` is not read.
-/

namespace LpNet.StringApi

open Loop Search Tiling

def tolower (s : Text) : Text := s.map Char.toLower

structure FindState where
  i : ℕ
  j : ℕ
  deriving DecidableEq, Repr

/-- One round of the loop, or what comes behind it: `none` is `npos`. -/
def findCaseRound (s target : Text) (st : FindState) : Except Fault (FindState ⊕ Option ℕ) :=
  if st.i < s.length ∧ st.j < target.length then
    if s[st.i]?.map Char.toLower = target[st.j]?.map Char.toLower then
      .ok (.inl ⟨st.i + 1, st.j + 1⟩)
    else .ok (.inl ⟨st.i, 0⟩)
  else if st.j ≥ target.length then .ok (.inr (some (st.i - target.length)))
  else .ok (.inr none)

/-- `find_case(s, target, start)`, with a number of rounds for its loop. -/
def findCase (rounds : ℕ) (s target : Text) (_start : ℕ) : Except Fault (Option ℕ) :=
  loop .diverges (findCaseRound s target) rounds ⟨0, 0⟩

/-- The text from `i` on starts with `target`, up to the case of its letters. -/
def MatchesAt (s target : Text) (i : ℕ) : Prop :=
  i ≤ s.length ∧ tolower (substr s i target.length) = tolower target

/-- The least such index from `start` on, or none if there is none. -/
def IsFirstFrom (s target : Text) (start : ℕ) : Option ℕ → Prop
  | some i => start ≤ i ∧ MatchesAt s target i ∧ ∀ k, start ≤ k → MatchesAt s target k → i ≤ k
  | none => ∀ k, start ≤ k → ¬ MatchesAt s target k

/-- The loop ends with the first match from `start` on. -/
def FindsCase (s target : Text) (start : ℕ) : Prop :=
  ∃ result, (∃ enough, ∀ rounds, enough ≤ rounds → findCase rounds s target start = .ok result) ∧
    IsFirstFrom s target start result

variable {s target : Text} {i j : ℕ}

@[simp] theorem length_tolower (s : Text) : (tolower s).length = s.length := List.length_map _

theorem matchesAt_iff : MatchesAt s target i ↔ OccursAt (tolower target) (tolower s) i := by
  rw [MatchesAt, OccursAt, length_tolower, List.prefix_iff_eq_take, length_tolower, substr,
    tolower, List.map_take, List.map_drop, tolower, tolower]
  exact and_congr_right fun _ => eq_comm

/-! ### A round -/

theorem round_match (hi : i < s.length) (hj : j < target.length)
    (heq : (tolower s)[i]? = (tolower target)[j]?) :
    Next (findCaseRound s target) ⟨i, j⟩ ⟨i + 1, j + 1⟩ := by
  rw [tolower, tolower, List.getElem?_map, List.getElem?_map] at heq
  rw [Next, findCaseRound, if_pos ⟨hi, hj⟩, if_pos heq]

theorem round_differ (hi : i < s.length) (hj : j < target.length)
    (hne : (tolower s)[i]? ≠ (tolower target)[j]?) :
    Next (findCaseRound s target) ⟨i, j⟩ ⟨i, 0⟩ := by
  rw [tolower, tolower, List.getElem?_map, List.getElem?_map] at hne
  rw [Next, findCaseRound, if_pos ⟨hi, hj⟩, if_neg hne]

theorem round_found (hj : target.length ≤ j) :
    findCaseRound s target ⟨i, j⟩ = .ok (.inr (some (i - target.length))) := by
  rw [findCaseRound, if_neg (fun h => absurd h.2 (Nat.not_lt_of_le hj)), if_pos hj]

theorem round_ended (hi : s.length ≤ i) (hj : j < target.length) :
    findCaseRound s target ⟨i, j⟩ = .ok (.inr none) := by
  rw [findCaseRound, if_neg (fun h => absurd h.1 (Nat.not_lt_of_le hi)),
    if_neg (Nat.not_le_of_lt hj)]

theorem getElem?_of_tiled {ls : List ℕ} {rest : Text}
    (hstop : ∀ l ∈ ls, Stop (tolower target) l) (hagree : Agree (tolower target) rest)
    (htiles : (tolower s).drop i = tiles (tolower target) ls ++ rest) (hi : i < s.length)
    (htarget : 0 < target.length) : (tolower s)[i]? = (tolower target)[0]? := by
  have hlen : 0 < (tiles (tolower target) ls ++ rest).length := by
    rw [← htiles, List.length_drop, length_tolower]
    omega
  rw [← getElem?_zero hstop hagree (by rwa [length_tolower]) hlen, ← htiles, List.getElem?_drop,
    Nat.add_zero]

/-! ### What the loop has read when it ends -/

theorem drop_match {w text : List Char} (hi : i < text.length) (hj : j < w.length)
    (heq : text[i]? = w[j]?) (hread : text.drop (i - j) = w.take j ++ text.drop i) :
    text.drop (i - j) = w.take (j + 1) ++ text.drop (i + 1) := by
  rw [List.getElem?_eq_getElem hi, List.getElem?_eq_getElem hj, Option.some.injEq] at heq
  rw [hread, List.drop_eq_getElem_cons hi, List.take_succ_eq_append_getElem hj, heq,
    List.append_assoc, List.singleton_append]

/-- What has been read since the loop was last at the start of `target`, and what is left, are
tiles up to the first occurrence or the end. -/
theorem tiled_of_loop {rounds : ℕ} {result : Option ℕ} (hij : j ≤ i) (hi : i ≤ s.length)
    (hj : j ≤ target.length)
    (hread : (tolower s).drop (i - j) = (tolower target).take j ++ (tolower s).drop i)
    (h : loop .diverges (findCaseRound s target) rounds ⟨i, j⟩ = .ok result) :
    ∃ ls rest, (∀ l ∈ ls, Stop (tolower target) l) ∧
      (tolower s).drop (i - j) = tiles (tolower target) ls ++ rest ∧
      ((tolower target <+: rest ∧ result = some (i - j + (tiles (tolower target) ls).length)) ∨
        (rest <+: tolower target ∧ rest.length < target.length ∧ result = none)) := by
  induction rounds generalizing i j with
  | zero => cases h
  | succ rounds ih =>
      by_cases hend : i < s.length ∧ j < target.length
      case neg =>
        refine ⟨[], (tolower s).drop (i - j), by simp, by simp, ?_⟩
        by_cases hfull : target.length ≤ j
        case pos =>
          have hjeq : j = target.length := Nat.le_antisymm hj hfull
          rw [loop_done (round_found hfull)] at h
          cases h
          rw [hread, List.take_of_length_le (by rw [length_tolower]; omega)]
          exact .inl ⟨List.prefix_append _ _, by simp [hjeq]⟩
        case neg =>
          have hieq : i = s.length := by omega
          rw [loop_done (round_ended (by omega) (by omega))] at h
          cases h
          rw [hread, List.drop_of_length_le (by rw [length_tolower]; omega), List.append_nil]
          refine .inr ⟨List.take_prefix _ _, ?_, rfl⟩
          rw [List.length_take, length_tolower]
          omega
      case pos =>
        obtain ⟨hlt, hjlt⟩ := hend
        by_cases heq : (tolower s)[i]? = (tolower target)[j]?
        case pos =>
          rw [loop_next (round_match hlt hjlt heq)] at h
          have hsame : i + 1 - (j + 1) = i - j := by omega
          have hnext := drop_match (by simpa using hlt) (by simpa using hjlt) heq hread
          rw [← hsame] at hnext ⊢
          exact ih (by omega) (by omega) (by omega) hnext h
        case neg =>
          rw [loop_next (round_differ hlt hjlt heq)] at h
          obtain ⟨ls, rest, hstop, htiles, hres⟩ :=
            ih (Nat.zero_le i) hi (Nat.zero_le _) (by simp) h
          rw [Nat.sub_zero] at htiles hres
          rcases Nat.eq_zero_or_pos j with rfl | hpos
          · exact ⟨ls, rest, hstop, htiles, hres⟩
          · have hagree : Agree (tolower target) rest := hres.imp And.left And.left
            -- the character that differs is the first one of the next tile
            have hstart := getElem?_of_tiled hstop hagree htiles hlt (by omega)
            have hj' : Stop (tolower target) j :=
              stop_of_ne (by simpa using hjlt) fun h0 => heq (hstart.trans h0.symm)
            have hlength : ((tolower target).take j).length = j :=
              List.length_take_of_le (by simpa using hj)
            refine ⟨j :: ls, rest, by simpa using ⟨hj', hstop⟩, ?_, hres.imp ?_ id⟩
            · rw [hread, htiles, tiles_cons, List.append_assoc]
            · rintro ⟨hpre, rfl⟩
              refine ⟨hpre, ?_⟩
              rw [tiles_cons, List.length_append, hlength]
              congr 1
              omega

theorem isFirst_of_returns {result : Option ℕ}
    (h : Returns .diverges (findCaseRound s target) ⟨0, 0⟩ result) :
    Tiled (tolower target) (tolower s) ∧ IsFirstFrom s target 0 result := by
  obtain ⟨enough, hall⟩ := h
  obtain ⟨ls, rest, hstop, htiles, hres⟩ := tiled_of_loop (Nat.le_refl 0) (Nat.zero_le _)
    (Nat.zero_le _) (by simp) (hall enough (Nat.le_refl enough))
  rw [Nat.sub_zero, List.drop_zero] at htiles
  have hagree : Agree (tolower target) rest := hres.imp And.left And.left
  refine ⟨⟨ls, rest, hstop, htiles, hagree⟩, ?_⟩
  have hleast : ∀ k, MatchesAt s target k → (tiles (tolower target) ls).length ≤ k := by
    intro k hk
    rw [matchesAt_iff, htiles] at hk
    by_contra hlt
    exact not_occursAt_tiles hstop hagree (by omega) hk
  rcases hres with ⟨hpre, rfl⟩ | ⟨-, hshort, rfl⟩
  · refine ⟨Nat.zero_le _, matchesAt_iff.mpr ⟨?_, ?_⟩, fun k _ hk => ?_⟩
    · rw [htiles, List.length_append]
      omega
    · rw [htiles, Nat.zero_sub, Nat.zero_add, List.drop_left]
      exact hpre
    · have := hleast k hk
      omega
  · intro k _ hk
    have hbehind := hleast k hk
    have hlen := (matchesAt_iff.mp hk).length_le
    rw [htiles, List.length_append, length_tolower] at hlen
    omega

/-! ### On which texts the loop ends -/

theorem returns_of_read {n : ℕ} {result : Option ℕ}
    (hread : ∀ k < n, i + k < s.length ∧ j + k < target.length ∧
      (tolower s)[i + k]? = (tolower target)[j + k]?)
    (h : Returns .diverges (findCaseRound s target) ⟨i + n, j + n⟩ result) :
    Returns .diverges (findCaseRound s target) ⟨i, j⟩ result := by
  induction n generalizing i j with
  | zero => exact h
  | succ n ih =>
      obtain ⟨hi, hj, heq⟩ := hread 0 n.succ_pos
      refine (returns_next (round_match hi hj heq)).mpr (ih ?_ ?_)
      · intro k hk
        have hnext := hread (k + 1) (by omega)
        rw [Nat.add_right_comm i 1 k, Nat.add_right_comm j 1 k]
        exact hnext
      · rw [Nat.add_right_comm i 1 n, Nat.add_right_comm j 1 n]
        exact h

theorem exists_returns_done (h : s.length ≤ i ∨ target.length ≤ j) :
    ∃ result, Returns .diverges (findCaseRound s target) ⟨i, j⟩ result := by
  by_cases hj : target.length ≤ j
  · exact ⟨_, returns_done (round_found hj)⟩
  · exact ⟨_, returns_done (round_ended (by omega) (by omega))⟩

theorem exists_returns_of_tiles {ls : List ℕ} {rest : Text}
    (hstop : ∀ l ∈ ls, Stop (tolower target) l) (hrest : Agree (tolower target) rest)
    (hi : i ≤ s.length) (htiles : (tolower s).drop i = tiles (tolower target) ls ++ rest) :
    ∃ result, Returns .diverges (findCaseRound s target) ⟨i, 0⟩ result := by
  have hat : ∀ k, (tolower s)[i + k]? = (tiles (tolower target) ls ++ rest)[k]? := by
    intro k
    rw [← htiles, List.getElem?_drop]
  have hlen : s.length = i + (tiles (tolower target) ls ++ rest).length := by
    rw [← htiles, List.length_drop, length_tolower]
    omega
  induction ls generalizing i with
  | nil =>
      rw [tiles_nil, List.nil_append] at hlen
      obtain ⟨result, hdone⟩ : ∃ result, Returns .diverges (findCaseRound s target)
          ⟨i + min target.length rest.length, 0 + min target.length rest.length⟩ result :=
        exists_returns_done (by omega)
      refine ⟨result, returns_of_read (fun k hk => ⟨by omega, by omega, ?_⟩) hdone⟩
      rw [hat k, tiles_nil, List.nil_append, Nat.zero_add]
      exact hrest.getElem? (by rw [length_tolower]; omega) (by omega)
  | cons l ls ih =>
      have hl := hstop l (by simp)
      have hstop' : ∀ l' ∈ ls, Stop (tolower target) l' := fun l' hl' => hstop l' (by simp [hl'])
      have hlt := hl.lt
      have hlength : ((tolower target).take l).length = l := List.length_take_of_le hlt.le
      rw [length_tolower] at hlt
      rw [tiles_cons, List.append_assoc] at hlen htiles hat
      rw [List.length_append, hlength] at hlen
      obtain ⟨result, hnext⟩ : ∃ result, Returns .diverges (findCaseRound s target)
          ⟨i + l, 0 + l⟩ result := by
        by_cases hend : s.length ≤ i + l
        case pos => exact exists_returns_done (.inl hend)
        case neg =>
          have htail : (tolower s).drop (i + l) = tiles (tolower target) ls ++ rest := by
            rw [← List.drop_drop, htiles, List.drop_append_of_le_length (by omega),
              List.drop_of_length_le (by omega), List.nil_append]
          have hstart := getElem?_of_tiled hstop' hrest htail (by omega) (by omega)
          have hne : (tolower s)[i + l]? ≠ (tolower target)[0 + l]? := by
            rw [hstart, Nat.zero_add]
            exact hl.ne.symm
          obtain ⟨result, htailret⟩ := ih hstop' (i := i + l) (by omega) htail
            (fun k => by rw [← htail, List.getElem?_drop]) (by omega)
          exact ⟨result, (returns_next (round_differ (by omega) (by omega) hne)).mpr htailret⟩
      refine ⟨result, returns_of_read (fun k hk => ⟨by omega, by omega, ?_⟩) hnext⟩
      rw [hat k, getElem?_tile hl.lt.le hk, Nat.zero_add]

/-! ### Where `find_case` is a find -/

theorem FindsCase.tiled {start : ℕ} (h : FindsCase s target start) :
    Tiled (tolower target) (tolower s) := by
  obtain ⟨result, hret, -⟩ := h
  exact (isFirst_of_returns hret).1

/-- The first match from `start` on is found where the text up to it is tiled by beginnings of
`target` and nothing before `start` matches. -/
theorem findsCase_iff (s target : Text) (start : ℕ) : FindsCase s target start ↔
    Tiled (tolower target) (tolower s) ∧ ∀ i < start, ¬ MatchesAt s target i := by
  constructor
  · intro h
    refine ⟨h.tiled, fun i hi hmatch => ?_⟩
    obtain ⟨result, hret, hfirst⟩ := h
    have hzero := (isFirst_of_returns hret).2
    cases result with
    | none => exact hzero i (Nat.zero_le i) hmatch
    | some k =>
        have hle := hzero.2.2 i (Nat.zero_le i) hmatch
        have hge := hfirst.1
        omega
  · rintro ⟨⟨ls, rest, hstop, htiles, hagree⟩, hnone⟩
    obtain ⟨result, hret⟩ := exists_returns_of_tiles (s := s) (i := 0) hstop hagree
      (Nat.zero_le _) htiles
    refine ⟨result, hret, ?_⟩
    have hzero := (isFirst_of_returns hret).2
    cases result with
    | none => exact fun k _ => hzero k (Nat.zero_le k)
    | some k =>
        obtain ⟨-, hmatch, hleast⟩ := hzero
        refine ⟨?_, hmatch, fun k' _ => hleast k' (Nat.zero_le k')⟩
        by_contra hlt
        exact hnone k (by omega) hmatch

/-- A character that differs from the first one of the target is never left. -/
theorem not_findsCase_differ : ¬ FindsCase ['a'] ['b'] 0 := by
  rintro ⟨result, hret, -⟩
  refine not_returns (I := fun st => st = ⟨0, 0⟩) ?_ rfl result hret
  rintro st rfl
  exact ⟨⟨0, 0⟩, rfl, rfl⟩

end LpNet.StringApi
