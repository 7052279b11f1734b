import LpNet.Logger.Formatter

/-!
`string_api::start_with` and `end_with`, and the searches for a character.

Both functions compare `matchStr`, from its first character on, with characters of `s`: `start_with`
with those from the first one on, and `end_with` with those from the last one back. So
`end_with` is `start_with` of the reversed `s` with the same `matchStr` (`endWith_eq`).
-/

namespace LpNet.StringApi

variable {s matchStr : Text}

/-- The loop of both: character `i` of `matchStr` is that of `s` at `index i`. -/
def matchLoop (s matchStr : Text) (index : ℕ → ℕ) : Bool :=
  (List.range matchStr.length).all fun i => s[index i]? = matchStr[i]?

def endWith (s matchStr : Text) : Bool :=
  if matchStr.length > s.length then false
  else matchLoop s matchStr fun i => s.length - 1 - i

theorem matchLoop_iff {index : ℕ → ℕ} : matchLoop s matchStr index = true ↔
    ∀ i < matchStr.length, s[index i]? = matchStr[i]? := by
  simp [matchLoop]

theorem matchLoop_id_iff : matchLoop s matchStr id = true ↔ matchStr <+: s := by
  rw [matchLoop_iff, List.prefix_iff_getElem?]
  refine forall_congr' fun i => forall_congr' fun hi => ?_
  rw [List.getElem?_eq_getElem hi, id_eq]

theorem startWith_eq_loop (s matchStr : Text) : startWith s matchStr =
    if matchStr.length > s.length then false else matchLoop s matchStr id := by
  rw [startWith]
  split
  · rfl
  · rw [Bool.eq_iff_iff, decide_eq_true_eq, matchLoop_id_iff, List.prefix_iff_eq_take]
    exact eq_comm

theorem startWith_iff : startWith s matchStr = true ↔ matchStr <+: s := by
  rw [startWith_eq_loop, ← matchLoop_id_iff]
  split
  case isTrue hlong =>
    refine iff_of_false Bool.false_ne_true fun hloop => ?_
    exact absurd (matchLoop_id_iff.mp hloop).length_le (Nat.not_le_of_lt hlong)
  case isFalse => exact Iff.rfl

theorem endWith_eq (s matchStr : Text) : endWith s matchStr = startWith s.reverse matchStr := by
  rw [startWith_eq_loop, List.length_reverse, endWith]
  split
  case isTrue => rfl
  case isFalse hle =>
    rw [Bool.eq_iff_iff, matchLoop_iff, matchLoop_iff]
    refine forall_congr' fun i => forall_congr' fun hi => ?_
    rw [id_eq, List.getElem?_reverse (by omega)]

theorem endWith_iff : endWith s matchStr = true ↔ matchStr.reverse <:+ s := by
  rw [endWith_eq, startWith_iff, ← List.reverse_prefix, List.reverse_reverse]

/-- The two functions say how `s` starts and ends, and each is the other one of the reversed
texts. -/
def Mirrored (s matchStr : Text) : Prop :=
  (startWith s matchStr = true ↔ ∃ t, s = matchStr ++ t) ∧
    (endWith s matchStr = true ↔ ∃ t, s = t ++ matchStr) ∧
    endWith s matchStr = startWith s.reverse matchStr.reverse

theorem mirrored_iff_endWith :
    Mirrored s matchStr ↔ (endWith s matchStr = true ↔ matchStr <:+ s) := by
  have hend : (∃ t, s = t ++ matchStr) ↔ matchStr <:+ s := exists_congr fun t => eq_comm
  have hstart : (∃ t, s = matchStr ++ t) ↔ matchStr <+: s := exists_congr fun t => eq_comm
  have hreverse : startWith s.reverse matchStr.reverse = true ↔ matchStr <:+ s := by
    rw [startWith_iff, List.reverse_prefix]
  have heq : endWith s matchStr = startWith s.reverse matchStr.reverse ↔
      (endWith s matchStr = true ↔ matchStr <:+ s) := by
    rw [Bool.eq_iff_iff, hreverse]
  rw [Mirrored, hend, hstart, heq]
  exact ⟨fun h => h.2.1, fun h => ⟨startWith_iff, h, h⟩⟩

/-- `end_with` is the mirror image of `start_with` where `matchStr` is a palindrome, and where
`s` ends with neither it nor its reverse. -/
theorem mirrored_iff (s matchStr : Text) : Mirrored s matchStr ↔
    matchStr.reverse = matchStr ∨ ¬ matchStr <:+ s ∧ ¬ matchStr.reverse <:+ s := by
  rw [mirrored_iff_endWith, endWith_iff]
  constructor
  · intro h
    by_cases hsuffix : matchStr <:+ s
    · -- two suffixes of one length
      have hreverse := List.suffix_of_suffix_length_le (h.mpr hsuffix) hsuffix (by simp)
      exact .inl (hreverse.eq_of_length (by simp))
    · exact .inr ⟨hsuffix, fun hreverse => hsuffix (h.mp hreverse)⟩
  · rintro (hpal | ⟨hnot, hnot'⟩)
    · rw [hpal]
    · exact iff_of_false hnot' hnot

theorem not_mirrored_ab : ¬ Mirrored "ab".toList "ab".toList := by
  rw [mirrored_iff_endWith]
  intro h
  have hend := h.mpr (List.suffix_refl _)
  exact absurd hend (by decide)

/-! ### Searches for a character -/

/-- `s.find_first_of(c)`, where `none` is `npos`. -/
def findFirstOf (s : Text) (c : Char) : Option ℕ := s.findIdx? fun x => x = c

variable {a b : Text} {c : Char}

theorem findFirstOf_absent (h : c ∉ s) : findFirstOf s c = none := by
  rw [findFirstOf, List.findIdx?_eq_none_iff]
  intro x hx
  simpa using fun heq : x = c => h (heq ▸ hx)

theorem findFirstOf_append (h : c ∉ a) : findFirstOf (a ++ c :: b) c = some a.length := by
  have hnone : (a.findIdx? fun x => x = c) = none := findFirstOf_absent h
  simp [findFirstOf, List.findIdx?_append, hnone, List.findIdx?_cons]

theorem rfind_append (h : c ∉ b) : rfind (a ++ c :: b) c = a.length := by
  have hfirst : (a ++ c :: b).reverse.findIdx? (fun x => x = c) = some b.length := by
    have hfind : findFirstOf (b.reverse ++ c :: a.reverse) c = some b.reverse.length :=
      findFirstOf_append (by simpa using h)
    have hreverse : (a ++ c :: b).reverse = b.reverse ++ c :: a.reverse := by simp
    rw [List.length_reverse] at hfind
    rw [hreverse]
    exact hfind
  rw [rfind, hfirst, List.length_append, List.length_cons]
  dsimp only
  omega

theorem rfind_absent (h : c ∉ s) : rfind s c = npos := by
  have hnone : s.reverse.findIdx? (fun x => x = c) = none := findFirstOf_absent (by simpa using h)
  rw [rfind, hnone]

/-- What is found is behind a part without the character. -/
theorem le_rfind_append (h : c ∉ a) (ha : a.length ≤ npos) : a.length ≤ rfind (a ++ b) c := by
  by_cases hb : c ∈ b
  case pos =>
    obtain ⟨after, before, heq, hafter⟩ := List.eq_append_cons_of_mem (List.mem_reverse.mpr hb)
    have hsplit : b = before.reverse ++ c :: after.reverse := by
      rw [← List.reverse_reverse b, heq]
      simp
    rw [hsplit, ← List.append_assoc, rfind_append (by simpa using hafter), List.length_append]
    omega
  case neg =>
    rw [rfind_absent (by simp [h, hb])]
    exact ha

end LpNet.StringApi
